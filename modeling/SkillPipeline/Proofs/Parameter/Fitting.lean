import SkillPipeline.Parameter.Check
import SkillPipeline.Proofs.Outcome
import SkillPipeline.Proofs.Text.WhiteSpace

namespace SkillPipeline

theorem TimeText.parse_trim (s : String) : parse Float (Text.trim s) = parse Float s := by
  rw [parse, parse, Text.toList_trim, Text.trimChars_trimChars]

namespace Choice

variable {text choice : String} {choices : List String} {wanted : List Char}

theorem firstUnique_mem {tests : List (List Char → List Char → Bool)}
    (h : firstUnique wanted choices tests = some choice) : choice ∈ choices := by
  induction tests with
  | nil => cases h
  | cons test rest ih =>
    rw [firstUnique] at h
    split at h
    · next found hhits =>
      obtain rfl : found = choice := Option.some.inj h
      have hmem : found ∈ hits test wanted choices := hhits ▸ List.mem_singleton_self found
      exact (List.mem_filter.mp hmem).1
    · exact ih h

theorem mem_of_find? (h : find? text choices = some choice) : choice ∈ choices := by
  rw [find?] at h
  split at h
  · cases h
  · exact firstUnique_mem h

end Choice

namespace ParameterSpec

open Outcome

variable {spec : ParameterSpec} {v : Value} {w : ParamValue}

theorem isFinite_of_numberOf? {n : Float} (h : numberOf? v = some n) : n.isFinite = true := by
  cases v with
  | number m =>
    rw [numberOf?] at h
    split at h
    · next hfinite => exact Option.some.inj h ▸ hfinite
    · cases h
  | string s => exact (Option.filter_eq_some_iff.mp h).2
  | _ => cases h

theorem checkChoice_eq_ok {text : String} (h : spec.checkChoice text = .ok w) :
    ∃ choice ∈ spec.choices, w = .text choice := by
  rw [checkChoice] at h
  split at h
  · next hmem => exact ⟨text, List.contains_iff_mem.mp hmem, (Except.ok.inj h).symm⟩
  · split at h
    · next choice hfind => exact ⟨choice, Choice.mem_of_find? hfind, (Except.ok.inj h).symm⟩
    · cases h

theorem checkChoice_of_mem {choice : String} (h : choice ∈ spec.choices) :
    spec.checkChoice choice = .ok (.text choice) := if_pos (List.contains_iff_mem.mpr h)

/-- The values of a parameter in the form of its type. -/
inductive Form (spec : ParameterSpec) : ParamValue → Prop
  | int {n : Float} (type : spec.type = .int) (finite : n.isFinite = true)
      (whole : Number.isWhole n = true) (bounds : spec.checkBounds n = .ok ()) :
      Form spec (.number n)
  | float {n : Float} (type : spec.type = .float) (finite : n.isFinite = true)
      (bounds : spec.checkBounds n = .ok ()) : Form spec (.number n)
  | seconds {n : Float} (type : spec.type = .time) (finite : n.isFinite = true)
      (nonnegative : ¬n < 0) (bounds : spec.checkBounds n = .ok ()) : Form spec (.number n)
  | clock {s : String} {n : Float} (type : spec.type = .time) (trimmed : Text.trim s = s)
      (parsed : TimeText.parse Float s = some n) (bounds : spec.checkBounds n = .ok ()) :
      Form spec (.text s)
  | bool (type : spec.type = .bool) (b : Bool) : Form spec (.flag b)
  | string (type : spec.type = .string) (s : String) : Form spec (.text s)
  | color {s : String} (type : spec.type = .color) (trimmed : Text.trim s = s)
      (isColor : Color.isColor s = true) : Form spec (.text s)
  | enum {s : String} (type : spec.type = .enum) (mem : s ∈ spec.choices) : Form spec (.text s)
  | unset {m : Inherited} (type : spec.type = .inherited m) : Form spec .unset

theorem Form.isSet (h : spec.Form w) (hknown : spec.type.isKnown = true) : w.isSet = true := by
  cases h with
  | unset type =>
    rw [type] at hknown
    cases hknown
  | _ => rfl

theorem form_of_checkTime (htype : spec.type = .time) (h : spec.checkTime v = .ok w) :
    spec.Form w := by
  cases v with
  | number n =>
    rw [checkTime] at h
    split at h
    · cases h
    · next hseconds =>
      rw [Bool.or_eq_true, not_or, Bool.not_eq_true', Bool.not_eq_false,
        decide_eq_true_iff] at hseconds
      obtain ⟨⟨⟩, hbounds, rfl⟩ := map_eq_ok.mp h
      exact .seconds htype hseconds.1 hseconds.2 hbounds
  | string s =>
    rw [checkTime] at h
    split at h
    · cases h
    · next n hparse =>
      obtain ⟨⟨⟩, hbounds, rfl⟩ := map_eq_ok.mp h
      exact .clock htype (Text.trim_trim s) ((TimeText.parse_trim s).trans hparse) hbounds
  | _ => cases h

theorem form_of_fit (h : spec.fit v = .ok w) : spec.Form w := by
  -- One case for each branch of the check.
  cases htype : spec.type with
  | int =>
    simp only [fit, htype] at h
    split at h
    · cases h
    · next n hnumber =>
      split at h
      · next hwhole =>
        obtain ⟨⟨⟩, hbounds, rfl⟩ := map_eq_ok.mp h
        exact .int htype (isFinite_of_numberOf? hnumber) hwhole hbounds
      · cases h
  | float =>
    simp only [fit, htype] at h
    split at h
    · cases h
    · next n hnumber =>
      obtain ⟨⟨⟩, hbounds, rfl⟩ := map_eq_ok.mp h
      exact .float htype (isFinite_of_numberOf? hnumber) hbounds
  | time =>
    simp only [fit, htype] at h
    exact form_of_checkTime htype h
  | bool =>
    simp only [fit, htype] at h
    split at h
    · cases h
      exact .bool htype _
    · cases h
  | string =>
    simp only [fit, htype] at h
    split at h
    · cases h
      exact .string htype _
    · cases h
  | color =>
    simp only [fit, htype] at h
    split at h
    · split at h
      · next hcolor =>
        cases h
        exact .color htype (Text.trim_trim _) hcolor
      · cases h
    · cases h
  | enum =>
    simp only [fit, htype] at h
    split at h
    · obtain ⟨choice, hmem, rfl⟩ := checkChoice_eq_ok h
      exact .enum htype hmem
    · obtain ⟨choice, hmem, rfl⟩ := checkChoice_eq_ok h
      exact .enum htype hmem
    · cases h
  | inherited m =>
    simp only [fit, htype] at h
    cases h
    exact .unset htype

theorem fit_inherited (hknown : spec.type.isKnown = true) (m : Inherited) :
    spec.fit m.value ≠ .ok w := by
  have hswitch : switchOf? m.value = none := by
    cases m with
    | method name =>
      change switchOf? .absent = none
      decide +kernel
    | parent => decide +kernel
  intro h
  cases htype : spec.type with
  | inherited m =>
    rw [htype] at hknown
    cases hknown
  | bool => simp [fit, htype, hswitch] at h
  | _ =>
    cases m <;>
      simp [fit, htype, Inherited.value, numberOf?, checkTime, ParamValue.ofValue?] at h

theorem Form.fit_document (h : spec.Form w) : spec.fit w.document = .ok w := by
  cases h with
  | int type finite whole bounds =>
    simp [fit, type, ParamValue.document, numberOf?, finite, whole, bounds, Except.map]
  | float type finite bounds =>
    simp [fit, type, ParamValue.document, numberOf?, finite, bounds, Except.map]
  | seconds type finite nonnegative bounds =>
    simp [fit, type, ParamValue.document, checkTime, finite, nonnegative, bounds, Except.map]
  | clock type trimmed parsed bounds =>
    simp [fit, type, ParamValue.document, checkTime, parsed, trimmed, bounds, Except.map]
  | bool type b => simp [fit, type, ParamValue.document, switchOf?]
  | string type s => simp [fit, type, ParamValue.document, ParamValue.ofValue?, ParamValue.shown]
  | color type trimmed isColor => simp [fit, type, ParamValue.document, trimmed, isColor]
  | enum type mem =>
    simp only [fit, type, ParamValue.document]
    exact checkChoice_of_mem mem
  | unset type => simp [fit, type]

theorem fit_of_check {skill : String} {notices : List Notice}
    (h : spec.check skill v = .ok (w, notices)) : spec.fit v = .ok w := by
  rw [check] at h
  split at h
  · cases h
  · next hfit =>
    obtain ⟨rfl, -⟩ := Prod.mk.inj (Except.ok.inj h)
    exact hfit

theorem form_of_check {skill : String} {notices : List Notice}
    (h : spec.check skill v = .ok (w, notices)) : spec.Form w := form_of_fit (fit_of_check h)

/-- Checking a value again changes nothing, and there is nothing to say about it. -/
theorem Form.check_document (h : spec.Form w) (skill : String) :
    spec.check skill w.document = .ok (w, []) := by
  have hquiet : completion skill spec w.document.plainText w = [] := by
    cases w with
    | text s => simp [completion, ParamValue.document, Value.plainText]
    | number n => rfl
    | flag b => rfl
    | unset => rfl
  simp [check, h.fit_document, hquiet]

theorem fit_of_validate {skill : String} {notices : List Notice}
    (h : spec.validate skill v = .ok (w, notices)) : spec.fit v = .ok w := by
  rw [validate] at h
  split at h
  · cases h
  · split at h
    · cases h
    · next hcheck =>
      cases h
      exact fit_of_check hcheck

theorem Form.validate_document (h : spec.Form w) (hset : w.isSet = true) (skill : String) :
    spec.validate skill w.document = .ok (w, []) := by
  have hreadable : spec.isUnreadable w.document = false := by
    have htext : w.document.hasText = true := by
      cases w with
      | unset => cases hset
      | _ => rfl
    rw [isUnreadable, htext, Bool.not_true, Bool.and_false]
  rw [validate, hreadable, if_neg Bool.false_ne_true, h.check_document]

end ParameterSpec

end SkillPipeline
