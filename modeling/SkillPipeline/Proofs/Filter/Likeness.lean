import SkillPipeline.Filter.Piece
import SkillPipeline.Proofs.Outcome
import SkillPipeline.Proofs.Filter.Reading

namespace SkillPipeline.Filter

/-- From one place both texts bring the reader to another, past the same live characters. -/
structure ReadAlike (r : Reading) (s t : List Char) (r' : Reading) : Prop where
  left : r.after s = r'
  right : r.after t = r'
  live : r.live s = r.live t

section ReadAlike

variable {r r₁ r₂ : Reading} {s s' t t' : List Char}

theorem readAlike_refl (h : r.after s = r₁) : ReadAlike r s s r₁ := ⟨h, h, rfl⟩

theorem ReadAlike.append (h : ReadAlike r s t r₁) (h' : ReadAlike r₁ s' t' r₂) :
    ReadAlike r (s ++ s') (t ++ t') r₂ where
  left := by rw [Reading.after_append, h.left, h'.left]
  right := by rw [Reading.after_append, h.right, h'.right]
  live := by rw [Reading.live_append, Reading.live_append, h.live, h.left, h.right, h'.live]

theorem Neutral.readAlike (hs : Neutral s) (ht : Neutral t) : ReadAlike .outside s t .outside :=
  ⟨hs.after_eq, ht.after_eq, hs.live_eq.trans ht.live_eq.symm⟩

end ReadAlike

/-- A character that means nothing to a reader, unless it comes after a backslash. -/
def Inert (c : Char) : Prop := isStructural c = false ∧ c ≠ '\\'

instance (c : Char) : Decidable (Inert c) := inferInstanceAs (Decidable (_ ∧ _))

theorem Inert.next_eq {c : Char} (h : Inert c) {r : Reading} (hr : r ≠ .pending) :
    r.next c = r := by
  have hquote : c ≠ '\'' := by
    rintro rfl
    exact absurd h.1 (by decide)
  cases r with
  | outside => rw [Reading.next, if_neg h.2, if_neg hquote]
  | pending => exact absurd rfl hr
  | quoted => rw [Reading.next, if_neg hquote]

theorem after_of_inert {s : List Char} (h : ∀ c ∈ s, Inert c) {r : Reading} (hr : r ≠ .pending) :
    r.after s = r ∧ r.live s = [] := by
  induction s with
  | nil => exact ⟨rfl, rfl⟩
  | cons c s ih =>
    obtain ⟨hc, hrest⟩ := List.forall_mem_cons.mp h
    obtain ⟨hafter, hlive⟩ := ih hrest
    have hnext := hc.next_eq hr
    refine ⟨by rw [Reading.after_cons, hnext, hafter], ?_⟩
    rw [Reading.live, if_neg (by simp [hc.1]), hnext, hlive]

theorem neutral_of_inert {s : List Char} (h : ∀ c ∈ s, Inert c) : Neutral s := by
  obtain ⟨hafter, hlive⟩ := after_of_inert h (r := .outside) (by decide)
  exact ⟨hafter, hlive⟩

theorem readAlike_of_inert {s t : List Char} (hs : ∀ c ∈ s, Inert c) (ht : ∀ c ∈ t, Inert c)
    {r : Reading} (hr : r ≠ .pending) : ReadAlike r s t r := by
  obtain ⟨hleft, hlive⟩ := after_of_inert hs hr
  obtain ⟨hright, hlive'⟩ := after_of_inert ht hr
  exact ⟨hleft, hright, hlive.trans hlive'.symm⟩

def isPlain (c : Char) : Bool := !(escapeRules.map Prod.fst).contains c

theorem notMem_of_isPlain {c : Char} (h : isPlain c = true) : c ∉ escapeRules.map Prod.fst := by
  intro hc
  rw [isPlain, List.contains_iff_mem.mpr hc] at h
  cases h

theorem inert_of_isPlain {c : Char} (h : isPlain c = true) : Inert c := by
  have hrules := notMem_of_isPlain h
  simp only [escapeRules, List.map_cons, List.map_nil, List.mem_cons, List.not_mem_nil, or_false,
    not_or] at hrules
  exact ⟨by simp [isStructural, hrules], hrules.1⟩

theorem inert_of_plain {s : List Char} (h : s.all isPlain = true) : ∀ c ∈ s, Inert c :=
  fun c hc => inert_of_isPlain (List.all_eq_true.mp h c hc)

theorem escapeChars_of_plain {s : List Char} (h : s.all isPlain = true) : escapeChars s = s := by
  rw [escapeChars_eq_flatMap]
  induction s with
  | nil => rfl
  | cons c s ih =>
    rw [List.all_cons, Bool.and_eq_true] at h
    rw [List.flatMap_cons, ih h.2, escapeChars,
      foldl_replaceChar_of_notMem (notMem_of_isPlain h.1), List.singleton_append]

theorem inert_of_isDigit {c : Char} (h : c.isDigit = true) : Inert c := by
  have hne (d : Char) (hd : d.isDigit = false) : c ≠ d := by
    rintro rfl
    rw [hd] at h
    cases h
  refine ⟨?_, hne '\\' (by decide)⟩
  simp [isStructural, hne]

theorem inert_toDigits (n : Nat) : ∀ c ∈ Nat.toDigits 10 n, Inert c :=
  fun _ hc => inert_of_isDigit (Nat.isDigit_of_mem_toDigits (by decide) (by decide) hc)

end SkillPipeline.Filter

namespace SkillPipeline.Number

open SkillPipeline.Filter

theorem inert_zeros (n : Nat) : ∀ c ∈ List.replicate n '0', Inert c := by
  intro c hc
  rw [List.eq_of_mem_replicate hc]
  decide

theorem inert_point {s t : List Char} (hs : ∀ c ∈ s, Inert c) (ht : ∀ c ∈ t, Inert c) :
    ∀ c ∈ s ++ '.' :: t, Inert c :=
  List.forall_mem_append.mpr ⟨hs, List.forall_mem_cons.mpr ⟨by decide, ht⟩⟩

theorem inert_take {s : List Char} (h : ∀ c ∈ s, Inert c) (n : Nat) : ∀ c ∈ s.take n, Inert c :=
  fun c hc => h c (List.mem_of_mem_take hc)

theorem inert_drop {s : List Char} (h : ∀ c ∈ s, Inert c) (n : Nat) : ∀ c ∈ s.drop n, Inert c :=
  fun c hc => h c (List.mem_of_mem_drop hc)

theorem inert_placePoint {digits : List Char} (h : ∀ c ∈ digits, Inert c) (point : Int) :
    ∀ c ∈ placePoint digits point, Inert c := by
  rw [placePoint]
  split
  · have hstart : ∀ c ∈ '0' :: '.' :: List.replicate (-point).toNat '0', Inert c :=
      List.forall_mem_cons.mpr ⟨by decide, List.forall_mem_cons.mpr ⟨by decide, inert_zeros _⟩⟩
    exact List.forall_mem_append.mpr ⟨hstart, h⟩
  · split
    · exact List.forall_mem_append.mpr ⟨h, inert_zeros _⟩
    · exact inert_point (inert_take h _) (inert_drop h _)

theorem inert_placeExponent {digits : List Char} (h : ∀ c ∈ digits, Inert c) (point : Int) :
    ∀ c ∈ placeExponent digits point, Inert c := by
  have hsign : Inert (if point - 1 < 0 then '-' else '+') := by split <;> decide
  have hexponent : ∀ c ∈ 'e' :: (if point - 1 < 0 then '-' else '+') ::
      digitChars (point - 1).natAbs, Inert c :=
    List.forall_mem_cons.mpr ⟨by decide, List.forall_mem_cons.mpr ⟨hsign, inert_toDigits _⟩⟩
  rw [placeExponent]
  refine List.forall_mem_append.mpr ⟨List.forall_mem_append.mpr ⟨inert_take h 1, ?_⟩, hexponent⟩
  split
  · exact List.forall_mem_nil _
  · exact List.forall_mem_cons.mpr ⟨by decide, inert_drop h 1⟩

theorem inert_sign (negative : Bool) : ∀ c ∈ if negative then ['-'] else [], Inert c := by
  cases negative with
  | true => exact inert_of_plain (by decide)
  | false => exact List.forall_mem_nil _

theorem inert_text (x : Float) : ∀ c ∈ (text x).toList, Inert c := by
  rw [text]
  split
  · exact inert_of_plain (by decide)
  · split <;> exact inert_of_plain (by decide)
  · next b _ =>
    split
    · exact inert_of_plain (by decide)
    · rw [String.toList_ofList, Decimal.chars]
      refine List.forall_mem_append.mpr ⟨inert_sign _, ?_⟩
      split
      · exact inert_placePoint (inert_toDigits _) _
      · exact inert_placeExponent (inert_toDigits _) _

theorem inert_placesChars (places count : Nat) : ∀ c ∈ placesChars places count, Inert c := by
  have hpadded : ∀ c ∈ List.replicate (places + 1 - (digitChars count).length) '0' ++
      digitChars count, Inert c :=
    List.forall_mem_append.mpr ⟨inert_zeros _, inert_toDigits count⟩
  rw [placesChars]
  split
  · exact hpadded
  · exact inert_point (inert_take hpadded _) (inert_drop hpadded _)

theorem inert_fixedText (x : Float) (places : Nat) :
    ∀ c ∈ (fixedText x places).toList, Inert c := by
  rw [fixedText]
  split
  · split
    · rw [String.toList_ofList, Binary.fixedChars]
      exact List.forall_mem_append.mpr ⟨inert_sign _, inert_placesChars _ _⟩
    · exact inert_text x
  · exact inert_text x

end SkillPipeline.Number

namespace SkillPipeline

open SkillPipeline.Filter

theorem Filter.inert_number (n : Float) (form : NumberForm) :
    ∀ c ∈ (Piece.number n form).chars, Inert c := by
  cases form with
  | shortest => exact Number.inert_text n
  | decimal =>
    rw [Piece.chars, NumberForm.text, decimalText]
    split
    · exact Number.inert_fixedText n 1
    · exact Number.inert_text n
  | places count => exact Number.inert_fixedText n count

namespace FilterText

variable {r r' r₁ r₂ : Reading} {t u t' u' : FilterText}

@[simp] theorem chars_append (t u : FilterText) : (t ++ u).chars = t.chars ++ u.chars :=
  List.flatMap_append

@[simp] theorem chars_empty : FilterText.empty.chars = [] := rfl

@[simp] theorem chars_wording (s : String) : (wording s).chars = s.toList := by
  rw [chars, wording, List.flatMap_singleton, Piece.chars]

@[simp] theorem chars_escaped (raw : String) : (escaped raw).chars = escapeChars raw.toList := by
  rw [chars, escaped, List.flatMap_singleton, Piece.chars]

/-- A text of characters that mean nothing to a reader. -/
def Inert (t : FilterText) : Prop := ∀ c ∈ t.chars, Filter.Inert c

theorem inert_number {n : Float} {form : NumberForm} (h : number n form = .ok t) : t.Inert := by
  rw [number] at h
  split at h
  · cases h
    rw [Inert, chars, List.flatMap_singleton]
    exact Filter.inert_number n form
  · cases h

/-- Escaped values are read alike outside quotes. -/
theorem readAlike_escaped (raw raw' : String) :
    ReadAlike .outside (escaped raw).chars (escaped raw').chars .outside := by
  rw [chars_escaped, chars_escaped]
  exact (neutral_escapeChars _).readAlike (neutral_escapeChars _)

/-- A value in which there is nothing to escape may stand in a section as well. -/
theorem inert_escaped {raw : String} (h : raw.toList.all isPlain = true) :
    (escaped raw).Inert := by
  rw [Inert, chars_escaped, escapeChars_of_plain h]
  exact inert_of_plain h

/-- A text that leaves a reader outside quotes, if it starts there. -/
def Closed (t : FilterText) : Prop := Reading.outside.after t.chars = .outside

theorem Closed.append (ht : t.Closed) (hu : u.Closed) : (t ++ u).Closed := by
  rw [Closed, chars_append, Reading.after_append, ht]
  exact hu

theorem closed_escaped (raw : String) : (escaped raw).Closed := (readAlike_escaped raw raw).left

theorem closed_wording_append {s s' : String} (h : (wording s).Closed) (h' : (wording s').Closed) :
    (wording (s ++ s')).Closed := by
  rw [Closed, chars_wording] at *
  rw [String.toList_append, Reading.after_append, h, h']

theorem closed_wording {s : String} {l : List Char} (hs : s = String.ofList l)
    (h : Reading.outside.after l = .outside) : (wording s).Closed := by
  rw [Closed, chars_wording, hs, String.toList_ofList]
  exact h

theorem ofParts_cons_eq_ok {part : Part} {rest : List Part} :
    ofParts (part :: rest) = .ok t ↔
      ∃ first, ofPart part = .ok first ∧ ∃ tail, ofParts rest = .ok tail ∧ t = first ++ tail := by
  rw [ofParts]
  split
  · next f hf => simp [hf]
  · next first hfirst =>
    split
    · next f hf => simp [hf]
    · next tail htail => simp [hfirst, htail, eq_comm]

instance : Fact (Reading.outside ≠ .pending) := ⟨by decide⟩

instance : Fact (Reading.quoted ≠ .pending) := ⟨by decide⟩

/-- Parts of two filters, side by side: the wording is the same, and values are read alike where
they stand. -/
inductive Parallel : Reading → List Part → List Part → Reading → Prop
  | nil (r : Reading) : Parallel r [] [] r
  | word {r r₁ r' : Reading} {s : String} {l : List Char} {ps us : List Part}
      (hs : s = String.ofList l) (h : r.after l = r₁) (rest : Parallel r₁ ps us r') :
      Parallel r (.lit s :: ps) (.lit s :: us) r'
  | num {r r' : Reading} [hr : Fact (r ≠ .pending)] {m n : Float} {ps us : List Part}
      (rest : Parallel r ps us r') : Parallel r (.num m :: ps) (.num n :: us) r'
  | sub {r r' : Reading} {t u : FilterText} {ps us : List Part}
      (h : ReadAlike r t.chars u.chars r) (rest : Parallel r ps us r') :
      Parallel r (.sub t :: ps) (.sub u :: us) r'

namespace Parallel

variable {s : String} {l : List Char} {ps us : List Part}

theorem lit (hs : s = String.ofList l) (h : Reading.outside.after l = .outside)
    (rest : Parallel .outside ps us r') : Parallel .outside (.lit s :: ps) (.lit s :: us) r' :=
  .word hs h rest

theorem opens (hs : s = String.ofList l) (h : Reading.outside.after l = .quoted)
    (rest : Parallel .quoted ps us r') : Parallel .outside (.lit s :: ps) (.lit s :: us) r' :=
  .word hs h rest

theorem within (hs : s = String.ofList l) (h : Reading.quoted.after l = .quoted)
    (rest : Parallel .quoted ps us r') : Parallel .quoted (.lit s :: ps) (.lit s :: us) r' :=
  .word hs h rest

theorem closes (hs : s = String.ofList l) (h : Reading.quoted.after l = .outside)
    (rest : Parallel .outside ps us r') : Parallel .quoted (.lit s :: ps) (.lit s :: us) r' :=
  .word hs h rest

theorem wording (h : (FilterText.wording s).Closed) (rest : Parallel .outside ps us r') :
    Parallel .outside (.lit s :: ps) (.lit s :: us) r' := by
  rw [Closed, chars_wording] at h
  exact .word String.ofList_toList.symm h rest

theorem inert [hr : Fact (r ≠ .pending)] (ht : t.Inert) (hu : u.Inert)
    (rest : Parallel r ps us r') : Parallel r (.sub t :: ps) (.sub u :: us) r' :=
  .sub (readAlike_of_inert ht hu hr.out) rest

theorem readAlike (h : Parallel r ps us r') (ht : ofParts ps = .ok t) (hu : ofParts us = .ok u) :
    ReadAlike r t.chars u.chars r' := by
  -- On the parts: each is read alike by itself and leaves the reader where the next one starts.
  induction h generalizing t u with
  | nil r =>
    cases ht
    cases hu
    exact readAlike_refl rfl
  | word hs h rest ih =>
    obtain ⟨first, hfirst, tail, htail, rfl⟩ := ofParts_cons_eq_ok.mp ht
    obtain ⟨first', hfirst', tail', htail', rfl⟩ := ofParts_cons_eq_ok.mp hu
    cases hfirst
    cases hfirst'
    rw [chars_append, chars_append, chars_wording, hs, String.toList_ofList]
    exact (readAlike_refl h).append (ih htail htail')
  | @num _ _ hr _ _ _ _ rest ih =>
    obtain ⟨first, hfirst, tail, htail, rfl⟩ := ofParts_cons_eq_ok.mp ht
    obtain ⟨first', hfirst', tail', htail', rfl⟩ := ofParts_cons_eq_ok.mp hu
    rw [chars_append, chars_append]
    exact (readAlike_of_inert (inert_number hfirst) (inert_number hfirst') hr.out).append
      (ih htail htail')
  | sub h rest ih =>
    obtain ⟨first, hfirst, tail, htail, rfl⟩ := ofParts_cons_eq_ok.mp ht
    obtain ⟨first', hfirst', tail', htail', rfl⟩ := ofParts_cons_eq_ok.mp hu
    cases hfirst
    cases hfirst'
    rw [chars_append, chars_append]
    exact h.append (ih htail htail')

end Parallel

/-- Two texts that a reader takes alike from outside quotes to outside quotes; both are empty or
neither is. -/
structure Alike (t u : FilterText) : Prop where
  read : ReadAlike .outside t.chars u.chars .outside
  isEmpty : t.isEmpty = u.isEmpty

theorem Closed.alike (h : t.Closed) : t.Alike t := ⟨readAlike_refl h, rfl⟩

theorem Parallel.alike {s : String} {ps us : List Part}
    (h : Parallel .outside (.lit s :: ps) (.lit s :: us) .outside) (hs : s ≠ "")
    (ht : ofParts (.lit s :: ps) = .ok t) (hu : ofParts (.lit s :: us) = .ok u) : t.Alike u := by
  have hs : s.toList ≠ [] := mt String.toList_eq_nil_iff.mp hs
  have hnonempty {ps : List Part} {t : FilterText} (ht : ofParts (.lit s :: ps) = .ok t) :
      t.isEmpty = false := by
    obtain ⟨first, hfirst, tail, htail, rfl⟩ := ofParts_cons_eq_ok.mp ht
    cases hfirst
    rw [isEmpty, chars_append, chars_wording, List.isEmpty_eq_false_iff]
    exact List.append_ne_nil_of_left_ne_nil hs _
  exact ⟨h.readAlike ht hu, (hnonempty ht).trans (hnonempty hu).symm⟩

theorem join_cons_cons (separator : String) (t u : FilterText) (rest : List FilterText) :
    join separator (t :: u :: rest) = t ++ wording separator ++ join separator (u :: rest) := rfl

theorem text_append (t u : FilterText) : (t ++ u).text = t.text ++ u.text := by
  change String.ofList ((t.pieces ++ u.pieces).flatMap Filter.Piece.chars) = _
  rw [List.flatMap_append, String.ofList_append]
  rfl

theorem text_wording (s : String) : (wording s).text = s := by
  simp [text, chars, wording, Filter.Piece.chars]

theorem text_join (separator : String) (filters : List FilterText) :
    (join separator filters).text = Text.join separator (filters.map (·.text)) := by
  induction filters with
  | nil => rfl
  | cons t rest ih =>
    cases rest with
    | nil => exact String.intercalate_singleton.symm
    | cons next rest =>
      rw [join, text_append, text_append, ih, text_wording]
      · exact String.intercalate_cons_cons.symm
      · exact List.cons_ne_nil next rest

theorem alike_option {s : String} (h : (wording s).Closed) (hs : s ≠ "")
    (htu : ReadAlike .outside t.chars u.chars .outside) :
    (wording s ++ t).Alike (wording s ++ u) := by
  have hs : s.toList ≠ [] := mt String.toList_eq_nil_iff.mp hs
  have hnonempty (t : FilterText) : (wording s ++ t).isEmpty = false := by
    rw [isEmpty, chars_append, chars_wording, List.isEmpty_eq_false_iff]
    exact List.append_ne_nil_of_left_ne_nil hs _
  refine ⟨?_, (hnonempty t).trans (hnonempty u).symm⟩
  rw [chars_append, chars_append]
  exact (readAlike_refl h).append htu

theorem readAlike_join {s : String} (hs : Reading.outside.after s.toList = .outside)
    {ts us : List FilterText} (h : List.Forall₂ Alike ts us) :
    ReadAlike .outside (join s ts).chars (join s us).chars .outside := by
  induction h with
  | nil => exact readAlike_refl rfl
  | @cons t u ts us hfirst hrest ih =>
    cases hrest with
    | nil => exact hfirst.read
    | cons hnext hrest =>
      rw [join_cons_cons, join_cons_cons, chars_append, chars_append, chars_append, chars_append,
        chars_wording]
      exact (hfirst.read.append (readAlike_refl hs)).append ih

end FilterText

end SkillPipeline
