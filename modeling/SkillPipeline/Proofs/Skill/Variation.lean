import SkillPipeline.Proofs.Document.Members
import SkillPipeline.Proofs.Legibility.Freedom
import SkillPipeline.Proofs.Skill.Normalization

namespace SkillPipeline

open Outcome

section Keyed

variable {α : Type} {R : String × α → String × α → Prop} {l r : List (String × α)} {key : String}
  {v w : α}

theorem any_key_eq (hR : ∀ a b, R a b → a.1 = b.1) (h : List.Forall₂ R l r) :
    l.any (·.1 == key) = r.any (·.1 == key) := by
  induction h with
  | nil => rfl
  | cons hfirst hrest ih => rw [List.any_cons, List.any_cons, hR _ _ hfirst, ih]

theorem forall₂_replace (hR : ∀ a b, R a b → a.1 = b.1) (h : List.Forall₂ R l r)
    (hnew : R (key, v) (key, w)) :
    List.Forall₂ R (l.map fun p => if p.1 == key then (key, v) else p)
      (r.map fun p => if p.1 == key then (key, w) else p) := by
  rw [List.forall₂_map_left_iff, List.forall₂_map_right_iff]
  refine h.imp fun a b hab => ?_
  rw [hR a b hab]
  split
  · exact hnew
  · exact hab

theorem forall₂_takeWhile {p : String → Bool} (hR : ∀ a b, R a b → a.1 = b.1)
    (h : List.Forall₂ R l r) :
    List.Forall₂ R (l.takeWhile (p ·.1)) (r.takeWhile (p ·.1)) ∧
      List.Forall₂ R (l.dropWhile (p ·.1)) (r.dropWhile (p ·.1)) := by
  induction h with
  | nil => exact ⟨.nil, .nil⟩
  | @cons a b l r hfirst hrest ih =>
    rw [List.takeWhile_cons, List.takeWhile_cons, List.dropWhile_cons, List.dropWhile_cons,
      hR a b hfirst]
    split
    · exact ⟨.cons hfirst ih.1, ih.2⟩
    · exact ⟨.nil, .cons hfirst hrest⟩

theorem Members.forall₂_set (hR : ∀ a b, R a b → a.1 = b.1) (h : List.Forall₂ R l r)
    (hnew : R (key, v) (key, w)) : List.Forall₂ R (Members.set l key v) (Members.set r key w) := by
  rw [set, set, has, has, any_key_eq hR h]
  split
  · exact forall₂_replace hR h hnew
  · rw [insertNew, insertNew]
    split
    · exact List.rel_append h (.cons hnew .nil)
    · next i _ =>
      obtain ⟨htake, hdrop⟩ := forall₂_takeWhile (p := isBelow i) hR h
      exact List.rel_append htake (.cons hnew hdrop)

theorem Params.forall₂_put {l r : List (String × ParamValue)} {v w : ParamValue}
    {R : String × ParamValue → String × ParamValue → Prop} (hR : ∀ a b, R a b → a.1 = b.1)
    (h : List.Forall₂ R l r) (hnew : R (key, v) (key, w)) :
    List.Forall₂ R (put l key v) (put r key w) := by
  rw [put, put, any_key_eq hR h]
  split
  · exact forall₂_replace hR h hnew
  · exact List.rel_append h (.cons hnew .nil)

end Keyed

namespace Params

variable {skill : Skill} {free : List (String × Freedom)} {raw raw' : Members Value}
  {r r' : Record}

/-- Two values that stand for texts, of which either may be given for the parameter. -/
def Retold (free : List (String × Freedom)) (name : String) (v w : Value) : Prop :=
  ∃ freedom a b, (name, freedom) ∈ free ∧ ParamValue.ofValue? v = some a ∧
    ParamValue.ofValue? w = some b ∧ freedom.Allows a.shown b.shown

/-- Members of one key that are the same but for a free text. -/
def Given (skill : Skill) (free : List (String × Freedom)) (entry entry' : String × Value) : Prop :=
  entry.1 = entry'.1 ∧ (entry.2 = entry'.2 ∨
    ∃ name, meant? skill entry.1 = some name ∧ Retold free name entry.2 entry'.2)

theorem Given.key_eq (entry entry' : String × Value) (h : Given skill free entry entry') :
    entry.1 = entry'.1 := h.1

theorem given_get? (h : List.Forall₂ (Given skill free) raw raw') (key : String) :
    (raw.get? key = none ∧ raw'.get? key = none) ∨
      ∃ v w, raw.get? key = some v ∧ raw'.get? key = some w ∧
        Given skill free (key, v) (key, w) := by
  rw [Members.get?, Members.get?]
  induction h with
  | nil => exact .inl ⟨rfl, rfl⟩
  | @cons entry entry' raw raw' hfirst hrest ih =>
    obtain ⟨other, v⟩ := entry
    obtain ⟨other', w⟩ := entry'
    obtain ⟨rfl, hvalues⟩ : other = other' ∧ _ := hfirst
    rw [List.lookup_cons, List.lookup_cons]
    split
    · next heq =>
      obtain rfl : key = other := beq_iff_eq.mp heq
      exact .inr ⟨v, w, rfl, rfl, rfl, hvalues⟩
    · exact ih

structure GivenRecord (skill : Skill) (free : List (String × Freedom)) (r r' : Record) : Prop where
  own : List.Forall₂ (Given skill free) r.own r'.own
  parent : r'.parent = r.parent

namespace GivenRecord

theorem assign (h : GivenRecord skill free r r') {key : String} {v w : Value}
    (hnew : Given skill free (key, v) (key, w)) :
    GivenRecord skill free (r.assign key v) (r'.assign key w) := by
  have hredirects : r'.redirects key = r.redirects key := by
    have hhas : r'.own.has key = r.own.has key := (any_key_eq Given.key_eq h.own).symm
    rw [Record.redirects, Record.redirects, hhas, h.parent]
  -- A text is never inherited from, so texts that differ leave the same parent.
  have hreplaced : r.parent.replacedBy w = r.parent.replacedBy v := by
    obtain ⟨-, heq | ⟨name, -, freedom, a, b, -, ha, hb, -⟩⟩ := hnew
    · exact congrArg _ heq.symm
    · cases v <;> cases ha <;> cases w <;> cases hb <;> rfl
  unfold Record.assign
  rw [hredirects]
  split
  · exact ⟨h.own, by rw [h.parent]; exact hreplaced⟩
  · exact ⟨Members.forall₂_set Given.key_eq h.own hnew, h.parent⟩

theorem erase (h : GivenRecord skill free r r') (key : String) :
    GivenRecord skill free (r.erase key) (r'.erase key) :=
  ⟨forall₂_filter h.own fun a b hab => by rw [hab.1], h.parent⟩

theorem read (h : GivenRecord skill free r r') (key : String) :
    r.read key = r'.read key ∨ ∃ v w name, r.read key = some v ∧ r'.read key = some w ∧
      meant? skill key = some name ∧ Retold free name v w := by
  rw [Record.read, Record.read, h.parent]
  obtain ⟨hnone, hnone'⟩ | ⟨v, w, hv, hw, -, heq | ⟨name, hmeant, hretold⟩⟩ := given_get? h.own key
  · rw [hnone, hnone']
    exact .inl rfl
  · obtain rfl : v = w := heq
    rw [hv, hw]
    exact .inl rfl
  · have hpresent {u : Value} {c : ParamValue} (hu : ParamValue.ofValue? u = some c) :
        u.present? = some u := by
      cases u <;> first | rfl | cases hu
    obtain ⟨freedom, a, b, hfree, ha, hb, hallows⟩ := hretold
    rw [hv, hw]
    exact .inr ⟨v, w, name, hpresent ha, hpresent hb, hmeant, freedom, a, b, hfree, ha, hb, hallows⟩

end GivenRecord

theorem agree_renameKey (h : GivenRecord skill free r r') (key : String) :
    Agree (GivenRecord skill free) (renameKey skill r key) (renameKey skill r' key) := by
  have hhas (name : String) : r.own.has name = r'.own.has name := any_key_eq Given.key_eq h.own
  rw [renameKey, renameKey]
  split
  · exact .ok h
  · next hparameter =>
    split
    · exact .error
    · next spec hspec =>
      rw [hhas]
      split
      · exact .error
      · have hmem := mem_of_aliased? hspec
        have hmeant : meant? skill key = some spec.name := by
          rw [meant?, if_neg hparameter, hspec, Option.map_some]
        have hmember : Given skill free (spec.name, (r.own.get? key).getD .absent)
            (spec.name, (r'.own.get? key).getD .absent) := by
          obtain ⟨hnone, hnone'⟩ | ⟨v, w, hv, hw, -, hgiven⟩ := given_get? h.own key
          · rw [hnone, hnone']
            exact ⟨rfl, .inl rfl⟩
          · rw [hmeant, ← meant?_name hmem] at hgiven
            rw [hv, hw]
            exact ⟨rfl, hgiven⟩
        exact .ok ((h.assign hmember).erase key)

theorem renameKeys_given (h : GivenRecord skill free r r') (keys : List String) :
    GivenRecord skill free (renameKeys skill r keys).1 (renameKeys skill r' keys).1 ∧
      (renameKeys skill r keys).2.isSome = (renameKeys skill r' keys).2.isSome := by
  induction keys generalizing r r' with
  | nil => exact ⟨h, rfl⟩
  | cons key rest ih =>
    have hkey := agree_renameKey h key
    rw [renameKeys, renameKeys]
    generalize renameKey skill r key = x, renameKey skill r' key = y at hkey
    cases x with
    | error f =>
      cases y with
      | error f' => exact ⟨h, rfl⟩
      | ok renamed' => exact hkey.elim
    | ok renamed =>
      cases y with
      | error f' => exact hkey.elim
      | ok renamed' => exact ih hkey

structure Progress.Abreast (skill : Skill) (free : List (String × Freedom))
    (p p' : Progress) : Prop where
  raw : GivenRecord skill free p.raw p'.raw
  values : List.Forall₂ (Varied free) p.values p'.values
  fault : p.fault?.isSome = p'.fault?.isSome

theorem Varied.key_eq (entry entry' : String × ParamValue) (h : Varied free entry entry') :
    entry.1 = entry'.1 := by
  cases h <;> rfl

namespace Progress.Abreast

variable {p p' : Progress} {spec : ParameterSpec}

theorem set (h : p.Abreast skill free p') {name : String} {v w : ParamValue}
    (hraw : Given skill free (name, v.document) (name, w.document))
    (hvalues : Varied free (name, v) (name, w)) :
    (p.set name v).Abreast skill free (p'.set name w) where
  raw := h.raw.assign hraw
  values := forall₂_put Varied.key_eq h.values hvalues
  fault := h.fault

theorem set_same (h : p.Abreast skill free p') (name : String) (v : ParamValue) :
    (p.set name v).Abreast skill free (p'.set name v) := h.set ⟨rfl, .inl rfl⟩ (.same _)

theorem step (h : p.Abreast skill free p') (hspec : spec ∈ skill.parameters)
    (htype : ∀ freedom, (spec.name, freedom) ∈ free → spec.type = .string) :
    (p.step skill spec).Abreast skill free (p'.step skill spec) := by
  rw [Progress.step, Progress.step]
  -- Either both read the same, or two texts of which either may be given.
  obtain heq | ⟨v, w, name, hv, hw, hmeant, freedom, a, b, hfree, ha, hb, hallows⟩ :=
    h.raw.read spec.name
  · rw [heq]
    split
    · split
      · exact h.set_same _ _
      · split
        · exact { h with fault := rfl }
        · exact { h with raw := h.raw.erase spec.name }
    · next v _ =>
      cases spec.validate skill.name v with
      | error f => exact { h with fault := rfl }
      | ok answer => exact { h.set_same spec.name answer.1 with }
  · obtain rfl : spec.name = name := Option.some.inj ((meant?_name hspec).symm.trans hmeant)
    have hvalid {u : Value} {c : ParamValue} (hu : ParamValue.ofValue? u = some c) :
        spec.validate skill.name u = .ok (.text c.shown, []) := by
      simp [ParameterSpec.validate, ParameterSpec.isUnreadable, ParameterSpec.check,
        ParameterSpec.fit, htype freedom hfree, hu]
    rw [hv, hw]
    dsimp only
    rw [hvalid ha, hvalid hb]
    have hset : (p.set spec.name (.text a.shown)).Abreast skill free
        (p'.set spec.name (.text b.shown)) :=
      h.set ⟨rfl, .inr ⟨spec.name, hmeant, freedom, _, _, hfree, rfl, rfl, hallows⟩⟩
        (.text hfree hallows)
    exact { hset with }

theorem steps (h : p.Abreast skill free p') {specs : List ParameterSpec}
    (hspecs : ∀ spec ∈ specs, spec ∈ skill.parameters)
    (htype : ∀ spec ∈ skill.parameters, ∀ freedom, (spec.name, freedom) ∈ free →
      spec.type = .string) :
    (p.steps skill specs).Abreast skill free (p'.steps skill specs) := by
  induction specs generalizing p p' with
  | nil => exact h
  | cons spec rest ih =>
    obtain ⟨hspec, hrest⟩ := List.forall_mem_cons.mp hspecs
    have hfault := h.fault
    rw [Progress.steps, Progress.steps]
    cases hp : p.fault? with
    | none =>
      rw [hp, Option.isSome_none, eq_comm, Option.isSome_eq_false_iff,
        Option.isNone_iff_eq_none] at hfault
      rw [hfault]
      exact ih (h.step hspec (htype spec hspec)) hrest
    | some f =>
      rw [hp, Option.isSome_some, eq_comm] at hfault
      obtain ⟨f', hf'⟩ := Option.isSome_iff_exists.mp hfault
      rw [hf']
      exact h

end Progress.Abreast

theorem keys_eq (h : List.Forall₂ (Given skill free) raw raw') : raw.keys = raw'.keys := by
  rw [Members.keys, Members.keys, ← List.forall₂_eq_eq_eq, List.forall₂_map_left_iff,
    List.forall₂_map_right_iff]
  exact h.imp Given.key_eq

theorem progress_given (h : List.Forall₂ (Given skill free) raw raw')
    (htype : ∀ spec ∈ skill.parameters, ∀ freedom, (spec.name, freedom) ∈ free →
      spec.type = .string) :
    (progress skill raw).Abreast skill free (progress skill raw') := by
  have hrecord : GivenRecord skill free { own := raw } { own := raw' } := ⟨h, rfl⟩
  obtain ⟨hmembers, hfault⟩ := renameKeys_given hrecord raw.keys
  rw [progress, progress, ← keys_eq h]
  generalize renameKeys skill { own := raw } raw.keys = x,
    renameKeys skill { own := raw' } raw.keys = y at hmembers hfault
  obtain ⟨renamed, f?⟩ := x
  obtain ⟨renamed', f'?⟩ := y
  cases f? with
  | none =>
    cases f'? with
    | none =>
      have hstart : Progress.Abreast skill free { raw := renamed } { raw := renamed' } :=
        ⟨hmembers, .nil, rfl⟩
      exact hstart.steps (fun _ hspec => hspec) htype
    | some f' => cases hfault
  | some f =>
    cases f'? with
    | none => cases hfault
    | some f' => exact ⟨hmembers, .nil, rfl⟩

/-- Members that are the same but for free texts are in order together, and come to parameters that
are the same but for these texts. -/
theorem agree_normalize (h : List.Forall₂ (Given skill free) raw raw')
    (htype : ∀ spec ∈ skill.parameters, ∀ freedom, (spec.name, freedom) ∈ free →
      spec.type = .string) :
    Agree (Vary free) (normalize skill raw).result (normalize skill raw').result := by
  obtain ⟨-, hvalues, hfault⟩ := progress_given h htype
  rw [normalize, normalize]
  dsimp only
  generalize progress skill raw = p, progress skill raw' = p' at hvalues hfault
  cases hp : p.fault? with
  | none =>
    cases hp' : p'.fault? with
    | none => exact .ok ⟨rfl, hvalues⟩
    | some f' =>
      rw [hp, hp'] at hfault
      cases hfault
  | some f =>
    cases hp' : p'.fault? with
    | none =>
      rw [hp, hp'] at hfault
      cases hfault
    | some f' => exact .error

end Params

end SkillPipeline
