import SkillPipeline.Proofs.Outcome
import SkillPipeline.Skill.Params
import SkillPipeline.Text.Basic

namespace SkillPipeline

open Outcome

/-- How freely a text may change: either as long as it does not become empty or stop being so, or
with as many characters, or with as many words. -/
inductive Freedom where
  | any
  | length
  | words
  deriving DecidableEq, Repr

def Freedom.Allows (free : Freedom) (s t : String) : Prop :=
  (s = "" ↔ t = "") ∧ match free with
    | .any => True
    | .length => s.length = t.length
    | .words => (Text.words s.toList).length = (Text.words t.toList).length

namespace Params

/-- Values of a parameter: the same, or texts that are free. -/
inductive Varied (free : List (String × Freedom)) : String × ParamValue → String × ParamValue → Prop
  | same (entry : String × ParamValue) : Varied free entry entry
  | text {name s t : String} {freedom : Freedom} (hname : (name, freedom) ∈ free)
      (h : freedom.Allows s t) : Varied free (name, .text s) (name, .text t)

/-- Parameters of one skill that are the same but for free texts. -/
structure Vary (free : List (String × Freedom)) (p q : Params) : Prop where
  skill : p.skill = q.skill
  values : List.Forall₂ (Varied free) p.values q.values

namespace Vary

variable {free : List (String × Freedom)} {p q : Params} {name : String}

theorem refl (p : Params) : Vary free p p :=
  ⟨rfl, List.forall₂_same.mpr fun entry _ => .same entry⟩

theorem mono {free' : List (String × Freedom)} (h : Vary free p q) (hfree : free ⊆ free') :
    Vary free' p q := by
  refine ⟨h.skill, h.values.imp fun entry entry' hentry => ?_⟩
  cases hentry with
  | same => exact .same entry
  | text hname hallows => exact .text (hfree hname) hallows

theorem eq_of_nil (h : Vary [] p q) : p = q := by
  obtain ⟨skill, values⟩ := p
  obtain ⟨skill', values'⟩ := q
  obtain ⟨hskill, hvalues⟩ := h
  have heq : List.Forall₂ Eq values values' := hvalues.imp fun entry entry' hentry => by
    cases hentry with
    | same => rfl
    | text hname => cases hname
  rw [List.forall₂_eq_eq_eq] at heq
  obtain rfl : skill = skill' := hskill
  rw [heq]

theorem lookup_cases (h : Vary free p q) (name : String) :
    p.values.lookup name = q.values.lookup name ∨
      ∃ freedom s t, (name, freedom) ∈ free ∧ freedom.Allows s t ∧
        p.values.lookup name = some (.text s) ∧ q.values.lookup name = some (.text t) := by
  obtain ⟨-, hvalues⟩ := h
  generalize p.values = values, q.values = values' at hvalues
  induction hvalues with
  | nil => exact .inl rfl
  | @cons entry entry' values values' hfirst hrest ih =>
    obtain ⟨other, v⟩ := entry
    cases hfirst with
    | same =>
      rw [List.lookup_cons, List.lookup_cons]
      split
      · exact .inl rfl
      · exact ih
    | @text _ s t freedom hname hallows =>
      rw [List.lookup_cons, List.lookup_cons]
      split
      · next heq =>
        obtain rfl : name = other := beq_iff_eq.mp heq
        exact .inr ⟨freedom, s, t, hname, hallows, rfl, rfl⟩
      · exact ih

theorem raw?_cases (h : Vary free p q) (name : String) :
    p.raw? name = q.raw? name ∨ ∃ freedom s t, (name, freedom) ∈ free ∧ freedom.Allows s t ∧
      p.raw? name = some (.text s) ∧ q.raw? name = some (.text t) := by
  rw [raw?, raw?]
  obtain heq | ⟨freedom, s, t, hfree, hallows, hs, ht⟩ := h.lookup_cases name
  · exact .inl (congrArg _ heq)
  · rw [hs, ht]
    exact .inr ⟨freedom, s, t, hfree, hallows, rfl, rfl⟩

theorem has_eq (h : Vary free p q) (name : String) : p.has name = q.has name := by
  obtain heq | ⟨freedom, s, t, -, -, hs, ht⟩ := h.lookup_cases name
  · rw [has, has, heq]
  · rw [has, has, hs, ht]
    rfl

def Named (free : List (String × Freedom)) (name : String) : Prop :=
  name ∈ free.map Prod.fst

instance : Decidable (Named free name) := inferInstanceAs (Decidable (_ ∈ _))

theorem raw?_eq (h : Vary free p q) (hname : ¬Named free name) : p.raw? name = q.raw? name := by
  obtain heq | ⟨freedom, s, t, hmem, -⟩ := h.raw?_cases name
  · exact heq
  · exact absurd (List.mem_map_of_mem hmem) hname

section Reads

variable (h : Vary free p q) (hname : ¬Named free name)

include h hname

theorem read_eq (fallback : Option ParamValue) : p.read name fallback = q.read name fallback := by
  rw [read, read, h.raw?_eq hname, h.skill]

theorem float_eq (fallback : Option Float) : p.float name fallback = q.float name fallback := by
  rw [float, float, h.read_eq hname, h.skill]

theorem int_eq (fallback : Option Float) : p.int name fallback = q.int name fallback := by
  rw [int, int, h.float_eq hname]

theorem bool_eq (fallback : Option Bool) : p.bool name fallback = q.bool name fallback := by
  rw [bool, bool, h.read_eq hname, h.skill]

theorem string_eq (fallback : Option String) : p.string name fallback = q.string name fallback := by
  rw [string, string, h.read_eq hname]

theorem text_eq (fallback : Option String) : p.text name fallback = q.text name fallback := by
  rw [text, text, h.string_eq hname]

end Reads

theorem linked_string (h : Vary free p q) (name : String) :
    Linked (fun s t => s = t ∨ ∃ freedom, (name, freedom) ∈ free ∧ freedom.Allows s t)
      (p.string name) (q.string name) := by
  intro a b ha hb
  rw [string, map_eq_ok] at ha hb
  obtain ⟨v, hv, rfl⟩ := ha
  obtain ⟨w, hw, rfl⟩ := hb
  rw [read] at hv hw
  obtain heq | ⟨freedom, s, t, hmem, hallows, hs, ht⟩ := h.raw?_cases name
  · rw [heq, h.skill] at hv
    obtain rfl : v = w := Except.ok.inj (hv.symm.trans hw)
    exact .inl rfl
  · rw [hs] at hv
    rw [ht] at hw
    cases hv
    cases hw
    exact .inr ⟨freedom, hmem, hallows⟩

theorem linked_isEmpty (h : Vary free p q) (name : String) :
    Linked (fun s t => s = "" ↔ t = "") (p.string name) (q.string name) := by
  intro s t hs ht
  obtain rfl | ⟨freedom, -, hallows⟩ := h.linked_string name s t hs ht
  · exact Iff.rfl
  · exact hallows.1

end Vary

end Params

end SkillPipeline
