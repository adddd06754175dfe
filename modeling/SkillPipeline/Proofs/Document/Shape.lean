import Mathlib.Data.List.Forall2
import SkillPipeline.Document.Shape

namespace SkillPipeline

variable {α β : Type}

namespace Verdict

theorem toExcept_eq_ok {v : Verdict α} {a : α} : v.toExcept = .ok a ↔ v = .accepted a := by
  cases v <;> simp [toExcept]

/-- If the document is accepted, what it gives has the property. -/
def Gives (P : α → Prop) (v : Verdict α) : Prop := ∀ a, v = .accepted a → P a

theorem gives_map {P : β → Prop} {f : α → β} {v : Verdict α} (h : v.Gives fun a => P (f a)) :
    Gives P (f <$> v) := by
  intro b hb
  cases v <;> simp_all [Gives, Functor.map, combine, map]

theorem gives_seq {P : β → Prop} {f : Verdict (α → β)} {v : Verdict α}
    (h : f.Gives fun g => v.Gives fun a => P (g a)) : Gives P (f <*> v) := by
  intro b hb
  cases f <;> cases v <;> simp_all [Gives, Seq.seq, combine, map]

theorem combine_map_eq_accepted {γ : Type} {f : α → β → γ} {v : Verdict α} {w : Verdict β} {c : γ} :
    (v.map f).combine w = .accepted c ↔ ∃ a b, v = .accepted a ∧ w = .accepted b ∧ f a b = c := by
  cases v <;> cases w <;> simp [combine, map]

theorem under_eq_accepted {key : String} {v : Verdict α} {a : α} :
    v.under key = .accepted a ↔ v = .accepted a := by
  cases v <;> simp [under]

end Verdict

namespace Shape

variable {s : Shape α} {v : Value} {P : α → Prop}

theorem gives_strict {known : List String} (h : (s v).Gives P) : (strict known s v).Gives P := by
  intro a ha
  cases v with
  | object members =>
    simp only [strict] at ha
    split at ha
    · exact h a ha
    · cases hs : s (.object members) <;> simp [hs, Verdict.flagged] at ha
  | _ => exact h a ha

theorem gives_refine {test : α → Bool} {message : String} {path : List String}
    (h : (s v).Gives P) : (refine test message path s v).Gives P := by
  intro a ha
  rw [refine] at ha
  split at ha
  · next b hs =>
    split at ha
    · exact h a (hs.trans ha)
    · cases ha
  · split at ha
    · cases ha
    · cases ha
  · cases ha

theorem gives_object {fields : Value → Verdict α} (h : (fields v).Gives P) :
    (object fields v).Gives P := by
  intro a ha
  cases v with
  | object members => exact h a ha
  | _ => cases ha

theorem gives_convert {Q : β → Prop} {f : α → β} (h : (s v).Gives fun a => Q (f a)) :
    (convert f s v).Gives Q := by
  intro b hb
  rw [convert] at hb
  split at hb
  · next a hs =>
    cases hb
    exact h a hs
  · cases hb
  · cases hb

theorem gives_union {shapes : List (Shape α)} (h : ∀ s ∈ shapes, (s v).Gives P) :
    (union shapes v).Gives P := by
  intro a ha
  have hsome (test : Verdict α → Bool) (verdict : Verdict α)
      (hverdict : (shapes.map fun s => s v).find? test = some verdict)
      (haccepted : verdict = .accepted a) : P a := by
    obtain ⟨s, hs, hv⟩ := List.mem_map.mp (List.mem_of_find?_eq_some hverdict)
    exact h s hs a (hv.trans haccepted)
  rw [union] at ha
  split at ha
  · next verdict hverdict => exact hsome _ verdict hverdict ha
  · split at ha
    · next verdict hverdict => exact hsome _ verdict hverdict ha
    · cases ha

theorem gives_itemsFrom {items : List Value} {index : Nat} (h : ∀ v, (s v).Gives P) :
    (itemsFrom s index items).Gives fun l => ∀ a ∈ l, P a := by
  induction items generalizing index with
  | nil =>
    intro l hl
    obtain rfl : [] = l := Verdict.accepted.inj hl
    exact List.forall_mem_nil _
  | cons v rest ih =>
    intro l hl
    obtain ⟨a, others, ha, hothers, rfl⟩ := Verdict.combine_map_eq_accepted.mp hl
    exact List.forall_mem_cons.mpr ⟨h v a (Verdict.under_eq_accepted.mp ha), ih others hothers⟩

theorem gives_nonEmptyList (h : ∀ v, (s v).Gives P) :
    (nonEmptyList s v).Gives fun l => ∀ a ∈ l, P a := by
  intro l hl
  cases v with
  | list items =>
    cases items with
    | nil => cases hl
    | cons first rest => exact gives_itemsFrom h l hl
  | _ => cases hl

theorem notNaN_of_number {n : Float} (h : number v = .accepted n) : n.isNaN = false := by
  cases v with
  | number m =>
    rw [number] at h
    split at h
    · cases h
    · next hnan =>
      obtain rfl : m = n := Verdict.accepted.inj h
      exact Bool.eq_false_iff.mpr hnan
  | _ => cases h

theorem of_also {test : α → Bool} {message : String} {a : α}
    (h : also test message s v = .accepted a) : test a = true := by
  rw [also] at h
  split at h
  · next b hs =>
    split at h
    · next htest => exact Verdict.accepted.inj h ▸ htest
    · cases h
  · split at h <;> cases h
  · cases h

theorem of_optional {b : α} (h : optional s v = .accepted (some b)) : s v = .accepted b := by
  have hmap (w : Value) (hw : (s w).map some = .accepted (some b)) : s w = .accepted b := by
    cases hs : s w <;> simp_all [Verdict.map]
  cases v with
  | absent => cases h
  | _ => exact hmap _ h

theorem forall₂_of_membersFrom {members : Members Value} {accepted : Members α}
    (h : membersFrom s members = .accepted accepted) :
    List.Forall₂ (fun given entry => entry.1 = given.1 ∧ s given.2 = .accepted entry.2)
      members accepted := by
  induction members generalizing accepted with
  | nil =>
    obtain rfl : [] = accepted := Verdict.accepted.inj h
    exact .nil
  | cons given rest ih =>
    obtain ⟨a, others, ha, hothers, rfl⟩ := Verdict.combine_map_eq_accepted.mp h
    exact .cons ⟨rfl, Verdict.under_eq_accepted.mp ha⟩ (ih hothers)

/-- The members of a record are accepted one by one, and those that become members are kept. -/
theorem of_record {accepted : Members α} (h : record s v = .accepted accepted) :
    ∃ members all, v = .object members ∧
      List.Forall₂ (fun given entry => entry.1 = given.1 ∧ s given.2 = .accepted entry.2)
        members all ∧
      accepted = all.filter (Members.isAssignable ·.1) := by
  cases v with
  | object members =>
    rw [record] at h
    cases hall : membersFrom s members with
    | accepted all =>
      rw [hall] at h
      exact ⟨members, all, rfl, forall₂_of_membersFrom hall, (Verdict.accepted.inj h).symm⟩
    | flawed all issues =>
      rw [hall] at h
      cases h
    | rejected issues =>
      rw [hall] at h
      cases h
  | _ => cases h

end Shape

end SkillPipeline
