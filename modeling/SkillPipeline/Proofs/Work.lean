import Mathlib.Data.List.Forall2
import SkillPipeline.Registry.Session

namespace SkillPipeline

/-- A fault for which the library itself is not to blame. -/
def Fault.Blameless (f : Fault) : Prop := ∃ kind, f.kind? = some kind ∧ kind ≠ .invariant

theorem Fault.not_blameless_invariant {cause : InvariantFault} :
    ¬(Fault.invariant cause).Blameless := by
  rintro ⟨kind, ⟨⟩, hkind⟩
  exact hkind rfl

theorem Fault.not_blameless_exception {e : Exception} : ¬(Fault.exception e).Blameless := by
  rintro ⟨kind, ⟨⟩, -⟩

namespace Work

variable {α β : Type} {I : Session → Prop} {E : Fault → Prop}

theorem run_bind_eq {w : StateM Session α} {k : α → StateM Session β} {s s' : Session} {a : α}
    (h : w.run s = (a, s')) : (w >>= k).run s = (k a).run s' := by
  rw [StateT.run_bind, h]
  rfl

/-- Steps that keep something and give answers which do not depend on the rest of the state. -/
theorem mapM_run {σ : Type} {J : σ → Prop} {f : α → StateM σ β} {g : α → β} {l : List α}
    (h : ∀ a ∈ l, ∀ s, J s → ((f a).run s).1 = g a ∧ J ((f a).run s).2) {s : σ} (hs : J s) :
    ((l.mapM f).run s).1 = l.map g ∧ J ((l.mapM f).run s).2 := by
  induction l generalizing s with
  | nil => exact ⟨rfl, hs⟩
  | cons a rest ih =>
    obtain ⟨ha, hrest⟩ := List.forall_mem_cons.mp h
    obtain ⟨hfirst, hkept⟩ := ha s hs
    obtain ⟨hothers, hlast⟩ := ih hrest hkept
    have hrun : ((a :: rest).mapM f).run s =
        (((f a).run s).1 :: ((rest.mapM f).run ((f a).run s).2).1,
          ((rest.mapM f).run ((f a).run s).2).2) := by
      rw [List.mapM_cons]
      rfl
    rw [hrun, List.map_cons, hfirst, hothers]
    exact ⟨rfl, hlast⟩

theorem run_map {ε σ : Type} (f : α → β) (w : ExceptT ε (StateM σ) α) (s : σ) :
    (f <$> w).run.run s = ((w.run.run s).1.map f, (w.run.run s).2) := by
  rw [ExceptT.run_map, StateT.run_map]
  rfl

theorem mapM_run_except {σ ε : Type} {J : σ → Prop} {f : α → ExceptT ε (StateM σ) β}
    {g : α → Except ε β} {l : List α}
    (h : ∀ a ∈ l, ∀ s, J s → ((f a).run.run s).1 = g a ∧ J ((f a).run.run s).2) {s : σ}
    (hs : J s) : ((l.mapM f).run.run s).1 = l.mapM g ∧ J ((l.mapM f).run.run s).2 := by
  induction l generalizing s with
  | nil => exact ⟨rfl, hs⟩
  | cons a rest ih =>
    obtain ⟨ha, hrest⟩ := List.forall_mem_cons.mp h
    obtain ⟨hfirst, hkept⟩ := ha s hs
    obtain ⟨hothers, hlast⟩ := ih hrest hkept
    rw [List.mapM_cons, List.mapM_cons, ExceptT.run_bind, StateT.run_bind]
    cases hr : (f a).run.run s with
    | mk result t =>
      rw [hr] at hfirst hkept hothers hlast
      rw [← hfirst]
      cases result with
      | error e => exact ⟨rfl, hkept⟩
      | ok b =>
        change ((List.cons b <$> rest.mapM f).run.run t).1 = List.cons b <$> rest.mapM g ∧
          J ((List.cons b <$> rest.mapM f).run.run t).2
        rw [run_map, hothers]
        exact ⟨rfl, hlast⟩

/-- The work leaves sessions of a kind in that kind. From such a session its answer has one property
if it succeeds, and its fault has another if it does not. -/
def Ensures (I : Session → Prop) (E : Fault → Prop) (w : Work α) (P : α → Prop) : Prop :=
  ∀ s, I s → I (w.run.run s).2 ∧
    match (w.run.run s).1 with
    | .ok a => P a
    | .error f => E f

theorem ensures_pure {P : α → Prop} {a : α} (h : P a) : Ensures I E (pure a) P :=
  fun _ hs => ⟨hs, h⟩

theorem ensures_throw {P : α → Prop} {f : Fault} (h : E f) : Ensures I E (throw f) P :=
  fun _ hs => ⟨hs, h⟩

theorem ensures_get : Ensures I E get I := fun _ hs => ⟨hs, hs⟩

theorem Ensures.of_ok {w : Work α} {P : α → Prop} (h : Ensures I E w P) {s : Session} (hs : I s)
    {a : α} (ha : (w.run.run s).1 = .ok a) : P a := by
  have hanswer := (h s hs).2
  rwa [ha] at hanswer

theorem Ensures.of_error {w : Work α} {P : α → Prop} (h : Ensures I E w P) {s : Session}
    (hs : I s) {f : Fault} (hf : (w.run.run s).1 = .error f) : E f := by
  have hfault := (h s hs).2
  rwa [hf] at hfault

theorem Ensures.bind {w : Work α} {k : α → Work β} {P : α → Prop} {Q : β → Prop}
    (hw : Ensures I E w P) (hk : ∀ a, P a → Ensures I E (k a) Q) : Ensures I E (w >>= k) Q := by
  intro s hs
  obtain ⟨hkept, hanswer⟩ := hw s hs
  rw [ExceptT.run_bind, StateT.run_bind]
  cases hr : w.run.run s with
  | mk result s' =>
    rw [hr] at hkept hanswer
    cases result with
    | error f => exact ⟨hkept, hanswer⟩
    | ok a => exact hk a hanswer s' hkept

theorem Ensures.map {w : Work α} {f : α → β} {P : α → Prop} {Q : β → Prop} (hw : Ensures I E w P)
    (h : ∀ a, P a → Q (f a)) : Ensures I E (f <$> w) Q := by
  rw [map_eq_pure_bind]
  exact hw.bind fun a ha => ensures_pure (h a ha)

/-- If each step ensures what belongs to its element, the list of answers belongs to the list. -/
theorem ensures_mapM {f : α → Work β} {R : α → β → Prop} {l : List α}
    (h : ∀ a ∈ l, Ensures I E (f a) (R a)) : Ensures I E (l.mapM f) (List.Forall₂ R l) := by
  induction l with
  | nil =>
    rw [List.mapM_nil]
    exact ensures_pure .nil
  | cons a rest ih =>
    rw [List.mapM_cons]
    refine (h a List.mem_cons_self).bind fun b hb => ?_
    refine (ih fun c hc => h c (List.mem_cons_of_mem a hc)).bind fun bs hbs => ?_
    exact ensures_pure (.cons hb hbs)

/-- The work has this outcome in whatever session. -/
def Settles (w : Work α) (x : Except Fault α) : Prop := ∀ s, (w.run.run s).1 = x

theorem settles_pure (a : α) : Settles (pure a) (.ok a) := fun _ => rfl

theorem settles_modify (f : Session → Session) : Settles (modify f) (.ok ⟨⟩) := fun _ => rfl

theorem settles_ofExcept (x : Except Fault α) : Settles (MonadExcept.ofExcept x) x := by
  intro s
  cases x <;> rfl

theorem Settles.bind {w : Work α} {k : α → Work β} {x : Except Fault α} {y : α → Except Fault β}
    (hw : Settles w x) (hk : ∀ a, Settles (k a) (y a)) : Settles (w >>= k) (x >>= y) := by
  intro s
  have hs := hw s
  rw [ExceptT.run_bind, StateT.run_bind]
  cases hr : w.run.run s with
  | mk result s' =>
    rw [hr] at hs
    subst hs
    cases result with
    | error f => rfl
    | ok a => exact hk a s'

/-- What work does to the session first has no bearing on such an outcome. -/
theorem Settles.after_modify {f : Session → Session} {w : Work α} {x : Except Fault α}
    (hw : Settles w x) : Settles (modify f >>= fun _ => w) x := (settles_modify f).bind fun _ => hw

end Work

end SkillPipeline
