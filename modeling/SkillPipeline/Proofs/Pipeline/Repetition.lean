import SkillPipeline.Proofs.Pipeline.Unfolding
import SkillPipeline.Proofs.Registry.Search

namespace SkillPipeline

namespace Outcome

variable {ε α β : Type} {P : α → β → Prop} {x : Except ε α} {y : Except ε β}

/-- Both succeed, with related answers, or both fail with the same fault. -/
def Concur (P : α → β → Prop) : Except ε α → Except ε β → Prop
  | .ok a, .ok b => P a b
  | .error e, .error f => e = f
  | _, _ => False

theorem Concur.error_iff (h : Concur P x y) {e : ε} : x = .error e ↔ y = .error e := by
  cases x <;> cases y
  · rw [Except.error.injEq, Except.error.injEq, show _ = _ from h]
  · exact h.elim
  · exact h.elim
  · simp

theorem Concur.mono {Q : α → β → Prop} (h : Concur P x y) (hPQ : ∀ a b, P a b → Q a b) :
    Concur Q x y := by
  cases x <;> cases y
  · exact h
  · exact h
  · exact h
  · exact hPQ _ _ h

theorem Concur.and {Q : α → Prop} (h : Concur P x y) (hx : ∀ a, x = .ok a → Q a) :
    Concur (fun a b => P a b ∧ Q a) x y := by
  cases x <;> cases y
  · exact h
  · exact h
  · exact h
  · exact ⟨h, hx _ rfl⟩

theorem Concur.eq_map {f : α → β} (h : Concur P x y) (hP : ∀ a b, P a b → b = f a) :
    y = x.map f := by
  cases x <;> cases y
  · exact congrArg Except.error (Eq.symm h)
  · exact h.elim
  · exact h.elim
  · exact congrArg Except.ok (hP _ _ h)

theorem Concur.eq {x y : Except ε α} (h : Concur (· = ·) x y) : x = y := by
  cases x <;> cases y
  · exact congrArg Except.error h
  · exact h.elim
  · exact h.elim
  · exact congrArg Except.ok h

end Outcome

open Outcome

namespace Work

variable {α β α' β' σ : Type} {x : Index} {R : α → β → Prop} {Q : α' → β' → Prop}

/-- From sessions over the skills, whatever else these hold, both pieces of work come to related
answers or fail with the same fault, and leave sessions over the skills. -/
def Concurs (x : Index) (R : α → β → Prop) (w : Work α) (w' : Work β) : Prop :=
  ∀ s s', s.Over x → s'.Over x → (w.run.run s).2.Over x ∧ (w'.run.run s').2.Over x ∧
    Concur R (w.run.run s).1 (w'.run.run s').1

theorem concurs_pure {a : α} {b : β} (h : R a b) : Concurs x R (pure a) (pure b) :=
  fun _ _ hs hs' => ⟨hs, hs', h⟩

theorem concurs_throw (f : Fault) : Concurs x R (throw f) (throw f) :=
  fun _ _ hs hs' => ⟨hs, hs', Eq.refl f⟩

theorem Concurs.mono {Q : α → β → Prop} {w : Work α} {w' : Work β} (h : Concurs x R w w')
    (hRQ : ∀ a b, R a b → Q a b) : Concurs x Q w w' := by
  intro s s' hs hs'
  obtain ⟨hkept, hkept', hanswer⟩ := h s s' hs hs'
  exact ⟨hkept, hkept', hanswer.mono hRQ⟩

theorem Concurs.bind {w : Work α} {w' : Work β} {k : α → Work α'} {k' : β → Work β'}
    (hw : Concurs x R w w') (hk : ∀ a b, R a b → Concurs x Q (k a) (k' b)) :
    Concurs x Q (w >>= k) (w' >>= k') := by
  intro s s' hs hs'
  obtain ⟨hkept, hkept', hanswer⟩ := hw s s' hs hs'
  rw [ExceptT.run_bind, StateT.run_bind, ExceptT.run_bind, StateT.run_bind]
  cases hr : w.run.run s with
  | mk result t =>
    cases hr' : w'.run.run s' with
    | mk result' t' =>
      rw [hr] at hkept hanswer
      rw [hr'] at hkept' hanswer
      cases result <;> cases result'
      · exact ⟨hkept, hkept', hanswer⟩
      · exact hanswer.elim
      · exact hanswer.elim
      · exact hk _ _ hanswer t t' hkept hkept'

theorem Concurs.map {w : Work α} {w' : Work β} {f : α → α'} {g : β → β'} (hw : Concurs x R w w')
    (h : ∀ a b, R a b → Q (f a) (g b)) : Concurs x Q (f <$> w) (g <$> w') := by
  rw [map_eq_pure_bind, map_eq_pure_bind]
  exact hw.bind fun a b hab => concurs_pure (h a b hab)

/-- Work that depends on how many skills there are is the same in any session over the skills. -/
theorem concurs_size (w : Nat → Work α) (w' : Nat → Work β)
    (h : Concurs x R (w x.skills.length) (w' x.skills.length)) :
    Concurs x R (do w (← get).registry.size) (do w' (← get).registry.size) := by
  intro s s' hs hs'
  have hsize (t : Session) (ht : t.Over x) : t.registry.size = x.skills.length := by
    rw [Registry.size, ht.1]
  have hrun : (do w (← get).registry.size : Work α).run.run s =
      (w s.registry.size).run.run s := rfl
  have hrun' : (do w' (← get).registry.size : Work β).run.run s' =
      (w' s'.registry.size).run.run s' := rfl
  rw [hrun, hrun', hsize s hs, hsize s' hs']
  exact h s s' hs hs'

theorem concurs_mapM {f : σ → Work α} {g : σ → Work β} {l : List σ}
    (h : ∀ a ∈ l, Concurs x R (f a) (g a)) :
    Concurs x (List.Forall₂ R) (l.mapM f) (l.mapM g) := by
  induction l with
  | nil =>
    rw [List.mapM_nil, List.mapM_nil]
    exact concurs_pure .nil
  | cons a rest ih =>
    obtain ⟨ha, hrest⟩ := List.forall_mem_cons.mp h
    rw [List.mapM_cons, List.mapM_cons]
    refine ha.bind fun b c hbc => (ih hrest).bind fun bs cs hbcs => ?_
    exact concurs_pure (.cons hbc hbcs)

end Work

namespace Expansion

open Work

variable {x : Index} {keep keep' : Bool} {place place' : Place} {params : Params} {depth : Nat}
  {s s' : Session}

theorem soundSkill_congr (hs : s.Over x) (hs' : s'.Over x) (name : String) :
    ((soundSkill name).run s).1 = ((soundSkill name).run s').1 := by
  obtain ⟨rfl, hsound⟩ := hs
  obtain ⟨hindex, hsound'⟩ := hs'
  have hrequire : s.registry.require name = s'.registry.require name := by
    simp only [Registry.require, Registry.get?, Registry.suggestions, Registry.search, hindex]
  rw [soundSkill, StateT.run_bind, StateT.run_bind, StateT.run_get, StateT.run_get, pure_bind,
    pure_bind]
  dsimp only
  rw [← hrequire]
  cases s.registry.require name with
  | error f => rfl
  | ok skill =>
    have hsearch := Registry.searchFrom_congr hsound hsound' hindex.symm skill.name
    have hrun (t : Session) : (Session.reading (Registry.assertAcyclic skill.name).run).run t =
        ((t.registry.searchFrom skill.name).1,
          { t with registry := (t.registry.searchFrom skill.name).2 }) := rfl
    rw [StateT.run_bind, StateT.run_bind, hrun, hrun, ← hsearch]
    cases (s.registry.searchFrom skill.name).1 <;> rfl

theorem prepared_concurs (step : Step) :
    Concurs x (· = ·) (prepared place step) (prepared place' step) := by
  intro s s' hs hs'
  have hskill := soundSkill_congr hs hs' step.skill
  obtain ⟨hkept, -⟩ := soundSkill_run step.skill hs
  obtain ⟨hkept', -⟩ := soundSkill_run step.skill hs'
  cases hr : (soundSkill step.skill).run s with
  | mk outcome t =>
    cases hr' : (soundSkill step.skill).run s' with
    | mk outcome' t' =>
      rw [hr, hr'] at hskill
      rw [hr] at hkept
      rw [hr'] at hkept'
      subst hskill
      cases outcome with
      | error f =>
        rw [prepared_run (prepare_of_error hr), prepared_run (prepare_of_error hr')]
        exact ⟨hkept, hkept', rfl⟩
      | ok skill =>
        obtain ⟨done, hregistry, hrun⟩ := prepare_of_ok hr
        obtain ⟨done', hregistry', hrun'⟩ := prepare_of_ok hr'
        rw [prepared_run hrun, prepared_run hrun']
        refine ⟨⟨hregistry ▸ hkept.1, hregistry ▸ hkept.2⟩,
          ⟨hregistry' ▸ hkept'.1, hregistry' ▸ hkept'.2⟩, ?_⟩
        cases (Params.normalize skill step.params).result <;> rfl

/-- Two lists of stages that are the same if sub-pipelines are retained alike and they come from the
same place. -/
def Placed (keep keep' : Bool) (place place' : Place) (a b : List Stage) : Prop :=
  keep = keep' → place = place' → a = b

theorem placed_flatten {parts parts' : List (List Stage)}
    (h : List.Forall₂ (Placed keep keep' place place') parts parts') :
    Placed keep keep' place place' (retained keep place params ++ parts.flatten)
      (retained keep' place' params ++ parts'.flatten) := by
  intro hkeep hplace
  have heq : List.Forall₂ (· = ·) parts parts' := h.imp fun _ _ hpart => hpart hkeep hplace
  rw [List.forall₂_eq_eq_eq] at heq
  rw [heq, hkeep, hplace]

/-- The stages of a step are the same anywhere below the same sub-pipelines, but for their
identifiers. Whether sub-pipelines are retained has no bearing on whether there is a fault. -/
theorem stages_concurs (htrail : place.trail = place'.trail) :
    Concurs x (Placed keep keep' place place') (stages keep depth place params)
      (stages keep' depth place' params) := by
  -- On the depth that is left, which a leaf does not need and a call uses up by one.
  induction depth generalizing place place' params with
  | zero =>
    cases hp : params.skill.isPipeline with
    | false =>
      rw [stages_leaf hp, stages_leaf hp]
      exact concurs_pure fun _ hplace => by rw [hplace]
    | true =>
      obtain ⟨calls, hs⟩ := exists_calls hp
      rw [stages_cyclic hs, stages_cyclic hs, htrail]
      exact concurs_throw _
  | succ depth ih =>
    cases hp : params.skill.isPipeline with
    | false =>
      rw [stages_leaf hp, stages_leaf hp]
      exact concurs_pure fun _ hplace => by rw [hplace]
    | true =>
      rw [stages_of_calls hp, stages_of_calls hp]
      have hcall (p : Call × Nat) : Concurs x (Placed keep keep' place place')
          (callStages keep depth place params p) (callStages keep' depth place' params p) := by
        have hbelow : (place.call params.skill.name p.2).trail =
            (place'.call params.skill.name p.2).trail := by
          rw [Place.call, Place.call, htrail]
        refine (prepared_concurs _).bind fun inner inner' hinner => ?_
        subst hinner
        exact (ih hbelow).mono fun a b hab hkeep hplace => hab hkeep (by rw [hplace])
      exact (concurs_mapM fun p _ => hcall p).map fun _ _ => placed_flatten

/-- A step fails alike wherever it stands, and where it stands in the same place it comes to the
same stages. -/
theorem stepStages_concurs (step : Step) (i j : Nat) :
    Concurs x (fun a b => i = j → a = b) (stepStages (step, i)) (stepStages (step, j)) := by
  refine (prepared_concurs step).bind fun params params' hparams => ?_
  subst hparams
  have hplaces : Concurs x (Placed false false (.ofStep i) (.ofStep j))
      (stages false (x.skills.length + 1) (.ofStep i) params)
      (stages false (x.skills.length + 1) (.ofStep j) params) := stages_concurs rfl
  refine (concurs_size (fun n => stages false (n + 1) (.ofStep i) params)
    (fun n => stages false (n + 1) (.ofStep j) params) hplaces).mono fun a b hab hij => ?_
  exact hab rfl (by rw [hij])

/-- What a step comes to when it is expanded alone, over some skills. -/
def alone (x : Index) (step : Step) : Except Fault (List Stage) :=
  ((Expansion.step false 0 step).run { registry := { index := x } }).1.2

theorem over_fresh : Session.Over x { registry := { index := x } } := by
  refine ⟨rfl, fun name hname => ?_⟩
  cases hname

/-- Wherever a step stands and whatever has been done before, it fails as it does alone. -/
theorem step_over (hs : s.Over x) (p : Step × Nat) :
    ((step false p.2 p.1).run s).2.Over x ∧
      ∀ f, ((step false p.2 p.1).run s).1.2 = .error f ↔ alone x p.1 = .error f := by
  have hrun := step_run p s
  have halone := step_run (p.1, 0) { registry := { index := x } }
  obtain ⟨hkept, -, hanswer⟩ := stepStages_concurs p.1 p.2 0 s _ hs over_fresh
  rw [← hrun] at hkept hanswer
  rw [← halone] at hanswer
  exact ⟨hkept, fun f => hanswer.error_iff⟩

/-- The stages of all steps depend on the skills alone. -/
theorem steps_congr (hs : s.Over x) (hs' : s'.Over x) (ss : List Step) :
    ((steps false 0 ss).run s).2.Over x ∧
      ((steps false 0 ss).run s).1.2 = ((steps false 0 ss).run s').1.2 := by
  have hrun := steps_run 0 ss s
  have hrun' := steps_run 0 ss s'
  have hsteps : Concurs x (· = ·) (List.flatten <$> ss.zipIdx.mapM stepStages)
      (List.flatten <$> ss.zipIdx.mapM stepStages) := by
    have hstep (p : Step × Nat) : Concurs x (· = ·) (stepStages p) (stepStages p) :=
      (stepStages_concurs p.1 p.2 p.2).mono fun a b hab => hab rfl
    refine (concurs_mapM fun p _ => hstep p).map fun parts parts' hparts => ?_
    rw [List.forall₂_eq_eq_eq] at hparts
    rw [hparts]
  obtain ⟨hkept, -, hanswer⟩ := hsteps s s' hs hs'
  rw [← hrun] at hkept hanswer
  rw [← hrun'] at hanswer
  exact ⟨hkept, hanswer.eq⟩

end Expansion

end SkillPipeline
