import SkillPipeline.Pipeline.Expansion
import SkillPipeline.Proofs.Outcome
import SkillPipeline.Proofs.Skill.Normalization
import SkillPipeline.Proofs.Work

namespace SkillPipeline

open Work

theorem Index.mem_of_get? {x : Index} {name : String} {skill : Skill}
    (h : x.get? name = some skill) : skill ∈ x.skills := by
  obtain h | ⟨-, h⟩ := Option.or_eq_some_iff.mp h
  · exact List.mem_of_find?_eq_some h
  · obtain ⟨other, -, h⟩ := Option.bind_eq_some_iff.mp h
    exact List.mem_of_find?_eq_some h

theorem Registry.mem_of_require {r : Registry} {name : String} {skill : Skill}
    (h : r.require name = .ok skill) : skill ∈ r.list := by
  rw [require] at h
  cases hget : r.get? name with
  | none => simp [hget] at h
  | some found =>
    rw [hget] at h
    exact Except.ok.inj h ▸ Index.mem_of_get? hget

/-- All skills of the session are of a kind. -/
def Session.Knows (K : Skill → Prop) (s : Session) : Prop := ∀ skill ∈ s.registry.list, K skill

theorem Index.mem_add {x : Index} {s skill : Skill} (h : skill ∈ (x.add s).skills) :
    skill = s ∨ skill ∈ x.skills := by
  have hinsert (y : Index) (hy : skill ∈ (y.insert s).skills) : skill = s ∨ skill ∈ y.skills := by
    obtain hold | hnew := List.mem_append.mp hy
    · exact .inr hold
    · exact .inl (List.mem_singleton.mp hnew)
  rw [add] at h
  split at h
  · exact (hinsert _ h).imp_right fun hkept => (List.mem_filter.mp hkept).1
  · exact hinsert x h

/-- An index has no skills but those that were there and those that were added. -/
theorem Index.mem_of_mem_foldl_add {skills : List Skill} {x : Index} {skill : Skill}
    (h : skill ∈ (skills.foldl add x).skills) : skill ∈ x.skills ∨ skill ∈ skills := by
  induction skills generalizing x with
  | nil => exact .inl h
  | cons first rest ih =>
    obtain hadded | hrest := ih h
    · obtain rfl | hold := Index.mem_add hadded
      · exact .inr List.mem_cons_self
      · exact .inl hold
    · exact .inr (List.mem_cons_of_mem first hrest)

theorem Registry.index_foldl_register (skills : List Skill) (r : Registry) :
    (skills.foldl register r).index = skills.foldl Index.add r.index := by
  induction skills generalizing r with
  | nil => rfl
  | cons first rest ih => exact ih (r.register first)

theorem Session.knows_ofSkills {K : Skill → Prop} {skills : List Skill}
    (h : ∀ skill ∈ skills, K skill) : Session.Knows K { registry := .ofSkills skills } := by
  intro skill hskill
  rw [Registry.list, Registry.ofSkills, Registry.index_foldl_register] at hskill
  obtain hnone | hmem := Index.mem_of_mem_foldl_add hskill
  · cases hnone
  · exact h skill hmem

def Params.Ready (K : Skill → Prop) (p : Params) : Prop := p.Settled ∧ K p.skill

namespace Expansion

variable {K : Skill → Prop} {place : Place} {params : Params} {depth : Nat}

/-- Looking for cycles adds to what the registry remembers, and nothing to its skills. -/
theorem soundSkill_keeps (name : String) {s : Session} (hs : s.Knows K) :
    ((soundSkill name).run s).2.Knows K ∧
      ∀ skill, ((soundSkill name).run s).1 = .ok skill → K skill := by
  rw [soundSkill, StateT.run_bind, StateT.run_get, pure_bind]
  dsimp only
  cases hrequire : s.registry.require name with
  | error f => exact ⟨hs, fun _ h => nomatch h⟩
  | ok skill =>
    rw [StateT.run_bind]
    have hkept : ((Session.reading (Registry.assertAcyclic skill.name).run).run s).2.Knows K := hs
    cases hsearch : (Session.reading (Registry.assertAcyclic skill.name).run).run s with
    | mk outcome s' =>
      rw [hsearch] at hkept
      cases outcome with
      | error f => exact ⟨hkept, fun _ h => nomatch h⟩
      | ok found =>
        refine ⟨hkept, fun _ h => ?_⟩
        cases h
        exact hs skill (Registry.mem_of_require hrequire)

theorem prepare_of_error {step : Step} {s s' : Session} {f : ConfigurationFault}
    (h : (soundSkill step.skill).run s = (.error f, s')) :
    (prepare place step).run s = ((step.params, .error (.configuration f)), s') := by
  rw [prepare, run_bind_eq h]
  rfl

theorem prepare_of_ok {step : Step} {s s' : Session} {skill : Skill}
    (h : (soundSkill step.skill).run s = (.ok skill, s')) :
    ∃ done, done.registry = s'.registry ∧ (prepare place step).run s =
      (((Params.normalize skill step.params).raw, (Params.normalize skill step.params).result),
        done) := by
  let noted := s'.note (Params.normalize skill step.params).notices
  rw [prepare, run_bind_eq h]
  cases hok : (Params.normalize skill step.params).result.isOk with
  | false => exact ⟨noted, rfl, by simp [hok]; rfl⟩
  | true => exact ⟨noted.note [expanded place skill.name], rfl, by simp [hok]; rfl⟩

theorem prepared_run {step : Step} {s s' : Session} {raw : Members Value}
    {result : Except Fault Params} (h : (prepare place step).run s = ((raw, result), s')) :
    (prepared place step).run.run s = (result, s') := by
  have hlift : (liftM (prepare place step) : Work (Members Value × Except Fault Params)).run.run s =
      (.ok (raw, result), s') := by
    change ((prepare place step >>= fun a => pure (Except.ok a)).run s) = _
    rw [run_bind_eq h]
    rfl
  rw [prepared, ExceptT.run_bind, run_bind_eq hlift]
  cases result <;> rfl

/-- What expansion stops at: a fault of the skills or of the request, or a value without a plain
text, for which there is a reason then. -/
inductive Halts (why : Prop) : Fault → Prop
  | configuration (cause : ConfigurationFault) : Halts why (.configuration cause)
  | request (cause : ValidationFault) : Halts why (.validation cause)
  | noText (h : why) : Halts why (.exception .noText)

variable {why : Prop}

theorem prepared_ensures (step : Step)
    (hwhy : ∀ skill, K skill →
      (Params.normalize skill step.params).result = .error (.exception .noText) → why) :
    Ensures (Session.Knows K) (Halts why) (prepared place step) (Params.Ready K) := by
  intro s hs
  obtain ⟨hkept, hskill⟩ := soundSkill_keeps step.skill hs
  cases hr : (soundSkill step.skill).run s with
  | mk outcome s' =>
    rw [hr] at hkept hskill
    cases outcome with
    | error f =>
      rw [prepared_run (prepare_of_error hr)]
      exact ⟨hkept, .configuration f⟩
    | ok skill =>
      obtain ⟨done, hregistry, hrun⟩ := prepare_of_ok hr
      rw [prepared_run hrun]
      refine ⟨fun other hother => hkept other (hregistry ▸ hother), ?_⟩
      cases hresult : (Params.normalize skill step.params).result with
      | error f =>
        cases Params.normalize_fault hresult with
        | request cause => exact .request cause
        | noText => exact .noText (hwhy skill (hskill skill rfl) hresult)
      | ok params =>
        obtain ⟨rfl, hsettled⟩ := Params.normalize_settled hresult
        exact ⟨hsettled, hskill _ rfl⟩

theorem stages_leaf {keep : Bool} (h : params.skill.isPipeline = false) :
    stages keep depth place params = pure [⟨place.id, params, place.depth⟩] := by
  cases hs : params.skill.strategy with
  | pipeline calls => simp [Skill.isPipeline, hs] at h
  | template text target => cases depth <;> simp [stages, hs]
  | handler name => cases depth <;> simp [stages, hs]

theorem exists_calls {skill : Skill} (h : skill.isPipeline = true) :
    ∃ calls, skill.strategy = .pipeline calls := by
  cases hs : skill.strategy with
  | pipeline calls => exact ⟨calls, rfl⟩
  | template text target => simp [Skill.isPipeline, hs] at h
  | handler name => simp [Skill.isPipeline, hs] at h

theorem stages_cyclic {keep : Bool} {calls : List Call}
    (h : params.skill.strategy = .pipeline calls) :
    stages keep 0 place params =
      throw (.configuration (.cyclic place.trail params.skill.name)) := by
  simp [stages, h]

def callStages (keep : Bool) (depth : Nat) (place : Place) (outer : Params) (p : Call × Nat) :
    Work (List Stage) := do
  let inner ← prepared (place.call outer.skill.name p.2)
    ⟨p.1.skill, Call.resolve p.1.params outer⟩
  stages keep depth (place.call outer.skill.name p.2) inner

/-- What a sub-pipeline in front of its calls adds to the stages. -/
def retained (keep : Bool) (place : Place) (params : Params) : List Stage :=
  if keep then [⟨place.id, params, place.depth⟩] else []

theorem stages_of_calls {keep : Bool} (h : params.skill.isPipeline = true) :
    stages keep (depth + 1) place params =
      (fun inner => retained keep place params ++ inner.flatten) <$>
        params.skill.calls.zipIdx.mapM (callStages keep depth place params) := by
  obtain ⟨calls, hs⟩ := exists_calls h
  have hcalls : params.skill.calls = calls := by rw [Skill.calls, hs]
  rw [hcalls]
  simp [stages, hs]
  rfl

theorem stages_pipeline {calls : List Call} (h : params.skill.strategy = .pipeline calls) :
    stages false (depth + 1) place params =
      List.flatten <$> calls.zipIdx.mapM (callStages false depth place params) := by
  have hcalls : params.skill.calls = calls := by rw [Skill.calls, h]
  rw [stages_of_calls (by rw [Skill.isPipeline, h]), hcalls]
  rfl

/-- Something that holds of the stages of each leaf, and of those of a call if it holds of the calls
right below it. -/
structure Hereditary (K : Skill → Prop) (P : Place → List Stage → Prop) : Prop where
  leaf : ∀ place params, params.Ready K → params.skill.isPipeline = false →
    P place [⟨place.id, params, place.depth⟩]
  call : ∀ place caller (calls : List Call) inner,
    List.Forall₂ (fun p stages => P (place.call caller p.2) stages) calls.zipIdx inner →
      P place inner.flatten

variable {P : Place → List Stage → Prop}

/-- No call passes on a value without a plain text, of whatever skill. -/
def Passes (K : Skill → Prop) (why : Prop) : Prop :=
  ∀ skill, K skill → ∀ params outer,
    (Params.normalize skill (Call.resolve params outer)).result = .error (.exception .noText) → why

theorem stages_ensures (h : Hereditary K P) (hpasses : Passes K why) (hparams : params.Ready K) :
    Ensures (Session.Knows K) (Halts why) (stages false depth place params) (P place) := by
  -- On the depth that is left, which a leaf does not need and a call uses up by one.
  induction depth generalizing place params with
  | zero =>
    cases hp : params.skill.isPipeline with
    | false =>
      rw [stages_leaf hp]
      exact ensures_pure (h.leaf place params hparams hp)
    | true =>
      obtain ⟨calls, hs⟩ := exists_calls hp
      rw [stages_cyclic hs]
      exact ensures_throw (.configuration _)
  | succ depth ih =>
    cases hp : params.skill.isPipeline with
    | false =>
      rw [stages_leaf hp]
      exact ensures_pure (h.leaf place params hparams hp)
    | true =>
      obtain ⟨calls, hs⟩ := exists_calls hp
      rw [stages_pipeline hs]
      refine (ensures_mapM fun p _ => ?_).map fun inner =>
        h.call place params.skill.name calls inner
      refine (prepared_ensures _ ?_).bind fun inner hinner => ih hinner
      exact fun skill hskill => hpasses skill hskill _ _

/-- The stages of a top-level step, with sub-pipelines in front if they are to be kept. -/
def stagesOf (keep : Bool) (p : Step × Nat) : Work (List Stage) := do
  let params ← prepared (.ofStep p.2) p.1
  let depth := (← get).registry.size + 1
  stages keep depth (.ofStep p.2) params

theorem step_runs (keep : Bool) (p : Step × Nat) (s : Session) :
    (((step keep p.2 p.1).run s).1.2, ((step keep p.2 p.1).run s).2) =
      (stagesOf keep p).run.run s := by
  cases hr : (prepare (.ofStep p.2) p.1).run s with
  | mk answer s' =>
    obtain ⟨raw, result⟩ := answer
    rw [step, run_bind_eq hr, stagesOf, ExceptT.run_bind, run_bind_eq (prepared_run hr)]
    cases result <;> rfl

theorem steps_cons_of_error {keep : Bool} {position : Nat} {first : Step} {rest : List Step}
    {s s' : Session} {raw : Members Value} {f : Fault}
    (hr : (step keep position first).run s = ((raw, .error f), s')) :
    (steps keep position (first :: rest)).run s =
      ((raw :: rest.map (·.params), .error f), s') := by
  rw [steps, run_bind_eq hr]
  rfl

theorem steps_cons_of_ok {keep : Bool} {position : Nat} {first : Step} {rest : List Step}
    {s s' : Session} {raw : Members Value} {all : List Stage}
    (hr : (step keep position first).run s = ((raw, .ok all), s')) :
    (steps keep position (first :: rest)).run s =
      ((raw :: ((steps keep (position + 1) rest).run s').1.1,
          ((steps keep (position + 1) rest).run s').1.2.map (all ++ ·)),
        ((steps keep (position + 1) rest).run s').2) := by
  rw [steps, run_bind_eq hr]
  rfl

theorem steps_runs (keep : Bool) (position : Nat) (ss : List Step) (s : Session) :
    (((steps keep position ss).run s).1.2, ((steps keep position ss).run s).2) =
      (List.flatten <$> (ss.zipIdx position).mapM (stagesOf keep)).run.run s := by
  induction ss generalizing position s with
  | nil => rfl
  | cons first rest ih =>
    have hfirst := step_runs keep (first, position) s
    rw [List.zipIdx_cons, List.mapM_cons]
    cases hr : (step keep position first).run s with
    | mk answer s' =>
      obtain ⟨raw, result⟩ := answer
      rw [hr] at hfirst
      rw [run_map, ExceptT.run_bind, run_bind_eq hfirst.symm]
      cases result with
      | error f =>
        rw [steps_cons_of_error hr]
        rfl
      | ok stages =>
        rw [steps_cons_of_ok hr]
        have hrest := ih (position + 1) s'
        rw [run_map] at hrest
        -- What follows on the first step joins its stages to the others, on either side.
        change (((steps keep (position + 1) rest).run s').1.2.map (stages ++ ·),
            ((steps keep (position + 1) rest).run s').2) =
          (((List.cons stages <$> (rest.zipIdx (position + 1)).mapM (stagesOf keep)).run.run
              s').1.map List.flatten,
            ((List.cons stages <$> (rest.zipIdx (position + 1)).mapM (stagesOf keep)).run.run s').2)
        obtain ⟨hresult, hsession⟩ := Prod.mk.inj hrest
        rw [run_map, hresult, hsession]
        cases (((rest.zipIdx (position + 1)).mapM (stagesOf keep)).run.run s').1 <;> rfl

/-- The explanation of steps is that of their stages with sub-pipelines in front. -/
theorem explain_run (ss : List Step) (s : Session) :
    (explain ss).run.run s = (((steps true 0 ss).run s).1.2.map (Explanation.lines 0),
      ((steps true 0 ss).run s).2) := by
  cases hr : (steps true 0 ss).run s with
  | mk answer s' =>
    obtain ⟨raws, result⟩ := answer
    have hlift : (liftM (steps true 0 ss) :
        Work (List (Members Value) × Except Fault (List Stage))).run.run s =
          (.ok (raws, result), s') := by
      change ((steps true 0 ss >>= fun a => pure (Except.ok a)).run s) = _
      rw [run_bind_eq hr]
      rfl
    rw [explain, ExceptT.run_bind, run_bind_eq hlift]
    cases result <;> rfl

/-- The stages of a top-level step that do work of their own. -/
def stepStages (p : Step × Nat) : Work (List Stage) := do
  let params ← prepared (.ofStep p.2) p.1
  let depth := (← get).registry.size + 1
  stages false depth (.ofStep p.2) params

theorem step_run (p : Step × Nat) (s : Session) :
    (((step false p.2 p.1).run s).1.2, ((step false p.2 p.1).run s).2) =
      (stepStages p).run.run s := step_runs false p s

theorem steps_run (position : Nat) (ss : List Step) (s : Session) :
    (((steps false position ss).run s).1.2, ((steps false position ss).run s).2) =
      (List.flatten <$> (ss.zipIdx position).mapM stepStages).run.run s :=
  steps_runs false position ss s

variable {ss : List Step} {s : Session}

theorem stepStages_ensures (h : Hereditary K P) (hpasses : Passes K why) (p : Step × Nat)
    (hwhy : ∀ skill, K skill →
      (Params.normalize skill p.1.params).result = .error (.exception .noText) → why) :
    Ensures (Session.Knows K) (Halts why) (stepStages p) (P (.ofStep p.2)) :=
  (prepared_ensures p.1 hwhy).bind fun _ hparams => ensures_get.bind fun _ _ =>
    stages_ensures h hpasses hparams

theorem exists_trees (h : Hereditary K P) (hs : s.Knows K) {all : List Stage}
    (hall : ((steps false 0 ss).run s).1.2 = .ok all) :
    ∃ inner, all = inner.flatten ∧
      List.Forall₂ (fun p stages => P (.ofStep p.2) stages) ss.zipIdx inner := by
  have hrun := congrArg Prod.fst (steps_run 0 ss s)
  rw [run_map, hall] at hrun
  obtain ⟨inner, hinner, rfl⟩ := Outcome.map_eq_ok.mp hrun.symm
  have hstep (p : Step × Nat) :
      Ensures (Session.Knows K) (Halts True) (stepStages p) (P (.ofStep p.2)) :=
    stepStages_ensures h (fun _ _ _ _ _ => trivial) p fun _ _ _ => trivial
  have hsteps := ensures_mapM fun p (_ : p ∈ ss.zipIdx) => hstep p
  exact ⟨inner, rfl, hsteps.of_ok hs hinner⟩

theorem hasText_of_mem_resolve {params : Members ParamValue} {outer : Params}
    {entry : String × Value} (h : entry ∈ Call.resolve params outer) :
    entry.2.hasText = true := by
  have hdocument (v : ParamValue) : v.document.hasText = true := by cases v <;> rfl
  obtain ⟨⟨key, value⟩, -, hpassed⟩ := List.mem_filterMap.mp h
  obtain ⟨v, hv, rfl⟩ := Option.map_eq_some_iff.mp hpassed
  cases value with
  | text s =>
    rw [Call.passOn?] at hv
    split at hv
    · obtain ⟨w, -, rfl⟩ := Option.map_eq_some_iff.mp hv
      exact hdocument w
    · cases hv
      rfl
  | _ => cases hv; rfl

/-- Some value in the parameters of the steps has no plain text. -/
def Textless (ss : List Step) : Prop :=
  ∃ step ∈ ss, ∃ entry ∈ step.params, entry.2.hasText = false

/-- Steps that cannot be expanded are at fault themselves, or their skills are. -/
theorem steps_halt {f : Fault} (hs : s.Knows K)
    (hK : ∀ skill, K skill → ∀ spec ∈ skill.parameters, spec.name ≠ Inherited.parentKey)
    (hf : ((steps false 0 ss).run s).1.2 = .error f) : Halts (Textless ss) f := by
  have hany : Hereditary K fun _ _ => True :=
    ⟨fun _ _ _ _ => trivial, fun _ _ _ _ _ => trivial⟩
  have hpasses : Passes K (Textless ss) := by
    intro skill hskill params outer hresult
    obtain ⟨entry, hentry, hfalse⟩ := Params.exists_of_normalize_noText (hK skill hskill) hresult
    cases (hasText_of_mem_resolve hentry).symm.trans hfalse
  have hrun := congrArg Prod.fst (steps_run 0 ss s)
  rw [hf] at hrun
  have hsteps := (ensures_mapM fun p (hp : p ∈ ss.zipIdx) =>
    stepStages_ensures hany hpasses p fun skill hskill hresult =>
      ⟨p.1, List.fst_mem_of_mem_zipIdx hp,
        Params.exists_of_normalize_noText (hK skill hskill) hresult⟩).map
    (f := List.flatten) (Q := fun _ => True) fun _ _ => trivial
  exact hsteps.of_error hs hrun.symm

/-- The stages of an expanded pipeline are prepared, and none is a sub-pipeline. -/
theorem steps_ready (hs : s.Knows K) {all : List Stage}
    (hall : ((steps false 0 ss).run s).1.2 = .ok all) :
    ∀ stage ∈ all, stage.params.Ready K ∧ stage.skill.isPipeline = false := by
  have hready : Hereditary K fun _ stages =>
      ∀ stage ∈ stages, stage.params.Ready K ∧ stage.skill.isPipeline = false := by
    refine ⟨fun place params hparams hleaf stage hstage => ?_,
      fun place caller calls inner hinner => Outcome.forall_mem_flatten hinner fun _ _ h => h⟩
    rw [List.mem_singleton.mp hstage]
    exact ⟨hparams, hleaf⟩
  obtain ⟨inner, rfl, hinner⟩ := exists_trees hready hs hall
  exact Outcome.forall_mem_flatten hinner fun _ _ h => h

end Expansion

end SkillPipeline
