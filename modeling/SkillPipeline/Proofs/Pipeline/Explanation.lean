import SkillPipeline.Proofs.Pipeline.Validation

namespace SkillPipeline

namespace Explanation

/-- The stage of a step or call, the stages of the calls below it, and those that follow on both. -/
inductive Forest where
  | nil
  | cons (stage : Stage) (below rest : Forest)

namespace Forest

/-- All stages, each right in front of those below it. -/
def units : Forest → List Stage
  | nil => []
  | cons stage below rest => stage :: (below.units ++ rest.units)

def roots : Forest → List Stage
  | nil => []
  | cons stage _ rest => stage :: rest.roots

/-- One line for each stage of a forest that lies below so many sub-pipelines. -/
def bullets (depth : Nat) : Forest → List String
  | nil => []
  | cons stage below rest =>
    (String.join (List.replicate depth "   ") ++ "- " ++ summary stage) ::
      (below.bullets (depth + 1) ++ rest.bullets depth)

/-- One line for each root, numbered from `top + 1` on, and after it the lines of what is below. -/
def outline (top : Nat) : Forest → List String
  | nil => []
  | cons stage below rest =>
    s!"{top + 1}. {summary stage}" :: (below.bullets 1 ++ rest.outline (top + 1))

end Forest

def working (all : List Stage) : List Stage := all.filter fun s => !s.skill.isPipeline

theorem working_append (a b : List Stage) : working (a ++ b) = working a ++ working b :=
  List.filter_append ..

end Explanation

namespace Expansion

open Explanation Outcome Work

variable {x : Index} {place : Place} {params : Params} {ps : List (Place × Step)}
  {forest : Forest} {a b a' b' : List Stage} {depth : Nat}

/-- What steps at their places grow to over some skills: the stage of each has the parameters that
the step comes to, and below it is what its calls grow to. -/
inductive Grows (x : Index) : List (Place × Step) → Forest → Prop
  | nil : Grows x [] .nil
  | cons {place : Place} {step : Step} {rest : List (Place × Step)} {params : Params}
      {below others : Forest} (hprepares : Prepares x step params)
      (hbelow : Grows x (callSteps place params) below) (hrest : Grows x rest others) :
      Grows x ((place, step) :: rest) (.cons ⟨place.id, params, place.depth⟩ below others)

/-- The steps of a request at their places. -/
def topSteps (ss : List Step) : List (Place × Step) :=
  ss.zipIdx.map fun p => (.ofStep p.2, p.1)

theorem depth_of_mem_topSteps {ss : List Step} : ∀ p ∈ topSteps ss, p.1.depth = 0 := by
  intro p hp
  obtain ⟨q, -, rfl⟩ := List.mem_map.mp hp
  rfl

theorem depth_of_mem_callSteps : ∀ p ∈ callSteps place params, p.1.depth = place.depth + 1 := by
  intro p hp
  obtain ⟨q, -, rfl⟩ := List.mem_map.mp hp
  simp [Place.depth, Place.call]

namespace Grows

theorem roots (h : Grows x ps forest) :
    List.Forall₂ (fun p s => s.id = p.1.id ∧ s.depth = p.1.depth ∧ Prepares x p.2 s.params)
      ps forest.roots := by
  induction h with
  | nil => exact .nil
  | cons hprepares hbelow hrest ihbelow ihrest => exact .cons ⟨rfl, rfl, hprepares⟩ ihrest

theorem prepared (h : Grows x ps forest) :
    ∀ s ∈ forest.units, ∃ step, Prepares x step s.params := by
  induction h with
  | nil => exact nofun
  | @cons place step rest params below others hprepares hbelow hrest ihbelow ihrest =>
    intro s hs
    rw [Forest.units, List.mem_cons, List.mem_append] at hs
    obtain rfl | hs | hs := hs
    · exact ⟨step, hprepares⟩
    · exact ihbelow s hs
    · exact ihrest s hs

/-- Below a sub-pipeline the depth of a stage is how deep it lies in the forest. -/
theorem lines_below (h : Grows x ps forest) (hps : ∀ p ∈ ps, p.1.depth = depth + 1) (top : Nat)
    (after : List Stage) :
    lines top (forest.units ++ after) = forest.bullets (depth + 1) ++ lines top after := by
  induction h generalizing depth after with
  | nil => rfl
  | @cons place step rest params below others hprepares hbelow hrest ihbelow ihrest =>
    obtain ⟨hplace, hothers⟩ := List.forall_mem_cons.mp hps
    have hcalls : ∀ p ∈ callSteps place params, p.1.depth = depth + 1 + 1 := fun p hp => by
      rw [depth_of_mem_callSteps p hp, hplace]
    rw [Forest.units, List.cons_append, List.append_assoc, lines, ihbelow hcalls, ihrest hothers,
      Forest.bullets]
    simp [hplace]

theorem lines_top (h : Grows x ps forest) (hps : ∀ p ∈ ps, p.1.depth = 0) (top : Nat) :
    lines top forest.units = forest.outline top := by
  induction h generalizing top with
  | nil => rfl
  | @cons place step rest params below others hprepares hbelow hrest ihbelow ihrest =>
    obtain ⟨hplace, hothers⟩ := List.forall_mem_cons.mp hps
    have hcalls : ∀ p ∈ callSteps place params, p.1.depth = 0 + 1 := fun p hp => by
      rw [depth_of_mem_callSteps p hp, hplace]
    rw [Forest.units, lines, hbelow.lines_below hcalls, ihrest hothers, Forest.outline]
    simp [hplace]

end Grows

/-- Two lists of the stages of the same steps: all that these grow to, and those of them that do
work of their own. -/
def Lists (x : Index) (ps : List (Place × Step)) (listed worked : List Stage) : Prop :=
  ∃ forest, Grows x ps forest ∧ listed = forest.units ∧ worked = working forest.units

theorem Lists.nil : Lists x [] [] [] := ⟨.nil, .nil, rfl, rfl⟩

theorem Lists.cons {p : Place × Step} (h : Lists x [p] a b) (hrest : Lists x ps a' b') :
    Lists x (p :: ps) (a ++ a') (b ++ b') := by
  obtain ⟨forest, hgrows, rfl, rfl⟩ := h
  obtain ⟨others, hothers, rfl, rfl⟩ := hrest
  cases hgrows with
  | cons hprepares hbelow hnil =>
    cases hnil
    refine ⟨.cons _ _ others, .cons hprepares hbelow hothers, ?_, ?_⟩
    · simp [Forest.units]
    · rw [← working_append]
      simp [Forest.units]

theorem Lists.below {step : Step} (hprepares : Prepares x step params)
    (hbelow : Lists x (callSteps place params) a b) :
    Lists x [(place, step)] (⟨place.id, params, place.depth⟩ :: a)
      (working [⟨place.id, params, place.depth⟩] ++ b) := by
  obtain ⟨below, hgrows, rfl, rfl⟩ := hbelow
  refine ⟨.cons _ below .nil, .cons hprepares hgrows .nil, ?_, ?_⟩
  · simp [Forest.units]
  · rw [← working_append]
    simp [Forest.units]

theorem concurs_lists {α : Type} {g : α → Place × Step} {f f' : α → Work (List Stage)} {l : List α}
    (h : ∀ e ∈ l, Concurs x (Lists x [g e]) (f e) (f' e)) :
    Concurs x (fun parts parts' => Lists x (l.map g) parts.flatten parts'.flatten)
      (l.mapM f) (l.mapM f') := by
  induction l with
  | nil =>
    rw [List.mapM_nil, List.mapM_nil]
    exact concurs_pure .nil
  | cons e rest ih =>
    obtain ⟨he, hrest⟩ := List.forall_mem_cons.mp h
    rw [List.mapM_cons, List.mapM_cons]
    refine he.bind fun part part' hpart => (ih hrest).bind fun parts parts' hparts => ?_
    exact concurs_pure (hpart.cons hparts)

theorem prepared_prepares (place : Place) (step : Step) :
    Concurs x (fun params params' => params = params' ∧ Prepares x step params)
      (prepared place step) (prepared place step) := by
  intro s s' hs hs'
  obtain ⟨hkept, hkept', hanswer⟩ := prepared_concurs step s s' hs hs'
  obtain ⟨-, hprepares⟩ := prepared_yields step s hs
  exact ⟨hkept, hkept', hanswer.and fun params => (hprepares params).mp⟩

theorem stages_lists_leaf {step : Step} (hprepares : Prepares x step params)
    (hp : params.skill.isPipeline = false) :
    Concurs x (Lists x [(place, step)]) (stages true depth place params)
      (stages false depth place params) := by
  have hcalls : callSteps place params = [] := by
    rw [callSteps, Registry.calls_of_not_isPipeline hp]
    rfl
  have hbelow : Lists x (callSteps place params) [] [] := hcalls ▸ .nil
  have hlists := Lists.below hprepares hbelow
  simp only [working, Stage.skill, hp, List.filter, Bool.not_false, List.append_nil] at hlists
  rw [stages_leaf hp, stages_leaf hp]
  exact concurs_pure hlists

/-- With and without sub-pipelines, a step comes to the two lists of what it grows to, or fails with
the same fault. -/
theorem stages_lists {step : Step} (hprepares : Prepares x step params) :
    Concurs x (Lists x [(place, step)]) (stages true depth place params)
      (stages false depth place params) := by
  -- On the depth that is left, which a leaf does not need and a call uses up by one.
  induction depth generalizing place params step with
  | zero =>
    cases hp : params.skill.isPipeline with
    | false => exact stages_lists_leaf hprepares hp
    | true =>
      obtain ⟨calls, hs⟩ := exists_calls hp
      rw [stages_cyclic hs, stages_cyclic hs]
      exact concurs_throw _
  | succ depth ih =>
    cases hp : params.skill.isPipeline with
    | false => exact stages_lists_leaf hprepares hp
    | true =>
      have hcall (p : Call × Nat) :
          Concurs x (Lists x [(place.call params.skill.name p.2, callStep params p.1)])
            (callStages true depth place params p) (callStages false depth place params p) := by
        refine (prepared_prepares _ _).bind fun inner inner' hinner => ?_
        obtain ⟨rfl, hready⟩ := hinner
        exact ih hready
      rw [stages_of_calls hp, stages_of_calls hp]
      refine (concurs_lists fun p _ => hcall p).map fun parts parts' hparts => ?_
      simpa [retained, working, Stage.skill, hp] using Lists.below hprepares hparts

theorem stagesOf_lists (p : Step × Nat) :
    Concurs x (Lists x [(.ofStep p.2, p.1)]) (stagesOf true p) (stagesOf false p) := by
  refine (prepared_prepares _ p.1).bind fun params params' hparams => ?_
  obtain ⟨rfl, hready⟩ := hparams
  exact concurs_size (fun n => stages true (n + 1) (.ofStep p.2) params)
    (fun n => stages false (n + 1) (.ofStep p.2) params) (stages_lists hready)

variable {s s' : Session}

theorem steps_lists (hs : s.Over x) (hs' : s'.Over x) (ss : List Step) :
    ((steps true 0 ss).run s).2.Over x ∧
      Concur (Lists x (topSteps ss)) ((steps true 0 ss).run s).1.2
        ((steps false 0 ss).run s').1.2 := by
  have hlists : Concurs x (Lists x (topSteps ss))
      (List.flatten <$> ss.zipIdx.mapM (stagesOf true))
      (List.flatten <$> ss.zipIdx.mapM (stagesOf false)) :=
    (concurs_lists fun p _ => stagesOf_lists p).map fun _ _ h => h
  obtain ⟨hkept, -, hanswer⟩ := hlists s s' hs hs'
  rw [← steps_runs] at hkept hanswer
  rw [← steps_runs] at hanswer
  exact ⟨hkept, hanswer⟩

end Expansion

namespace Explanation

open Expansion Outcome

/-- Explains steps whose parameters are in cells, on copies of these. -/
def explainIn (held : List HeldStep) (s : Session) (m : Memory) :
    Except Fault (List String) × Session × Memory :=
  let (copied, m) := HeldStep.copies held m
  let (listed, s, m) := expandIn true 0 copied s m
  (listed.map (lines 0), s, m)

/-- Explaining in place is explaining, and leaves all cells in use as they are. -/
theorem explainIn_spec (s : Session) {held : List HeldStep} {m : Memory}
    (hheld : ∀ step ∈ held, step.cell < m.next) :
    ((explainIn held s m).1, (explainIn held s m).2.1) =
        (explain (held.map (·.read m))).run.run s ∧
      m.Within (explainIn held s m).2.2 := by
  have hcopies := HeldStep.copies_spec hheld
  obtain ⟨hrun, hrewritten⟩ :=
    expandIn_spec true 0 s (HeldStep.copies held m).2 hcopies.nodup
  obtain ⟨hlisted, hsession⟩ := Prod.mk.inj hrun
  rw [hcopies.reads] at hlisted hsession
  constructor
  · rw [explain_run, ← hlisted, ← hsession]
    rfl
  · exact hrewritten.within hcopies.within fun step hstep => (hcopies.fresh step hstep).1

end Explanation

open Explanation Expansion

variable {x : Index} {s s' : Session}

namespace Compiler

theorem compile_stages (c : Compiler) (request : Request) (s : Session) :
    ((c.compile request).run s).1.result = (do
      let ctx ← request.context.resolve c.files c.defaults
      let all ← stages request s
      let a ← c.assembly ctx all
      return a.descriptor c.binary ctx) := by
  rw [compile_result, plan]
  cases request.context.resolve c.files c.defaults with
  | error f => rfl
  | ok ctx =>
    cases stages request s with
    | error f => rfl
    | ok all =>
      change ((c.assembly ctx all >>= fun a => pure (ctx, a)).map fun planned =>
          planned.2.descriptor c.binary planned.1) =
        c.assembly ctx all >>= fun a => pure (a.descriptor c.binary ctx)
      cases c.assembly ctx all <;> rfl

/-- The stages of a request are those that an explanation of its steps lists, without the
sub-pipelines. -/
theorem stages_listed (hs : s.Over x) (hs' : s'.Over x) (request : Request) :
    stages request s' = ((steps true 0 request.steps).run s).1.2.map working := by
  have hnoted : (s'.note [started request.steps]).Over x := hs'
  obtain ⟨-, hconcur⟩ := steps_lists hs hnoted request.steps
  refine hconcur.eq_map fun listed worked hlists => ?_
  obtain ⟨forest, -, rfl, rfl⟩ := hlists
  rfl

end Compiler

theorem Expansion.exists_forest (hs : s.Over x) {ss : List Step} {all : List Stage}
    (hall : ((steps true 0 ss).run s).1.2 = .ok all) :
    ∃ forest, Grows x (topSteps ss) forest ∧ all = forest.units := by
  obtain ⟨-, hconcur⟩ := steps_lists hs hs ss
  rw [hall] at hconcur
  cases hworked : ((steps false 0 ss).run s).1.2 with
  | error f =>
    rw [hworked] at hconcur
    exact hconcur.elim
  | ok worked =>
    rw [hworked] at hconcur
    obtain ⟨forest, hgrows, hunits, -⟩ := hconcur
    exact ⟨forest, hgrows, hunits⟩

/-- After any history, explaining and compiling agree on what the steps come to. In whatever session
over the same skills a request is compiled, before or after the explanation, it is compiled from the
stages that the explanation lists without the sub-pipelines among these, or fails with the fault of
the explanation. The stages listed are those that the steps grow to: there is a root for each step
in turn, and the lines are the outline of all. Wherever the parameters of the steps are kept, they
stay as they are. -/
theorem explain_matches (c : Compiler) (history : List Usage) (request : Request) :
    let session := Session.after history
    let x := session.registry.index
    let listed := ((steps true 0 request.steps).run session).1.2
    let explained := (explain request.steps).run.run session
    (∀ later : Session, later.Over x →
      Compiler.stages request later = listed.map working ∧
        ((c.compile request).run later).1.result = (do
          let ctx ← request.context.resolve c.files c.defaults
          let all ← listed.map working
          let a ← c.assembly ctx all
          return a.descriptor c.binary ctx)) ∧
      explained.2.Over x ∧
      (∀ f, listed = .error f → explained.1 = .error f) ∧
      (∀ all, listed = .ok all → ∃ forest : Forest,
        Grows x (topSteps request.steps) forest ∧ all = forest.units ∧
          List.Forall₂ (fun p s => s.id = (Place.ofStep p.2).id ∧ s.depth = 0 ∧
            Prepares x p.1 s.params) request.steps.zipIdx forest.roots ∧
          explained.1 = .ok (forest.outline 0)) ∧
      ∀ (held : List HeldStep) (m : Memory), (∀ h ∈ held, h.cell < m.next) →
        request.steps = held.map (·.read m) →
          let (lines, s, m') := explainIn held session m
          (lines, s) = explained ∧ ∀ i < m.next, m'.cell i = m.cell i := by
  intro session x listed explained
  have hover : session.Over x := Session.over_after history
  have hexplained : explained = (listed.map (lines 0),
      ((steps true 0 request.steps).run session).2) := explain_run request.steps session
  -- Any compilation, the list itself, its fault, its outline, and the cells that were read.
  refine ⟨fun later hlater => ?_, ?_, fun f hf => ?_, fun all hall => ?_,
    fun held m hheld hsteps => ?_⟩
  · have hstages : Compiler.stages request later = listed.map working :=
      Compiler.stages_listed hover hlater request
    rw [Compiler.compile_stages, hstages]
    exact ⟨rfl, rfl⟩
  · rw [hexplained]
    exact (steps_lists hover hover request.steps).1
  · rw [hexplained, hf]
    rfl
  · obtain ⟨forest, hgrows, rfl⟩ := exists_forest hover hall
    have hroots := hgrows.roots
    rw [topSteps, List.forall₂_map_left_iff] at hroots
    refine ⟨forest, hgrows, rfl, hroots, ?_⟩
    rw [hexplained, hall, ← hgrows.lines_top depth_of_mem_topSteps]
    rfl
  · obtain ⟨hrun, hwithin⟩ := explainIn_spec session hheld
    rw [← hsteps] at hrun
    exact ⟨hrun, hwithin.kept⟩

def outingSkill : Skill where
  name := "outing"
  category := .outcome
  strategy := .pipeline [⟨"stroll", []⟩, ⟨"pace", []⟩]

def outingHistory : List Usage :=
  [.register paceSkill, .register strollSkill, .register outingSkill]

def outingRequest : Request where
  steps := [⟨"outing", []⟩, ⟨"step", []⟩]
  context := ⟨"/in.mp4", "/out.mp4", [], none, none, none, none, none, none, none, [], none⟩

theorem explain_matches_outing :
    let session := Session.after outingHistory
    let held : List HeldStep := [⟨"outing", 0⟩, ⟨"step", 1⟩]
    let m : Memory := ⟨2, fun _ => []⟩
    (Compiler.stages outingRequest session).map (·.map (·.id)) =
        .ok ["s1_1_1", "s1_1_2", "s1_2", "s2"] ∧
      (∃ forest : Forest, Grows session.registry.index (topSteps outingRequest.steps) forest ∧
        forest.units.map (·.id) = ["s1", "s1_1", "s1_1_1", "s1_1_2", "s1_2", "s2"]) ∧
      (explainIn held session m).1 = .ok ["1. outing: ", "   - stroll: ", "      - pace: ",
        "      - pace: ", "   - pace: ", "2. pace: "] ∧
      ∀ i < 2, (explainIn held session m).2.2.cell i = [] := by
  intro session held m
  obtain ⟨hcompiled, -, -, hlisted, hheld⟩ :=
    explain_matches { files := { workingDir := "/", home := "/", nodes := [] } } outingHistory
      outingRequest
  obtain ⟨hstages, -⟩ := hcompiled session (Session.over_after outingHistory)
  obtain ⟨hsame, hkept⟩ := hheld held m (by simp [held, m]) rfl
  obtain ⟨forest, hgrows, hunits, -⟩ := hlisted _ rfl
  refine ⟨?_, ⟨forest, hgrows, ?_⟩, ?_, hkept⟩
  · rw [hstages]
    rfl
  · rw [← hunits]
    rfl
  · exact (congrArg Prod.fst hsame).trans rfl

end SkillPipeline
