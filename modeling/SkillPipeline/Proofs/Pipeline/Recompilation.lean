import SkillPipeline.Pipeline.Expansion
import SkillPipeline.Proofs.Pipeline.ClosedGraph
import SkillPipeline.Proofs.Pipeline.History
import SkillPipeline.Proofs.Skill.Settlement

namespace SkillPipeline

/-- The steps with what their parameters have become. -/
def Step.rewritten (steps : List Step) (params : List (Members Value)) : List Step :=
  steps.zipWith (fun step params => { step with params }) params

/-- The request as compiling it has left it. -/
def Request.rewritten (request : Request) (params : List (Members Value)) : Request :=
  { request with steps := Step.rewritten request.steps params }

/-- All parameters of the skill are found again as they were left. -/
def Skill.Steady (skill : Skill) : Prop := ∀ spec ∈ skill.parameters, spec.isSteady = true

structure Skill.Settles (skill : Skill) : Prop where
  coherent : skill.Coherent
  steady : skill.Steady

namespace Expansion

open Work Outcome

variable {x : Index} {keep : Bool} {place : Place} {step : Step} {params : Params}
  {raw : Members Value} {s : Session} {ss : List Step} {position : Nat}

/-- What the parameters of a step become, and what they come to. -/
def Readies (x : Index) (step : Step) (raw : Members Value) (params : Params) : Prop :=
  x.Founded step.skill ∧ ∃ skill, x.get? step.skill = some skill ∧
    (Params.normalize skill step.params).raw = raw ∧
    (Params.normalize skill step.params).result = .ok params

/-- Preparing what parameters have become leaves them as they are and comes to the same. -/
theorem Readies.again (h : Readies x step raw params)
    (hsettles : ∀ skill ∈ x.skills, skill.Settles) :
    Readies x { step with params := raw } raw params := by
  obtain ⟨hfounded, skill, hget, rfl, hresult⟩ := h
  have hskill := hsettles skill (Index.mem_of_get? hget)
  have hagain := Params.normalize_again hskill.coherent hskill.steady hresult
  refine ⟨hfounded, skill, hget, ?_, ?_⟩
  · dsimp only
    rw [hagain]
  · dsimp only
    rw [hagain]

/-- The stages that prepared parameters come to, over some skills. -/
def stagesOver (x : Index) (keep : Bool) (position : Nat) (params : Params) :
    Except Fault (List Stage) :=
  ((stages keep (x.skills.length + 1) (.ofStep position) params).run.run
    { registry := { index := x } }).1

/-- What the parameters of a numbered step become, and the stages that it comes to. -/
def Answers (x : Index) (keep : Bool) (p : Step × Nat) (answer : Members Value × List Stage) :
    Prop :=
  ∃ params, Readies x p.1 answer.1 params ∧ stagesOver x keep p.2 params = .ok answer.2

variable {answers : List (Members Value × List Stage)}

end Expansion

namespace Compiler

open Work Outcome

variable {x : Index} {c : Compiler} {s s' : Session} {request : Request} {d : Descriptor}
  {params : List (Members Value)}

/-- A parameter that is not steady: once its own value is taken away, the inherited one is seen. -/
example :
    let spec : ParameterSpec := { name := "constructor", type := .string }
    let skill : Skill := { name := "tool", category := .custom, parameters := [spec],
                           strategy := .pipeline [] }
    let first := Params.normalize skill [("constructor", .null)]
    first.result.isOk = true ∧ first.raw = [] ∧
      (Params.normalize skill first.raw).result.isOk = false := by
  decide +kernel

end Compiler

end SkillPipeline
