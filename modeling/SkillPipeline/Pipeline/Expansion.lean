import SkillPipeline.Filter.Template
import SkillPipeline.Pipeline.Request
import SkillPipeline.Registry.Session
import SkillPipeline.Skill.Normalization
import SkillPipeline.Registry.Listing

namespace SkillPipeline

/-- One skill at its place in the flattened pipeline. Its identifier is `s3` for the third step,
and `s3_2` for the second call of that step. -/
structure Stage where
  id : String
  params : Params
  depth : Nat

def Stage.skill (s : Stage) : Skill := s.params.skill

/-- The value that a call passes on. One that is a single hole keeps the type of the parameter and
is left out where that has no value; other holes are filled with text. -/
def Call.passOn? (outer : Params) : ParamValue → Option Value
  | .text s =>
    match Template.exactHole? s with
    | some name => (outer.raw? name).map (·.document)
    | none => some (.string (Template.fillText s fun name =>
        ((outer.raw? name).map (·.shown)).getD ""))
  | v => some v.document

def Call.resolve (params : Members ParamValue) (outer : Params) : Members Value :=
  (params.filter (Members.isAssignable ·.1)).filterMap fun (key, value) =>
    (passOn? outer value).map (key, ·)

structure Place where
  id : String
  /-- The sub-pipelines that led here, the outermost first. -/
  trail : List String := []

namespace Place

def ofStep (position : Nat) : Place := { id := "s" ++ toString (position + 1) }

def call (place : Place) (caller : String) (position : Nat) : Place :=
  { id := place.id ++ "_" ++ toString (position + 1), trail := place.trail ++ [caller] }

def depth (place : Place) : Nat := place.trail.length

end Place

namespace Expansion

def expanded (place : Place) (skill : String) : Notice :=
  { level := .debug, message := "Expanded step"
    fields := [("step", .string place.id), ("skill", .string skill),
      ("via", if place.trail.isEmpty then .absent
        else .string (Text.join " > " place.trail))] }

def soundSkill (name : String) : StateM Session (Except ConfigurationFault Skill) := do
  match (← get).registry.require name with
  | .error f => return .error f
  | .ok skill =>
    match ← Session.reading (Registry.assertAcyclic skill.name).run with
    | .error f => return .error f
    | .ok () => return .ok skill

/-- The parameters of a step in the form that its skill declares, with what the given ones have
become. -/
def prepare (place : Place) (step : Step) :
    StateM Session (Members Value × Except Fault Params) := do
  match ← soundSkill step.skill with
  | .error f => return (step.params, .error (.configuration f))
  | .ok skill =>
    let normalized := Params.normalize skill step.params
    modify (·.note normalized.notices)
    if normalized.result.isOk then modify (·.note [expanded place skill.name])
    return (normalized.raw, normalized.result)

def prepared (place : Place) (step : Step) : Work Params := do
  let (_, result) ← prepare place step
  MonadExcept.ofExcept result

/-- The stages of a step whose parameters are prepared: sub-pipelines are replaced by the skills
that they call, until only stages are left that do work of their own; `keep` retains sub-pipelines
in front of what they expand to. A chain of calls that meets no sub-pipeline twice is no longer than
the registry is large, so `depth` never runs out on skills that are free of cycles. -/
def stages (keep : Bool) : (depth : Nat) → Place → Params → Work (List Stage)
  | depth, place, params => do
    let stage : Stage := ⟨place.id, params, place.depth⟩
    match depth, params.skill.strategy with
    | 0, .pipeline _ => throw (.configuration (.cyclic place.trail params.skill.name))
    | depth + 1, .pipeline calls =>
      let inner ← calls.zipIdx.mapM fun (call, i) => do
        let place := place.call params.skill.name i
        let inner ← prepared place ⟨call.skill, Call.resolve call.params params⟩
        stages keep depth place inner
      return (if keep then [stage] else []) ++ inner.flatten
    | _, _ => return [stage]

def step (keep : Bool) (position : Nat) (s : Step) :
    StateM Session (Members Value × Except Fault (List Stage)) := do
  let (raw, result) ← prepare (.ofStep position) s
  match result with
  | .error f => return (raw, .error f)
  | .ok params =>
    let depth := (← get).registry.size + 1
    return (raw, ← (stages keep depth (.ofStep position) params).run)

/-- The stages of the steps from one position on, up to the first fault, with what the parameters
of all steps have become. -/
def steps (keep : Bool) (position : Nat) :
    List Step → StateM Session (List (Members Value) × Except Fault (List Stage))
  | [] => return ([], .ok [])
  | s :: rest => do
    let (raw, result) ← step keep position s
    match result with
    | .error f => return (raw :: rest.map (·.params), .error f)
    | .ok stages =>
      let (raws, result) ← steps keep (position + 1) rest
      return (raw :: raws, result.map (stages ++ ·))

end Expansion

end SkillPipeline

namespace SkillPipeline.Explanation

def paramsText (p : Params) : String :=
  Text.join ", " (p.values.map fun (name, value) => name ++ "=" ++ value.listed)

def summary (s : Stage) : String :=
  let params := paramsText s.params
  s.skill.name ++ ": " ++ s.skill.description ++ (if params = "" then "" else s!" ({params})")

def lines (top : Nat) : List Stage → List String
  | [] => []
  | s :: rest =>
    if s.depth = 0 then s!"{top + 1}. {summary s}" :: lines (top + 1) rest
    else (String.join (List.replicate s.depth "   ") ++ "- " ++ summary s) :: lines top rest

end SkillPipeline.Explanation

namespace SkillPipeline

def explain (steps : List Step) : Work (List String) := do
  let (_, stages) ← Expansion.steps true 0 steps
  return Explanation.lines 0 (← MonadExcept.ofExcept stages)

end SkillPipeline
