import SkillPipeline.Parameter.Check
import SkillPipeline.Skill.Params

namespace SkillPipeline.Params

/-- The parameter that a key names by one of its other names; the last such declaration counts. -/
def aliased? (skill : Skill) (key : String) : Option ParameterSpec :=
  skill.parameters.reverse.find? (·.aliases.contains key)

def isParameter (skill : Skill) (key : String) : Bool := skill.parameters.any (·.name == key)

/-- Renames one key, unless it is a parameter's own name. -/
def renameKey (skill : Skill) (raw : Record) (key : String) : Except Fault Record :=
  if isParameter skill key then .ok raw
  else match aliased? skill key with
    | none =>
      .error (.validation (.unknownParameter skill.name key (skill.parameters.map (·.name))))
    | some spec =>
      if raw.own.has spec.name then .error (.validation (.givenTwice skill.name key spec.name))
      else .ok ((raw.assign spec.name ((raw.own.get? key).getD .absent)).erase key)

def renameKeys (skill : Skill) (raw : Record) : List String → Record × Option Fault
  | [] => (raw, none)
  | key :: rest =>
    match renameKey skill raw key with
    | .ok raw => renameKeys skill raw rest
    | .error f => (raw, some f)

/-- What normalising has come to: the members as they now are, the values found, what there is to
say, and the fault that stopped the work, if any. -/
structure Progress where
  raw : Record
  values : List (String × ParamValue) := []
  notices : List Notice := []
  fault? : Option Fault := none

/-- A name takes a value; one that has a value keeps its place. -/
def put (values : List (String × ParamValue)) (name : String) (value : ParamValue) :
    List (String × ParamValue) :=
  if values.any (·.1 == name) then
    values.map fun p => if p.1 == name then (name, value) else p
  else values ++ [(name, value)]

def Progress.set (p : Progress) (name : String) (value : ParamValue) : Progress :=
  { p with raw := p.raw.assign name value.document, values := put p.values name value }

def Progress.step (skill : Skill) (p : Progress) (spec : ParameterSpec) : Progress :=
  match p.raw.read spec.name with
  | none =>
    match spec.default? with
    | some d => p.set spec.name d
    | none =>
      if spec.required then
        { p with fault? := some (.validation
            (.missingParameter skill.name spec.name spec.description)) }
      else { p with raw := p.raw.erase spec.name }
  | some v =>
    match spec.validate skill.name v with
    | .error f => { p with fault? := some f }
    | .ok (value, notices) => { p.set spec.name value with notices := p.notices ++ notices }

/-- The declared parameters in turn, up to the first fault. -/
def Progress.steps (skill : Skill) (p : Progress) : List ParameterSpec → Progress
  | [] => p
  | spec :: rest =>
    match p.fault? with
    | some _ => p
    | none => (p.step skill spec).steps skill rest

def progress (skill : Skill) (raw : Members Value) : Progress :=
  match renameKeys skill { own := raw } raw.keys with
  | (raw, some f) => { raw, fault? := some f }
  | (raw, none) => Progress.steps skill { raw } skill.parameters

/-- A normalised step: the members left behind, the parameters or a fault, and the notices. -/
structure Normalized where
  raw : Members Value
  result : Except Fault Params
  notices : List Notice

/-- First every key that is another name of a parameter is renamed; then each declared parameter in
turn takes its default if it is missing and is brought into the form of its type. The raw members
change as this goes on, and what they have become is part of the answer even where a fault stops the
work. They are read as any object is, inherited members included. -/
def normalize (skill : Skill) (raw : Members Value) : Normalized :=
  let p := progress skill raw
  { raw := p.raw.own
    result := match p.fault? with
      | some f => .error f
      | none => .ok ⟨skill, p.values⟩
    notices := p.notices }

end SkillPipeline.Params
