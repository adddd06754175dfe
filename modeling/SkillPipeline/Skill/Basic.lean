import SkillPipeline.Parameter.Spec

namespace SkillPipeline

inductive Category where
  | temporal
  | spatial
  | visual
  | audio
  | encoding
  | text
  | multiInput
  | outcome
  | custom
  deriving DecidableEq, Repr

namespace Category

def all : List Category :=
  [.temporal, .spatial, .visual, .audio, .encoding, .text, .multiInput, .outcome, .custom]

def name : Category → String
  | .temporal => "temporal"
  | .spatial => "spatial"
  | .visual => "visual"
  | .audio => "audio"
  | .encoding => "encoding"
  | .text => "text"
  | .multiInput => "multi_input"
  | .outcome => "outcome"
  | .custom => "custom"

def title : Category → String
  | .temporal => "Temporal"
  | .spatial => "Spatial"
  | .visual => "Visual"
  | .audio => "Audio"
  | .encoding => "Encoding"
  | .text => "Text"
  | .multiInput => "Multi Input"
  | .outcome => "Outcome"
  | .custom => "Custom"

def ofName? (s : String) : Option Category := all.find? (·.name == s)

end Category

/-- A call of one skill by another. Text values may hold the caller's parameters in braces. -/
structure Call where
  skill : String
  params : Members ParamValue := []

inductive Target where
  | video
  | audio
  | output
  deriving DecidableEq, Repr

def Target.name : Target → String
  | .video => "video"
  | .audio => "audio"
  | .output => "output"

inductive Strategy where
  | template (text : String) (target : Target)
  | pipeline (calls : List Call)
  | handler (name : String)

namespace Strategy

def kindName : Strategy → String
  | .template .. => "template"
  | .pipeline _ => "pipeline"
  | .handler _ => "handler"

def document : Strategy → Value
  | .template text target =>
    .record [("kind", .string "template"), ("template", .string text),
      ("target", .string target.name)]
  | .pipeline calls =>
    .record [("kind", .string "pipeline"), ("steps", .list (calls.map fun call =>
      .record [("skill", .string call.skill),
        ("params", .record (call.params.map fun p => (p.1, p.2.document)))]))]
  | .handler name => .record [("kind", .string "handler"), ("handler", .string name)]

end Strategy

/-- A named editing effect with parameters. It does its work by a template, by a list of calls to
other skills, or by one of the handlers that the library knows. -/
structure Skill where
  name : String
  category : Category
  description : String := ""
  parameters : List ParameterSpec := []
  strategy : Strategy
  tags : List String := []
  examples : List String := []
  aliases : List String := []
  /-- The file that defines the skill, or `builtin`. -/
  source : String := "builtin"

namespace Skill

def spec? (skill : Skill) (name : String) : Option ParameterSpec :=
  skill.parameters.find? (·.name == name)

/-- The calls of a sub-pipeline; other skills call none. -/
def calls (skill : Skill) : List Call :=
  match skill.strategy with
  | .pipeline calls => calls
  | _ => []

def isPipeline (skill : Skill) : Bool :=
  match skill.strategy with
  | .pipeline _ => true
  | _ => false

def document (skill : Skill) : Value :=
  .record [("name", .string skill.name), ("category", .string skill.category.name),
    ("description", .string skill.description),
    ("parameters", .list (skill.parameters.map (·.document))),
    ("strategy", skill.strategy.document), ("tags", .strings skill.tags),
    ("examples", .strings skill.examples), ("aliases", .strings skill.aliases),
    ("source", .string skill.source)]

end Skill

end SkillPipeline
