import SkillPipeline.Document.Value
import SkillPipeline.Document.Shape
import SkillPipeline.Parameter.Spec
import SkillPipeline.Skill.Basic

namespace SkillPipeline

def Shape.texts : Shape (List String) :=
  .union [Shape.string.convert fun s => [s], .list .string]

def Shape.paramValue : Shape ParamValue :=
  .union [Shape.string.convert .text, Shape.number.convert .number, Shape.bool.convert .flag]

structure ParameterEntry where
  type : String
  description : String
  required : Bool
  default? : Option ParamValue
  min? : Option Float
  max? : Option Float
  choices? : Option (List String)
  aliases? : Option (List String)

namespace ParameterEntry

def choice : Shape String := .union [.string, Shape.number.convert Number.text]

def fields : List String :=
  ["type", "description", "required", "default", "min", "max", "choices", "aliases"]

def shape : Shape ParameterEntry := .strict fields <| .object fun v =>
  ParameterEntry.mk
    <$> Shape.field "type" (Shape.string.orDefault (.string "string")) v
    <*> Shape.field "description" (Shape.string.orDefault (.string "")) v
    <*> Shape.field "required" (Shape.bool.orDefault (.bool false)) v
    <*> Shape.field "default" Shape.paramValue.optional v
    <*> Shape.field "min" Shape.number.optional v
    <*> Shape.field "max" Shape.number.optional v
    <*> Shape.field "choices" (Shape.list choice).optional v
    <*> Shape.field "aliases" Shape.texts.optional v

end ParameterEntry

namespace Call

def shape : Shape Call := .union [
  Shape.nonEmpty.convert fun skill => { skill },
  .strict ["skill", "params"] <| .object fun v =>
    Call.mk
      <$> Shape.field "skill" .nonEmpty v
      <*> Shape.field "params" ((Shape.record .paramValue).orDefault (.object [])) v]

end Call

/-- What the document of a skill has to look like; whether its parts fit each other is a matter of
its definition. -/
structure SkillEntry where
  name : String
  category : String
  description : String
  parameters : Members ParameterEntry
  template? : Option String
  pipeline? : Option (List Call)
  handler? : Option String
  option? : Option Bool
  stream? : Option Target
  tags : List String
  examples : List String
  aliases : List String

namespace SkillEntry

/-- Lower-case letters, digits and underscores, starting with a letter. -/
def isName (s : String) : Bool :=
  match s.toList with
  | c :: rest => c.isLower && rest.all fun c => c.isLower || c.isDigit || c = '_'
  | [] => false

def strategies (e : SkillEntry) : Nat :=
  e.template?.toList.length + e.pipeline?.toList.length + e.handler?.toList.length

def fields : List String :=
  ["name", "category", "description", "parameters", "template", "pipeline", "handler", "option",
   "stream", "tags", "examples", "aliases"]

def shape : Shape SkillEntry :=
  .refine (·.strategies == 1) "exactly one of template, pipeline or handler is required" [] <|
  .strict fields <| .object fun v =>
    SkillEntry.mk
      <$> Shape.field "name" (Shape.string.also isName "skill names are lower_snake_case") v
      <*> Shape.field "category" (Shape.string.orDefault (.string "custom")) v
      <*> Shape.field "description" (Shape.string.orDefault (.string "")) v
      <*> Shape.field "parameters"
        ((Shape.record ParameterEntry.shape).orDefault (.object [])) v
      <*> Shape.field "template" Shape.nonEmpty.optional v
      <*> Shape.field "pipeline" (Shape.nonEmptyList Call.shape).optional v
      <*> Shape.field "handler" Shape.nonEmpty.optional v
      <*> Shape.field "option" Shape.bool.optional v
      <*> Shape.field "stream"
        (Shape.oneOf [("video", Target.video), ("audio", .audio)]).optional v
      <*> Shape.field "tags" (Shape.texts.orDefault (.list [])) v
      <*> Shape.field "examples" (Shape.texts.orDefault (.list [])) v
      <*> Shape.field "aliases" (Shape.texts.orDefault (.list [])) v

/-- The entries of a skill file: one skill, a list of skills, or a list under the key `skills`. -/
def ofFile? : Value → Option (List Value)
  | .object members =>
    match Members.get? members "skills" with
    | some (.list entries) => some entries
    | _ => some [.object members]
  | .list entries => some entries
  | _ => none

end SkillEntry

end SkillPipeline
