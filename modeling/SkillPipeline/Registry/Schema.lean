import SkillPipeline.Parameter.Color
import SkillPipeline.Skill.Basic

namespace SkillPipeline

structure ParamSchema where
  types : List String
  description : String
  choices? : Option (List String) := none
  pattern? : Option String := none
  minimum? : Option Float := none
  maximum? : Option Float := none
  default? : Option ParamValue := none

namespace ParamSchema

def document (s : ParamSchema) : Value :=
  let types := match s.types with
    | [type] => .string type
    | types => .strings types
  .record [("type", types), ("description", .string s.description),
    ("enum", .ofOption .strings s.choices?), ("pattern", .ofOption .string s.pattern?),
    ("minimum", .ofOption .number s.minimum?), ("maximum", .ofOption .number s.maximum?),
    ("default", .ofOption ParamValue.document s.default?)]

end ParamSchema

namespace ParamType

def isBounded : ParamType → Bool
  | .int | .float | .time => true
  | .string | .bool | .enum | .color | .inherited _ => false

def schemaTypes : ParamType → List String
  | .int => ["integer"]
  | .float => ["number"]
  | .bool => ["boolean"]
  | .time => ["number", "string"]
  | .string | .enum | .color | .inherited _ => ["string"]

end ParamType

def ParameterSpec.schema (spec : ParameterSpec) : ParamSchema :=
  { types := spec.type.schemaTypes
    description := spec.description ++
      (if spec.type = .time then " (seconds or [HH:]MM:SS)" else "")
    choices? := if spec.type = .enum then some spec.choices else none
    pattern? := if spec.type = .color then some Color.publishedText else none
    minimum? := if spec.type.isBounded then spec.min? else none
    maximum? := if spec.type.isBounded then spec.max? else none
    default? := spec.default? }

structure SkillSchema where
  description : String
  properties : Members ParamSchema
  required : List String

def Skill.schema (s : Skill) : SkillSchema :=
  { description := s.description
    properties := Members.assigned (s.parameters.map fun spec => (spec.name, spec.schema))
    required := (s.parameters.filter (·.mustBeGiven)).map (·.name) }

namespace SkillSchema

def document (s : SkillSchema) : Value :=
  .record [("type", .string "object"), ("description", .string s.description),
    ("properties", .object (s.properties.map fun p => (p.1, p.2.document))),
    ("required", .strings s.required), ("additionalProperties", .bool false)]

end SkillSchema

def Schema.definitions (skills : List Skill) : Members SkillSchema :=
  Members.assigned (skills.map fun s => (s.name, s.schema))

/-- The schema of one step of a pipeline over these skills. -/
def Schema.document (skills : List Skill) : Value :=
  let definitions := Schema.definitions skills
  let names := definitions.map (·.1)
  .record [("type", .string "object"),
    ("properties", .record [
      ("skill", .record [("type", .string "string"), ("enum", .strings names)]),
      ("params", .record [("oneOf", .list (names.map fun name =>
        .record [("$ref", .string ("#/definitions/" ++ name))]))])]),
    ("definitions", .object (definitions.map fun p => (p.1, p.2.document))),
    ("required", .strings ["skill", "params"])]

end SkillPipeline
