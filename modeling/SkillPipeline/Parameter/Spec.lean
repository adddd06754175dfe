import SkillPipeline.Document.Json.Printer
import SkillPipeline.Document.Record
import SkillPipeline.Text.Lowercase

namespace SkillPipeline

inductive ParamType where
  | int
  | float
  | string
  | bool
  | enum
  | time
  | color
  | inherited (m : Inherited)
  deriving DecidableEq, Repr

namespace ParamType

def name : ParamType → String
  | .int => "int"
  | .float => "float"
  | .string => "string"
  | .bool => "bool"
  | .enum => "enum"
  | .time => "time"
  | .color => "color"
  | .inherited m => m.text

/-- The words by which a skill file may name a type. The table is looked up like any object, so a
word for something that every object inherits gives a type too. No value is ever made to fit such a
type: checking one leaves the parameter unset. -/
def words : List (String × ParamType) := [
  ("int", .int), ("integer", .int), ("float", .float), ("number", .float), ("string", .string),
  ("str", .string), ("bool", .bool), ("boolean", .bool), ("enum", .enum), ("choice", .enum),
  ("time", .time), ("color", .color), ("colour", .color)]

def ofWord? (word : String) : Option ParamType :=
  match Members.find words (Text.lower word) with
  | .own type => some type
  | .inherited m => some (.inherited m)
  | .nothing => none

/-- Whether the type is one of those that values are checked against. -/
def isKnown : ParamType → Bool
  | .inherited _ => false
  | _ => true

def document : ParamType → Value
  | .inherited m => m.value
  | type => .string type.name

end ParamType

/-- The value of a parameter. One that is unset is there by name only. -/
inductive ParamValue where
  | text (s : String)
  | number (n : Float)
  | flag (b : Bool)
  | unset

namespace ParamValue

def shown : ParamValue → String
  | .text s => s
  | .number n => Number.text n
  | .flag b => if b then "true" else "false"
  | .unset => "undefined"

def document : ParamValue → Value
  | .text s => .string s
  | .number n => .number n
  | .flag b => .bool b
  | .unset => .absent

def isSet : ParamValue → Bool
  | .unset => false
  | _ => true

def ofValue? : Value → Option ParamValue
  | .string s => some (.text s)
  | .number n => some (.number n)
  | .bool b => some (.flag b)
  | _ => none

end ParamValue

/-- A declared parameter. Bounds hold for numbers and times, choices for an enumeration. -/
structure ParameterSpec where
  name : String
  type : ParamType
  description : String := ""
  required : Bool := false
  default? : Option ParamValue := none
  min? : Option Float := none
  max? : Option Float := none
  choices? : Option (List String) := none
  aliases : List String := []

namespace ParameterSpec

def choices (spec : ParameterSpec) : List String := spec.choices?.getD []

def mustBeGiven (spec : ParameterSpec) : Bool := spec.required && spec.default?.isNone

def document (spec : ParameterSpec) : Value :=
  .record [("name", .string spec.name), ("type", spec.type.document),
    ("description", .string spec.description), ("required", .bool spec.required),
    ("default", .ofOption ParamValue.document spec.default?),
    ("min", .ofOption .number spec.min?), ("max", .ofOption .number spec.max?),
    ("choices", .ofOption .strings spec.choices?), ("aliases", .strings spec.aliases)]

end ParameterSpec

end SkillPipeline
