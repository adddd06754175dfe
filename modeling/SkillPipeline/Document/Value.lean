import SkillPipeline.Document.Instant
import SkillPipeline.Document.Members
import SkillPipeline.Number.Notation

namespace SkillPipeline

/-- What a JSON or YAML document holds. `absent` is a member or item that is there by name or
position but has no value; a printed document leaves such a member out. -/
inductive Value where
  | null
  | bool (b : Bool)
  | number (n : Float)
  | string (s : String)
  | instant (t : Instant)
  | list (items : List Value)
  | object (members : List (String × Value))
  | absent
  deriving Inhabited

namespace Value

def isAbsent : Value → Bool
  | .absent => true
  | _ => false

def isMissing : Value → Bool
  | .absent | .null => true
  | _ => false

def typeName : Value → String
  | .null => "null"
  | .bool _ => "boolean"
  | .number n => if n.isNaN then "nan" else "number"
  | .string _ => "string"
  | .instant _ => "date"
  | .list _ => "array"
  | .object _ => "object"
  | .absent => "undefined"

/-- The broad kind of a value, by which lists, points in time and null count as objects. -/
def kindName : Value → String
  | .null | .instant _ | .list _ | .object _ => "object"
  | .bool _ => "boolean"
  | .number _ => "number"
  | .string _ => "string"
  | .absent => "undefined"

def isList : Value → Bool
  | .list _ => true
  | _ => false

def members? : Value → Option (Members Value)
  | .object m => some m
  | _ => none

def string? : Value → Option String
  | .string s => some s
  | _ => none

def number? : Value → Option Float
  | .number n => some n
  | _ => none

def member (v : Value) (key : String) : Value :=
  match v with
  | .object m => (Members.get? m key).getD .absent
  | _ => .absent

/-- An object from members, without those that are absent. -/
def record (members : List (String × Value)) : Value :=
  .object (Members.ofList (members.filter fun p => !p.2.isAbsent))

def strings (texts : List String) : Value := .list (texts.map .string)

def ofOption {α : Type} (f : α → Value) : Option α → Value
  | some a => f a
  | none => .absent

mutual

/-- The plain text of a value, as it stands in a message or is read as a word: a list is its items
with commas between them, a missing item is empty, and an object shows only that it is one. -/
def plainText : Value → String
  | .null => "null"
  | .absent => "undefined"
  | .bool b => if b then "true" else "false"
  | .number n => Number.text n
  | .string s => s
  | .instant t => t.text
  | .object _ => "[object Object]"
  | .list items => ",".intercalate (plainItems items)

def plainItems : List Value → List String
  | [] => []
  | v :: rest => (if v.isMissing then "" else plainText v) :: plainItems rest

end

mutual

/-- Whether a value has a plain text. An object that gives a member of its own for the method that
would show it has none, and neither has a list with such an item. -/
def hasText : Value → Bool
  | .object m => !Members.has m "toString"
  | .list items => itemsHaveText items
  | _ => true

def itemsHaveText : List Value → Bool
  | [] => true
  | v :: rest => hasText v && itemsHaveText rest

end

end Value

end SkillPipeline
