import SkillPipeline.Document.Value
import SkillPipeline.Text.Basic

namespace SkillPipeline

namespace Inherited

/-- An inherited member as a value. A method is no value of a document and stands as absent. -/
def value : Inherited → Value
  | .method _ => .absent
  | .parent => .object []

end Inherited

namespace Value

def ownMembers : Value → Members Value
  | .object m => m
  | .list items =>
    items.zipIdx.map (fun (v, i) => (toString i, v))
      ++ [("length", .number (Float.ofNat items.length))]
  | _ => []

def listMethodNames : List String := Text.splitAt ' ' <|
  "at concat copyWithin entries every fill filter find findIndex findLast findLastIndex flat "
    ++ "flatMap forEach includes indexOf join keys lastIndexOf map pop push reduce reduceRight "
    ++ "reverse shift slice some sort splice toReversed toSorted toSpliced unshift values with"

def instantMethodNames : List String := Text.splitAt ' ' <|
  "getDate getDay getFullYear getHours getMilliseconds getMinutes getMonth getSeconds getTime "
    ++ "getTimezoneOffset getUTCDate getUTCDay getUTCFullYear getUTCHours getUTCMilliseconds "
    ++ "getUTCMinutes getUTCMonth getUTCSeconds getYear setDate setFullYear setHours "
    ++ "setMilliseconds setMinutes setMonth setSeconds setTime setUTCDate setUTCFullYear "
    ++ "setUTCHours setUTCMilliseconds setUTCMinutes setUTCMonth setUTCSeconds setYear "
    ++ "toDateString toGMTString toISOString toJSON toLocaleDateString toLocaleTimeString "
    ++ "toTimeString "
    ++ "toUTCString"

/-- The methods that a value has besides those of every object. -/
def methodNames : Value → List String
  | .list _ => listMethodNames
  | .instant _ => instantMethodNames
  | _ => []

def present? (v : Value) : Option Value := if v.isMissing then none else some v

end Value

/-- What a record inherits from: the common parent, nothing, or a value. -/
inductive Parent where
  | common
  | none
  | value (v : Value)

namespace Parent

def read (parent : Parent) (key : String) : Option Value :=
  match parent with
  | .common => (Inherited.find? key).map (·.value)
  | .none => Option.none
  | .value v =>
    match v.ownMembers.get? key with
    | some inherited => inherited.present?
    | Option.none =>
      if key = Inherited.parentKey then some v
      else if v.methodNames.contains key || Inherited.methodNames.contains key then some .absent
      else Option.none

/-- Whether the key of the parent is inherited as such. -/
def isReachable : Parent → Bool
  | .common => true
  | .none => false
  | .value v => !v.ownMembers.has Inherited.parentKey

/-- The parent after a value has been assigned to it. Only objects, lists and the like can be
inherited from; null ends all inheritance. -/
def replacedBy (parent : Parent) : Value → Parent
  | .null => .none
  | .object m => .value (.object m)
  | .list items => .value (.list items)
  | .instant t => .value (.instant t)
  | _ => parent

end Parent

/-- An object whose members are read and assigned in place. A key that is no member of the object
itself is looked up in its parent, and assigning to the key of the parent changes the parent, as
long as that key is still inherited. -/
structure Record where
  own : Members Value
  parent : Parent := .common

namespace Record

def read (r : Record) (key : String) : Option Value :=
  match r.own.get? key with
  | some v => v.present?
  | none => r.parent.read key

/-- Whether assigning to a key changes the parent. -/
def redirects (r : Record) (key : String) : Bool :=
  key == Inherited.parentKey && !r.own.has key && r.parent.isReachable

def assign (r : Record) (key : String) (v : Value) : Record :=
  if r.redirects key then { r with parent := r.parent.replacedBy v }
  else { r with own := r.own.set key v }

def erase (r : Record) (key : String) : Record := { r with own := r.own.erase key }

end Record

end SkillPipeline
