namespace SkillPipeline

inductive Inherited where
  | method (name : String)
  | parent
  deriving DecidableEq, Repr

namespace Inherited

/-- The key under which an object gives its parent. -/
def parentKey : String := "__proto__"

def methodNames : List String :=
  ["constructor", "hasOwnProperty", "isPrototypeOf", "propertyIsEnumerable", "toLocaleString",
   "toString", "valueOf", "__defineGetter__", "__defineSetter__", "__lookupGetter__",
   "__lookupSetter__"]

def find? (key : String) : Option Inherited :=
  if key = parentKey then some .parent
  else if methodNames.contains key then some (.method key)
  else none

def kindName : Inherited → String
  | .method _ => "function"
  | .parent => "object"

/-- What shows of an inherited member where a text is wanted. -/
def text : Inherited → String
  | .method name =>
    let shown := if name = "constructor" then "Object" else name
    "function " ++ shown ++ "() \x7b [native code] \x7d"
  | .parent => "[object Object]"

end Inherited

/-- What a look-up of a key leads to. It finds more than an object's own members: every object
inherits some from a common parent, and its parent itself stands under a key. -/
inductive Found (α : Type) where
  | own (value : α)
  | inherited (m : Inherited)
  | nothing
  deriving DecidableEq, Repr

/-- The keys of an object with their values, in the order in which a reader of the object meets
them. Keys that are array indices come first, in ascending order; all others keep the order in which
they were first set. -/
abbrev Members (α : Type) := List (String × α)

namespace Members

variable {α : Type}

/-- The largest array index is one below this. -/
def indexLimit : Nat := 4294967295

/-- The array index that a key spells: decimal digits without a zero in front. -/
def index? (key : String) : Option Nat :=
  match key.toList with
  | [] => none
  | c :: rest =>
    if (c :: rest).all Char.isDigit && (c != '0' || rest.isEmpty) then
      let n := (c :: rest).foldl (fun n d => 10 * n + (d.toNat - '0'.toNat)) 0
      if n < indexLimit then some n else none
    else none

def get? (m : Members α) (key : String) : Option α := List.lookup key m

def find (m : Members α) (key : String) : Found α :=
  match m.get? key with
  | some value => .own value
  | none =>
    match Inherited.find? key with
    | some inherited => .inherited inherited
    | none => .nothing

def has (m : Members α) (key : String) : Bool := m.any (·.1 == key)

def keys (m : Members α) : List String := m.map (·.1)

def erase (m : Members α) (key : String) : Members α := m.filter (·.1 != key)

def isBelow (i : Nat) (key : String) : Bool :=
  match index? key with
  | some j => j < i
  | none => false

/-- A key that is not there yet goes to its place in the order. -/
def insertNew (m : Members α) (key : String) (value : α) : Members α :=
  match index? key with
  | none => m ++ [(key, value)]
  | some i =>
    m.takeWhile (isBelow i ·.1) ++ (key, value) :: m.dropWhile (isBelow i ·.1)

/-- Sets a key; one that is there already keeps its place. -/
def set (m : Members α) (key : String) (value : α) : Members α :=
  if m.has key then m.map fun p => if p.1 == key then (key, value) else p
  else m.insertNew key value

def ofList (pairs : List (String × α)) : Members α := pairs.foldl (fun m p => m.set p.1 p.2) []

/-- Whether assigning to a key of a new object makes it a member; the key of the parent does not
become one. -/
def isAssignable (key : String) : Bool := key != Inherited.parentKey

def assigned (pairs : List (String × α)) : Members α := ofList (pairs.filter (isAssignable ·.1))

end Members

end SkillPipeline
