import SkillPipeline.Document.Value
import SkillPipeline.Text.Basic

namespace SkillPipeline

structure Issue where
  path : List String := []
  message : String
  deriving DecidableEq, Repr

def Issue.text (root : String) (i : Issue) : String :=
  (if i.path.isEmpty then root else Text.join "." i.path) ++ ": " ++ i.message

/-- Checking a value against a shape finds every issue. A value of the wrong type is rejected; one
of the right type whose content is at fault is only flawed, so checks of a whole object still run.
Issues come in the order of the fields, depth first. -/
inductive Verdict (α : Type) where
  | accepted (a : α)
  | flawed (a : α) (issues : List Issue)
  | rejected (issues : List Issue)

namespace Verdict

variable {α β : Type}

def issues : Verdict α → List Issue
  | .accepted _ => []
  | .flawed _ issues => issues
  | .rejected issues => issues

def map (f : α → β) : Verdict α → Verdict β
  | .accepted a => .accepted (f a)
  | .flawed a issues => .flawed (f a) issues
  | .rejected issues => .rejected issues

def combine (f : Verdict (α → β)) (a : Verdict α) : Verdict β :=
  match f, a with
  | .accepted f, a => a.map f
  | .flawed f fs, .accepted a => .flawed (f a) fs
  | .flawed f fs, .flawed a as => .flawed (f a) (fs ++ as)
  | .flawed _ fs, .rejected as => .rejected (fs ++ as)
  | .rejected fs, a => .rejected (fs ++ a.issues)

instance : Applicative Verdict where
  pure := .accepted
  seq f a := combine f (a ())

def under (key : String) (v : Verdict α) : Verdict α :=
  let place := List.map fun (i : Issue) => { i with path := key :: i.path }
  match v with
  | .accepted a => .accepted a
  | .flawed a issues => .flawed a (place issues)
  | .rejected issues => .rejected (place issues)

/-- One more issue of content, after those found. -/
def flagged (issue : Issue) : Verdict α → Verdict α
  | .accepted a => .flawed a [issue]
  | .flawed a issues => .flawed a (issues ++ [issue])
  | .rejected issues => .rejected (issues ++ [issue])

def toExcept : Verdict α → Except (List Issue) α
  | .accepted a => .ok a
  | .flawed _ issues => .error issues
  | .rejected issues => .error issues

end Verdict

abbrev Shape (α : Type) := Value → Verdict α

namespace Shape

variable {α β : Type}

def mismatch (expected : String) (v : Value) : Verdict α :=
  .rejected [⟨[], if v.isAbsent then "Required"
    else "Expected " ++ expected ++ ", received " ++ v.typeName⟩]

def string : Shape String
  | .string s => .accepted s
  | v => mismatch "string" v

def number : Shape Float
  | .number n => if n.isNaN then mismatch "number" (.number n) else .accepted n
  | v => mismatch "number" v

def bool : Shape Bool
  | .bool b => .accepted b
  | v => mismatch "boolean" v

def any : Shape Value := .accepted

/-- A check of content that follows the check of the type. -/
def also (test : α → Bool) (message : String) (s : Shape α) : Shape α := fun v =>
  match s v with
  | .accepted a => if test a then .accepted a else .flawed a [{ message }]
  | .flawed a issues => if test a then .flawed a issues else .flawed a (issues ++ [{ message }])
  | .rejected issues => .rejected issues

def nonEmpty : Shape String :=
  string.also (fun s => !s.isEmpty) "String must contain at least 1 character(s)"

def integer : Shape Float := number.also isWholeNumber "Expected integer, received float"
where
  isWholeNumber (n : Float) : Bool := n.isFinite && n.floor == n

def positive (s : Shape Float) : Shape Float :=
  s.also (fun n => n > 0) "Number must be greater than 0"

def atLeast (least : Nat) (s : Shape Float) : Shape Float :=
  s.also (fun n => n ≥ Float.ofNat least)
    ("Number must be greater than or equal to " ++ toString least)

def atMost (most : Nat) (s : Shape Float) : Shape Float :=
  s.also (fun n => n ≤ Float.ofNat most) ("Number must be less than or equal to " ++ toString most)

def optional (s : Shape α) : Shape (Option α)
  | .absent => .accepted none
  | v => (s v).map some

def orDefault (d : Value) (s : Shape α) : Shape α := fun v => s (if v.isAbsent then d else v)

def quotedNames (names : List String) : String :=
  Text.join " | " (names.map fun n => "'" ++ n ++ "'")

def oneOf (options : List (String × α)) : Shape α
  | .string s =>
    match options.lookup s with
    | some a => .accepted a
    | none =>
      let expected := quotedNames (options.map (·.1))
      .rejected [⟨[], s!"Invalid enum value. Expected {expected}, received '{s}'"⟩]
  | v => mismatch (quotedNames (options.map (·.1))) v

def itemsFrom (s : Shape α) (index : Nat) : List Value → Verdict (List α)
  | [] => .accepted []
  | v :: rest =>
    (((s v).under (toString index)).map List.cons).combine (itemsFrom s (index + 1) rest)

def list (s : Shape α) : Shape (List α)
  | .list items => itemsFrom s 0 items
  | v => mismatch "array" v

/-- A list that is not empty. The issue of length comes before those of the items. -/
def nonEmptyList (s : Shape α) : Shape (List α)
  | .list [] => .flawed [] [{ message := "Array must contain at least 1 element(s)" }]
  | v => list s v

def membersFrom (s : Shape α) : Members Value → Verdict (Members α)
  | [] => .accepted []
  | (key, v) :: rest =>
    (((s v).under key).map fun a rest => (key, a) :: rest).combine (membersFrom s rest)

/-- An object with any keys. Each member counts for the issues, but that under the key of the parent
does not become a member of what is accepted. -/
def record (s : Shape α) : Shape (Members α)
  | .object members => (membersFrom s members).map (List.filter (Members.isAssignable ·.1))
  | v => mismatch "object" v

def object (fields : Value → Verdict α) : Shape α
  | .object members => fields (.object members)
  | v => mismatch "object" v

def field (key : String) (s : Shape α) (v : Value) : Verdict α := (s (v.member key)).under key

def strict (known : List String) (s : Shape α) : Shape α := fun v =>
  match v with
  | .object members =>
    match (Members.keys members).filter fun key => !known.contains key with
    | [] => s v
    | extra =>
      let named := Text.join ", " (extra.map fun key => "'" ++ key ++ "'")
      (s v).flagged ⟨[], s!"Unrecognized key(s) in object: {named}"⟩
  | v => s v

def refine (test : α → Bool) (message : String) (path : List String) (s : Shape α) : Shape α :=
  fun v =>
    match s v with
    | .accepted a => if test a then .accepted a else .flawed a [{ path, message }]
    | .flawed a issues =>
      if test a then .flawed a issues else .flawed a (issues ++ [{ path, message }])
    | .rejected issues => .rejected issues

/-- A change of form that only a faultless value undergoes. -/
def convert (f : α → β) (s : Shape α) : Shape β := fun v =>
  match s v with
  | .accepted a => .accepted (f a)
  | .flawed _ issues => .rejected issues
  | .rejected issues => .rejected issues

/-- The first shape that accepts the value, or else the first that finds only flaws. -/
def union (shapes : List (Shape α)) : Shape α := fun v =>
  let verdicts := shapes.map fun s => s v
  match verdicts.find? isAccepted with
  | some verdict => verdict
  | none =>
    match verdicts.find? isFlawed with
    | some verdict => verdict
    | none => .rejected [{ message := "Invalid input" }]
where
  isAccepted : Verdict α → Bool
    | .accepted _ => true
    | _ => false
  isFlawed : Verdict α → Bool
    | .flawed .. => true
    | _ => false

end Shape

end SkillPipeline
