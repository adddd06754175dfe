import SkillPipeline.Number.Reader
import SkillPipeline.Text.Basic

namespace SkillPipeline

inductive OptionKind where
  | switch
  /-- Takes a text; `placeholder` stands for it in messages. -/
  | text (placeholder : String)
  /-- Takes a finite number. -/
  | number (placeholder : String)
  /-- Asks for the version and nothing else. -/
  | version
  deriving DecidableEq, Repr

/-- An option has a long name and perhaps a short one, and may take a value: the next argument, what
follows `=` after a long name, or what follows a short name directly. Options may stand anywhere. -/
structure OptionSpec where
  long : String
  short? : Option String := none
  kind : OptionKind := .switch
  deriving DecidableEq, Repr

namespace OptionSpec

def takesValue (o : OptionSpec) : Bool :=
  match o.kind with
  | .text _ | .number _ => true
  | .switch | .version => false

def usage (o : OptionSpec) : String :=
  let names := Text.join ", " (o.short?.toList ++ [o.long])
  match o.kind with
  | .text placeholder | .number placeholder => names ++ " " ++ placeholder
  | .switch | .version => names

def hasName (o : OptionSpec) (name : String) : Bool := o.long == name || o.short? == some name

end OptionSpec

/-- Why the arguments are not understood, or why nothing is to be done. -/
inductive Stop where
  | version
  | missingValue (option : OptionSpec)
  | notNumber (option : OptionSpec) (value : String)
  | unknownOption (flag : String) (similar : List String)
  | unknownCommand (name : String) (similar : List String)
  | missingArgument (name : String)
  | noCommand
  deriving DecidableEq, Repr

namespace Stop

def suggestion : List String → String
  | [] => ""
  | [one] => s!"\n(Did you mean {one}?)"
  | several => "\n(Did you mean one of " ++ Text.join ", " several ++ "?)"

def message? : Stop → Option String
  | .version | .noCommand => none
  | .missingValue option => some s!"error: option '{option.usage}' argument missing"
  | .notNumber option value =>
    some s!"error: option '{option.usage}' argument '{value}' is invalid. Not a number."
  | .unknownOption flag similar => some (s!"error: unknown option '{flag}'" ++ suggestion similar)
  | .unknownCommand name similar =>
    some (s!"error: unknown command '{name}'" ++ suggestion similar)
  | .missingArgument name => some s!"error: missing required argument '{name}'"

end Stop

def numberArgument? (s : String) : Option Float := (Number.read s).filter Float.isFinite

/-- Arguments sorted into options with their values, operands, and what was not understood. -/
structure Arguments where
  given : List (OptionSpec × String) := []
  operands : List String := []
  unknown : List String := []

namespace Arguments

def give (a : Arguments) (option : OptionSpec) (value : String) : Except Stop Arguments :=
  match option.kind with
  | .version => .error .version
  | .number _ =>
    if (numberArgument? value).isSome then .ok { a with given := a.given ++ [(option, value)] }
    else .error (.notNumber option value)
  | .switch | .text _ => .ok { a with given := a.given ++ [(option, value)] }

def looksLikeOption (arg : String) : Bool := Text.startsWith arg "-" && arg != "-"

/-- From the first unknown option on, everything that is not known is left to the next reader. -/
def setAside (a : Arguments) (arg : String) : Arguments :=
  if looksLikeOption arg || !a.unknown.isEmpty then { a with unknown := a.unknown ++ [arg] }
  else { a with operands := a.operands ++ [arg] }

/-- What follows `--` is no option. -/
def setAllAside (a : Arguments) (rest : List String) : Arguments :=
  if a.unknown.isEmpty then { a with operands := a.operands ++ rest }
  else { a with unknown := a.unknown ++ "--" :: rest }

def shortWithValue? (options : List OptionSpec) (arg : String) : Option (OptionSpec × String) :=
  match arg.toList with
  | '-' :: c :: rest =>
    if c = '-' || rest.isEmpty then none
    else (options.find? (·.hasName (String.ofList ['-', c]))).map (·, String.ofList rest)
  | _ => none

def longWithValue? (options : List OptionSpec) (arg : String) : Option (OptionSpec × String) :=
  let name := arg.toList.takeWhile (· != '=')
  match arg.toList.dropWhile (· != '=') with
  | '=' :: value =>
    if name.length ≤ 2 || !Text.startsWith arg "--" then none
    else ((options.find? (·.hasName (String.ofList name))).filter (·.takesValue)).map
      (·, String.ofList value)
  | _ => none

def sort (options : List OptionSpec) (a : Arguments) : List String → Except Stop Arguments
  | [] => .ok a
  | arg :: rest =>
    if arg = "--" then .ok (a.setAllAside rest)
    else match (options.find? (·.hasName arg)).filter fun _ => looksLikeOption arg with
      | some option =>
        if option.takesValue then
          match rest with
          | [] => .error (.missingValue option)
          | value :: rest => do sort options (← a.give option value) rest
        else do sort options (← a.give option "") rest
      | none =>
        match (shortWithValue? options arg).or (longWithValue? options arg) with
        | some (option, value) => do sort options (← a.give option value) rest
        | none => sort options (a.setAside arg) rest

def values (a : Arguments) (long : String) : List String :=
  (a.given.filter (·.1.long == long)).map (·.2)

def value? (a : Arguments) (long : String) : Option String := (a.values long).getLast?

def number? (a : Arguments) (long : String) : Option Float :=
  (a.value? long).bind numberArgument?

def has (a : Arguments) (long : String) : Bool := (a.value? long).isSome

end Arguments

end SkillPipeline

namespace SkillPipeline.Suggestion

/-- Whether at most `k` edits turn one text into the other. -/
def within (k : Nat) : List Char → List Char → Bool
  | [], b => b.length ≤ k
  | a, [] => a.length ≤ k
  | x :: a, y :: b =>
    if x = y then within k a b
    else match k with
      | 0 => false
      | k + 1 =>
        within k a (y :: b) || within k (x :: a) b || within k a b ||
          match a, b with
          | x' :: a', y' :: b' => x = y' && x' = y && within k a' b'
          | _, _ => false
  termination_by a b => a.length + b.length

def reach : Nat := 3

def distance? (a b : List Char) : Option Nat :=
  (List.range (reach + 1)).find? fun k => within k a b

def likeness? (name candidate : List Char) : Option Nat :=
  if candidate.length ≤ 1 then none
  else
    let length := max name.length candidate.length
    (distance? name candidate).filter fun k => 4 * length < 10 * (length - k)

/-- The candidates that are nearest to a name among those that resemble it, in ascending order. -/
def nearest (name : String) (candidates : List String) : List String :=
  let rated := candidates.eraseDups.filterMap fun c =>
    (likeness? name.toList c.toList).map (·, c)
  match (rated.map (·.1)).min? with
  | none => []
  | some best => Text.sort ((rated.filter (·.1 == best)).map (·.2))

/-- The long options that are nearest to a flag; a short flag resembles none. -/
def nearestOptions (flag : String) (options : List String) : List String :=
  match flag.toList with
  | '-' :: '-' :: name =>
    (nearest (String.ofList name) (options.map fun o => String.ofList (o.toList.drop 2))).map
      ("--" ++ ·)
  | _ => []

end SkillPipeline.Suggestion
