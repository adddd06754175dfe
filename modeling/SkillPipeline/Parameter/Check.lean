import SkillPipeline.Text.Basic
import SkillPipeline.Text.Lowercase
import SkillPipeline.Document.Value
import SkillPipeline.Fault
import SkillPipeline.Journal.Notice
import SkillPipeline.Parameter.Color
import SkillPipeline.Parameter.Spec
import SkillPipeline.Parameter.TimeText

namespace SkillPipeline.Choice

def tests : List (List Char → List Char → Bool) :=
  [fun wanted choice => choice == wanted,
   fun wanted choice => wanted.isPrefixOf choice,
   fun wanted choice => Text.occursIn wanted choice]

def hits (test : List Char → List Char → Bool) (wanted : List Char) (choices : List String) :
    List String :=
  choices.filter fun choice => test wanted (Text.lowerChars choice.toList)

/-- The only choice that passes the first test which exactly one choice passes. -/
def firstUnique (wanted : List Char) (choices : List String) :
    List (List Char → List Char → Bool) → Option String
  | [] => none
  | test :: rest =>
    match hits test wanted choices with
    | [choice] => some choice
    | _ => firstUnique wanted choices rest

/-- The choice that a text means. Equality, a common beginning and an occurrence are tried in turn,
all ignoring case; a test settles the matter only if exactly one choice passes it. -/
def find? (text : String) (choices : List String) : Option String :=
  let wanted := Text.lowerChars (Text.trimChars text.toList)
  if wanted.isEmpty then none else firstUnique wanted choices tests

end SkillPipeline.Choice

namespace SkillPipeline.ParameterSpec

def numberOf? : Value → Option Float
  | .number n => if n.isFinite then some n else none
  | .string s => (Number.read s).filter Float.isFinite
  | _ => none

def checkBounds (spec : ParameterSpec) (n : Float) : Except Rejection Unit :=
  match spec.min?, spec.max? with
  | some least, most? =>
    if n < least then .error (.belowMinimum least n) else upper most?
  | none, most? => upper most?
where
  upper : Option Float → Except Rejection Unit
    | some most => if n > most then .error (.aboveMaximum most n) else .ok ()
    | none => .ok ()

def trueWords : List String := ["true", "1", "yes", "on"]

def falseWords : List String := ["false", "0", "no", "off"]

def switchOf? (v : Value) : Option Bool :=
  match v with
  | .bool b => some b
  | v =>
    let word := Text.lower (Text.trim v.plainText)
    if trueWords.contains word then some true
    else if falseWords.contains word then some false
    else none

def checkTime (spec : ParameterSpec) : Value → Except Rejection ParamValue
  | .number n =>
    if !n.isFinite || n < 0 then .error .negativeSeconds
    else (spec.checkBounds n).map fun _ => .number n
  | .string s =>
    match TimeText.parse Float s with
    | none => .error (.notClock s)
    | some n => (spec.checkBounds n).map fun _ => .text (Text.trim s)
  | _ => .error .notTime

def checkChoice (spec : ParameterSpec) (text : String) : Except Rejection ParamValue :=
  if spec.choices.contains text then .ok (.text text)
  else match Choice.find? text spec.choices with
    | some choice => .ok (.text choice)
    | none => .error (.notChoice text spec.choices)

/-- The value in the form of its type, or the reason why it does not fit. -/
def fit (spec : ParameterSpec) (v : Value) : Except Rejection ParamValue :=
  match spec.type with
  | .int =>
    match numberOf? v with
    | none => .error (.notInteger (Json.shown v))
    | some n =>
      if Number.isWhole n then (spec.checkBounds n).map fun _ => .number n
      else .error (.notInteger (Json.shown v))
  | .float =>
    match numberOf? v with
    | none => .error (.notNumber (Json.shown v))
    | some n => (spec.checkBounds n).map fun _ => .number n
  | .time => spec.checkTime v
  | .bool =>
    match switchOf? v with
    | some b => .ok (.flag b)
    | none => .error (.notBoolean (Json.shown v))
  | .string =>
    match ParamValue.ofValue? v with
    | some value => .ok (.text value.shown)
    | none => .error .notText
  | .color =>
    match v with
    | .string s =>
      if Color.isColor (Text.trim s) then .ok (.text (Text.trim s))
      else .error (.notColor (Json.shown v))
    | _ => .error (.notColor (Json.shown v))
  | .enum =>
    match v with
    | .string s => spec.checkChoice s
    | .number n => spec.checkChoice (Number.text n)
    | _ => .error (.notChoiceText spec.choices)
  | .inherited _ => .ok .unset

def completion (skill : String) (spec : ParameterSpec) (given : String) : ParamValue → List Notice
  | .text choice =>
    if given = choice then []
    else [{ level := .warn, message := "Autocorrected enum parameter",
            fields := [("skill", .string skill), ("param", .string spec.name),
              ("from", .string given), ("to", .string choice)] }]
  | _ => []

def check (skill : String) (spec : ParameterSpec) (v : Value) :
    Except ParameterFault (ParamValue × List Notice) :=
  match spec.fit v with
  | .error why => .error ⟨skill, spec.name, why⟩
  | .ok value =>
    let notices := if spec.type = .enum then completion skill spec v.plainText value else []
    .ok (value, notices)

/-- Whether finding out if the value fits takes a plain text that it does not have. -/
def isUnreadable (spec : ParameterSpec) (v : Value) : Bool := spec.type == .bool && !v.hasText

def validate (skill : String) (spec : ParameterSpec) (v : Value) :
    Except Fault (ParamValue × List Notice) :=
  if spec.isUnreadable v then .error (.exception .noText)
  else match spec.check skill v with
    | .error f => .error (.validation (.rejected f))
    | .ok checked => .ok checked

end SkillPipeline.ParameterSpec
