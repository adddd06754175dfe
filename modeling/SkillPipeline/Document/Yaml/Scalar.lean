import SkillPipeline.Document.Instant
import SkillPipeline.Document.Yaml.Cursor
import SkillPipeline.Number.Reader
import SkillPipeline.Document.Value

namespace SkillPipeline.Yaml.Timestamp

def digits? (least most : Nat) (s : List Char) : Option (Nat × List Char) :=
  let digits := (s.take most).takeWhile Number.isDigit
  if digits.length < least then none
  else some (Number.digitsValue digits, s.drop digits.length)

def behind? (c : Char) : List Char → Option (List Char)
  | x :: rest => if x = c then some rest else none
  | [] => none

def day? (least : Nat) (s : List Char) : Option (Instant × List Char) := do
  let (year, s) ← digits? 4 4 s
  let (month, s) ← digits? least 2 (← behind? '-' s)
  let (day, s) ← digits? least 2 (← behind? '-' s)
  return (Instant.startOfDay year month day, s)

/-- What stands between a date and the time of day: a letter, or at least one space. -/
def timeMark? : List Char → Option (List Char)
  | 'T' :: rest => some rest
  | 't' :: rest => some rest
  | x :: rest => if isSpace x then some (rest.dropWhile isSpace) else none
  | [] => none

def clock? (s : List Char) : Option (Nat × List Char) := do
  let (hours, s) ← digits? 1 2 s
  let (minutes, s) ← digits? 2 2 (← behind? ':' s)
  let (seconds, s) ← digits? 2 2 (← behind? ':' s)
  return (1000 * (3600 * hours + 60 * minutes + seconds), s)

/-- The milliseconds of a fraction of a second, of which three digits count. -/
def fraction : List Char → Nat × List Char
  | '.' :: rest =>
    let digits := rest.takeWhile Number.isDigit
    (Number.digitsValue ((digits ++ ['0', '0', '0']).take 3), rest.drop digits.length)
  | s => (0, s)

/-- How many milliseconds a place is ahead of the meridian, by the mark at the end of a time. -/
def zone? : List Char → Option Int
  | [] => some 0
  | s =>
    match s.dropWhile isSpace with
    | ['Z'] => some 0
    | sign :: rest => do
      let (hours, rest) ← digits? 1 2 rest
      let (minutes, rest) ← if rest.isEmpty then some (0, []) else
        (behind? ':' rest).bind (digits? 2 2)
      let ahead : Int := 60000 * (60 * hours + minutes)
      if !rest.isEmpty then none
      else if sign = '+' then some ahead
      else if sign = '-' then some (-ahead)
      else none
    | [] => none

def date? (s : List Char) : Option Instant := do
  let (day, rest) ← day? 2 s
  if rest.isEmpty then some day else none

def moment? (s : List Char) : Option Instant := do
  let (day, s) ← day? 1 s
  let (millis, s) ← clock? (← timeMark? s)
  let (part, s) := fraction s
  let ahead ← zone? s
  return day.later (millis + part - ahead)

/-- The point in time that a text stands for. -/
def read? (text : String) : Option Instant := (date? text.toList).or (moment? text.toList)

end SkillPipeline.Yaml.Timestamp

namespace SkillPipeline.Yaml

def nullWords : List String := ["~", "null", "Null", "NULL"]

def trueWords : List String := ["true", "True", "TRUE"]

def falseWords : List String := ["false", "False", "FALSE"]

def infinityWords : List String := [".inf", ".Inf", ".INF"]

def nanWords : List String := [".nan", ".NaN", ".NAN"]

/-- The plain text that announces a merge where it is a key. -/
def mergeWord : String := "<<"

def readBool? (text : String) : Option Bool :=
  if trueWords.contains text then some true
  else if falseWords.contains text then some false
  else none

def splitSign : List Char → Bool × List Char
  | '-' :: rest => (true, rest)
  | '+' :: rest => (false, rest)
  | rest => (false, rest)

/-- An unsigned integer in one of four bases. -/
def readMagnitude : List Char → Option Nat
  | '0' :: 'x' :: digits => Number.radixValue 16 digits
  | '0' :: 'o' :: digits => Number.radixValue 8 digits
  | '0' :: 'b' :: digits => Number.radixValue 2 digits
  | digits => Number.radixValue 10 digits

/-- A zero of one digit has no sign. -/
def readInteger? (text : String) : Option Float :=
  let (negative, digits) := splitSign text.toList
  let value := (readMagnitude digits).map fun n =>
    let x := Number.Decimal.toFloat ⟨n, 0⟩
    if negative && digits != ['0'] then -x else x
  value.filter Float.isFinite

def isExponent (s : List Char) : Bool :=
  match s with
  | [] => true
  | e :: rest =>
    let digits := (splitSign rest).2
    (e = 'e' || e = 'E') && !digits.isEmpty && digits.all Number.isDigit

def isDecimal (s : List Char) : Bool :=
  match s with
  | c :: _ =>
    Number.isDigit c &&
      match s.dropWhile Number.isDigit with
      | '.' :: rest => isExponent (rest.dropWhile Number.isDigit)
      | rest => isExponent rest
  | [] => false

/-- Whether a text is a fraction without a whole part; it has no sign. -/
def isFraction (s : List Char) : Bool :=
  match s with
  | '.' :: c :: rest => Number.isDigit c && isExponent (rest.dropWhile Number.isDigit)
  | _ => false

def readFloat? (text : String) : Option Float :=
  let (negative, digits) := splitSign text.toList
  if infinityWords.contains (String.ofList digits) then
    some (if negative then -1 / 0 else 1 / 0)
  else if nanWords.contains text then some (0 / 0)
  else if isDecimal digits || isFraction text.toList then
    (Number.read text).filter Float.isFinite
  else none

def scalarValue (text : String) : Value :=
  if nullWords.contains text then .null
  else match readBool? text, (readInteger? text).or (readFloat? text), Timestamp.read? text with
    | some b, _, _ => .bool b
    | none, some n, _ => .number n
    | none, none, some t => .instant t
    | none, none, none => .string text

end SkillPipeline.Yaml
