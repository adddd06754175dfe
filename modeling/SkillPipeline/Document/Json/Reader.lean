import SkillPipeline.Document.Value
import SkillPipeline.Number.Reader

namespace SkillPipeline.Json

def isSpace (c : Char) : Bool := c = ' ' || c = '\n' || c = '\r' || c = '\t'

def skipSpace (s : List Char) : List Char := s.dropWhile isSpace

/-- The character of a surrogate pair, or the replacement character for half a pair. -/
def ofUnits (high low : Nat) : Char :=
  if 0xD800 ≤ high && high < 0xDC00 && 0xDC00 ≤ low && low < 0xE000 then
    Char.ofNat (0x10000 + (high - 0xD800) * 0x400 + (low - 0xDC00))
  else '\ufffd'

def isSurrogate (n : Nat) : Bool := 0xD800 ≤ n && n < 0xE000

/-- The rest of a string after its opening quote, with `text` read so far in reverse. -/
def readStringFrom (text : List Char) : List Char → Option (String × List Char)
  | [] => none
  | '"' :: rest => some (String.ofList text.reverse, rest)
  | '\\' :: 'u' :: a :: b :: c :: d :: '\\' :: 'u' :: e :: f :: g :: h :: rest =>
    match Number.radixValue 16 [a, b, c, d], Number.radixValue 16 [e, f, g, h] with
    | some high, some low =>
      if isSurrogate high then
        if 0xDC00 ≤ low && low < 0xE000 && high < 0xDC00 then
          readStringFrom (ofUnits high low :: text) rest
        else readStringFrom ('\ufffd' :: text) ('\\' :: 'u' :: e :: f :: g :: h :: rest)
      else readStringFrom (Char.ofNat high :: text) ('\\' :: 'u' :: e :: f :: g :: h :: rest)
    | _, _ => none
  | '\\' :: 'u' :: a :: b :: c :: d :: rest =>
    match Number.radixValue 16 [a, b, c, d] with
    | some n => readStringFrom ((if isSurrogate n then '\ufffd' else Char.ofNat n) :: text) rest
    | none => none
  | '\\' :: c :: rest =>
    match simpleEscape c with
    | some d => readStringFrom (d :: text) rest
    | none => none
  | c :: rest => if c.toNat < 32 || c = '\\' then none else readStringFrom (c :: text) rest
  termination_by s => s.length
where
  simpleEscape (c : Char) : Option Char :=
    if c = '"' || c = '\\' || c = '/' then some c
    else if c = 'n' then some '\n'
    else if c = 'r' then some '\r'
    else if c = 't' then some '\t'
    else if c = 'b' then some '\x08'
    else if c = 'f' then some '\x0c'
    else none

/-- Whether digits are a whole part: one digit, or more that do not start with zero. -/
def isWholePart : List Char → Bool
  | [] => false
  | ['0'] => true
  | c :: _ => c != '0'

def readNumber (s : List Char) : Option (Float × List Char) :=
  let (negative, s) := match s with
    | '-' :: r => (true, r)
    | r => (false, r)
  let whole := s.takeWhile Number.isDigit
  let rest := s.dropWhile Number.isDigit
  if !isWholePart whole then none
  else do
    let (fraction, rest) ← match rest with
      | '.' :: r =>
        if (r.takeWhile Number.isDigit).isEmpty then none
        else some (r.takeWhile Number.isDigit, r.dropWhile Number.isDigit)
      | r => some ([], r)
    let (exponent, rest) ← match rest with
      | 'e' :: r | 'E' :: r => readPower r
      | r => some (0, r)
    let x := Number.Decimal.toFloat
      ⟨Number.digitsValue (whole ++ fraction), exponent - fraction.length⟩
    some (if negative then -x else x, rest)
where
  readPower (r : List Char) : Option (Int × List Char) :=
    let (negative, r) := match r with
      | '-' :: r => (true, r)
      | '+' :: r => (false, r)
      | r => (false, r)
    let digits := r.takeWhile Number.isDigit
    if digits.isEmpty then none
    else
      let n : Int := Number.digitsValue digits
      some (if negative then -n else n, r.dropWhile Number.isDigit)

mutual

/-- A value and what follows it. Each step down spends fuel. -/
def readValue : Nat → List Char → Option (Value × List Char)
  | 0, _ => none
  | fuel + 1, s =>
    match skipSpace s with
    | '{' :: rest =>
      match skipSpace rest with
      | '}' :: rest => some (.object [], rest)
      | rest => readMembers fuel [] rest
    | '[' :: rest =>
      match skipSpace rest with
      | ']' :: rest => some (.list [], rest)
      | rest => readItems fuel [] rest
    | '"' :: rest => (readStringFrom [] rest).map fun (text, rest) => (.string text, rest)
    | 't' :: 'r' :: 'u' :: 'e' :: rest => some (.bool true, rest)
    | 'f' :: 'a' :: 'l' :: 's' :: 'e' :: rest => some (.bool false, rest)
    | 'n' :: 'u' :: 'l' :: 'l' :: rest => some (.null, rest)
    | rest => (readNumber rest).map fun (x, rest) => (.number x, rest)

def readMembers : Nat → Members Value → List Char → Option (Value × List Char)
  | 0, _, _ => none
  | fuel + 1, members, s =>
    match skipSpace s with
    | '"' :: rest =>
      match readStringFrom [] rest with
      | none => none
      | some (key, rest) =>
        match skipSpace rest with
        | ':' :: rest =>
          match readValue fuel rest with
          | none => none
          | some (value, rest) =>
            match skipSpace rest with
            | ',' :: rest => readMembers fuel (members.set key value) rest
            | '}' :: rest => some (.object (members.set key value), rest)
            | _ => none
        | _ => none
    | _ => none

def readItems : Nat → List Value → List Char → Option (Value × List Char)
  | 0, _, _ => none
  | fuel + 1, items, s =>
    match readValue fuel s with
    | none => none
    | some (value, rest) =>
      match skipSpace rest with
      | ',' :: rest => readItems fuel (value :: items) rest
      | ']' :: rest => some (.list (value :: items).reverse, rest)
      | _ => none

end

/-- The document that a text holds, if it is JSON by the strict grammar with white space around it.
Of two members with one key the later value stands, in the place of the first. -/
def parse (s : String) : Option Value :=
  let chars := s.toList
  match readValue (2 * chars.length + 2) chars with
  | some (value, rest) => if (skipSpace rest).isEmpty then some value else none
  | none => none

end SkillPipeline.Json
