import SkillPipeline.Number.Shortest
import SkillPipeline.Text.Basic

namespace SkillPipeline.Number

def digitValue (c : Char) : Option Nat :=
  if '0' ≤ c ∧ c ≤ '9' then some (c.toNat - '0'.toNat)
  else if 'a' ≤ c ∧ c ≤ 'f' then some (c.toNat - 'a'.toNat + 10)
  else if 'A' ≤ c ∧ c ≤ 'F' then some (c.toNat - 'A'.toNat + 10)
  else none

def isDigit (c : Char) : Bool := '0' ≤ c && c ≤ '9'

def digitsValue (digits : List Char) : Nat :=
  digits.foldl (fun n c => 10 * n + (c.toNat - '0'.toNat)) 0

/-- The value of digits in a base of at most 16, of which there must be one at least. -/
def radixValue (base : Nat) : List Char → Option Nat
  | [] => none
  | digits => digits.foldl (extend base) (some 0)
where
  extend (base : Nat) (value : Option Nat) (c : Char) : Option Nat := do
    let n ← value
    let d ← digitValue c
    if d < base then some (base * n + d) else none

/-- The double nearest to a decimal. Decimals far outside the range of doubles are recognised by
their size alone, so no huge power of ten is formed. -/
def Decimal.toFloat (d : Decimal) : Float :=
  if d.digits = 0 then 0
  else
    let size := (digitsCount d.digits : Int) + d.exponent
    if size > 400 then 1 / 0
    else if size < -400 then 0
    else Float.ofScientific d.digits (d.exponent < 0) d.exponent.natAbs
where
  digitsCount (n : Nat) : Nat := (Nat.toDigits 10 n).length

/-- An exponent part: nothing, or `e` with an optional sign and digits. -/
def readExponent : List Char → Option Int
  | [] => some 0
  | e :: rest =>
    if e = 'e' ∨ e = 'E' then
      let (negative, digits) := match rest with
        | '-' :: r => (true, r)
        | '+' :: r => (false, r)
        | r => (false, r)
      if digits.isEmpty || !digits.all isDigit then none
      else some (if negative then -(digitsValue digits : Int) else digitsValue digits)
    else none

def readDecimal (s : List Char) : Option Decimal :=
  let whole := s.takeWhile isDigit
  let rest := s.dropWhile isDigit
  let (fraction, rest) := match rest with
    | '.' :: r => (r.takeWhile isDigit, r.dropWhile isDigit)
    | r => ([], r)
  if whole.isEmpty && fraction.isEmpty then none
  else (readExponent rest).map fun e => ⟨digitsValue (whole ++ fraction), e - fraction.length⟩

def readMagnitude (s : List Char) : Option Float :=
  if s = "Infinity".toList then some (1 / 0) else (readDecimal s).map Decimal.toFloat

def readChars : List Char → Option Float
  | '0' :: 'x' :: r | '0' :: 'X' :: r => (radixValue 16 r).map fun n => Decimal.toFloat ⟨n, 0⟩
  | '0' :: 'o' :: r | '0' :: 'O' :: r => (radixValue 8 r).map fun n => Decimal.toFloat ⟨n, 0⟩
  | '0' :: 'b' :: r | '0' :: 'B' :: r => (radixValue 2 r).map fun n => Decimal.toFloat ⟨n, 0⟩
  | '-' :: r => (readMagnitude r).map fun x => -x
  | '+' :: r => readMagnitude r
  | r => readMagnitude r

/-- The number that a text stands for after trimming: an optionally signed decimal with an optional
fraction and exponent (digits may be missing on one side of the point), an optionally signed
`Infinity`, or an unsigned hexadecimal, octal or binary integer. Blank text is not a number here. -/
def read (s : String) : Option Float := readChars (Text.trimChars s.toList)

end SkillPipeline.Number
