import SkillPipeline.Number.Shortest

namespace SkillPipeline.Number

def digitChars (n : Nat) : List Char := Nat.toDigits 10 n

/-- Where positional notation ends: the point may stand at most `21` places right of the first
digit, and at most five zeros may stand between the point and the first digit. -/
def positional (point : Int) : Bool := -6 < point && point ≤ 21

/-- The digits with the point after the first `point` of them, filled up with zeros. -/
def placePoint (digits : List Char) (point : Int) : List Char :=
  if point ≤ 0 then '0' :: '.' :: List.replicate (-point).toNat '0' ++ digits
  else if digits.length ≤ point.toNat then
    digits ++ List.replicate (point.toNat - digits.length) '0'
  else digits.take point.toNat ++ '.' :: digits.drop point.toNat

def placeExponent (digits : List Char) (point : Int) : List Char :=
  let exponent := point - 1
  let sign := if exponent < 0 then '-' else '+'
  digits.take 1 ++ (if digits.length ≤ 1 then [] else '.' :: digits.drop 1)
    ++ 'e' :: sign :: digitChars exponent.natAbs

def Decimal.chars (d : Decimal) : List Char :=
  let digits := digitChars d.digits
  let point := d.exponent + digits.length
  if positional point then placePoint digits point else placeExponent digits point

/-- A number is written with its shortest digits: positionally from `10^(-6)` up to `10^21`,
otherwise with one digit before the point and a signed exponent. Both zeros are `0`. -/
def text (x : Float) : String :=
  match reading x with
  | .undefined => "NaN"
  | .infinite negative => if negative then "-Infinity" else "Infinity"
  | .finite b =>
    if b.mantissa = 0 then "0"
    else String.ofList ((if b.negative then ['-'] else []) ++ b.shortest.chars)

end SkillPipeline.Number

namespace SkillPipeline.Number

/-- The quotient rounded to the nearest integer, a half upwards. -/
def roundHalfUp (numerator denominator : Nat) : Nat :=
  (2 * numerator + denominator) / (2 * denominator)

def placesChars (places count : Nat) : List Char :=
  let digits := digitChars count
  let padded := List.replicate (places + 1 - digits.length) '0' ++ digits
  if places = 0 then padded
  else padded.take (padded.length - places) ++ '.' :: padded.drop (padded.length - places)

def Binary.fixedChars (b : Binary) (places : Nat) : List Char :=
  let (numerator, denominator) := b.ratio
  (if b.negative && b.mantissa != 0 then ['-'] else [])
    ++ placesChars places (roundHalfUp (numerator * Nat.pow 10 places) denominator)

def fixedText (x : Float) (places : Nat) : String :=
  match reading x with
  | .finite b =>
    if b.ratio.1 < Nat.pow 10 21 * b.ratio.2 then String.ofList (b.fixedChars places) else text x
  | _ => text x

end SkillPipeline.Number
