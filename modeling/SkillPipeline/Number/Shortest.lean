namespace SkillPipeline.Number

/-- A finite double, whose magnitude is `mantissa · 2^exponent`. A `mantissa` of 0 is a zero. -/
structure Binary where
  negative : Bool
  mantissa : Nat
  exponent : Int
  deriving DecidableEq, Repr

inductive Reading where
  | finite (value : Binary)
  | infinite (negative : Bool)
  | undefined
  deriving DecidableEq, Repr

/-- The reading of 64 bits: one sign bit, eleven exponent bits and 52 fraction bits. -/
def Reading.ofBits (bits : Nat) : Reading :=
  let negative := bits / Nat.pow 2 63 % 2 == 1
  let exponent : Nat := bits / Nat.pow 2 52 % Nat.pow 2 11
  let fraction : Nat := bits % Nat.pow 2 52
  if exponent = 2047 then if fraction = 0 then .infinite negative else .undefined
  else if exponent = 0 then .finite ⟨negative, fraction, -1074⟩
  else .finite ⟨negative, Nat.pow 2 52 + fraction, (exponent : Int) - 1075⟩

def reading (x : Float) : Reading := .ofBits x.toBits.toNat

def Binary.ratio (b : Binary) : Nat × Nat :=
  if 0 ≤ b.exponent then (b.mantissa * Nat.pow 2 b.exponent.toNat, 1)
  else (b.mantissa, Nat.pow 2 (-b.exponent).toNat)

def isWhole (x : Float) : Bool :=
  match reading x with
  | .finite b => b.ratio.1 % b.ratio.2 == 0
  | _ => false

end SkillPipeline.Number

namespace SkillPipeline.Number

/-- The decimal `digits · 10^exponent`. -/
structure Decimal where
  digits : Nat
  exponent : Int
  deriving DecidableEq, Repr

/-- The magnitudes that read back as one double, over a common denominator: from `low` to `high`,
both ends included when `closed`. The double itself is `value`. -/
structure Interval where
  low : Nat
  value : Nat
  high : Nat
  denominator : Nat
  closed : Bool

/-- Half the gap to the next double on each side; below a power of two the gap is half as wide. -/
def Binary.interval (b : Binary) : Interval :=
  let narrow := b.mantissa == Nat.pow 2 52 && b.exponent != -1074
  let (low, high) := if narrow then (4 * b.mantissa - 1, 4 * b.mantissa + 2)
    else (4 * b.mantissa - 2, 4 * b.mantissa + 2)
  let shift := b.exponent - 2
  let up := Nat.pow 2 shift.toNat
  { low := low * up, value := 4 * b.mantissa * up, high := high * up,
    denominator := Nat.pow 2 (-shift).toNat, closed := b.mantissa % 2 == 0 }

def Interval.holds (i : Interval) (n : Nat) (e : Int) : Bool :=
  let point := n * Nat.pow 10 e.toNat * i.denominator
  let scale := Nat.pow 10 (-e).toNat
  if i.closed then i.low * scale ≤ point && point ≤ i.high * scale
  else i.low * scale < point && point < i.high * scale

/-- The largest `p` with `10^p ≤ numerator / denominator`, starting from `p = 0` and going up. -/
def leadingUp (fuel numerator denominator : Nat) : Int :=
  match fuel with
  | 0 => 0
  | fuel + 1 =>
    if numerator < 10 * denominator then 0 else 1 + leadingUp fuel numerator (10 * denominator)

def leadingDown (fuel numerator denominator : Nat) : Int :=
  match fuel with
  | 0 => 0
  | fuel + 1 =>
    if denominator ≤ numerator then 0 else leadingDown fuel (10 * numerator) denominator - 1

/-- The power of ten of the leading digit. Doubles lie between `10^(-324)` and `10^309`. -/
def Interval.leading (i : Interval) : Int :=
  if i.denominator ≤ i.value then leadingUp 400 i.value i.denominator
  else leadingDown 400 i.value i.denominator

/-- The point of the grid of step `10^e` that reads back, the nearer if both neighbours do. -/
def Interval.onGrid (i : Interval) (e : Int) : Option Decimal :=
  let numerator := i.value * Nat.pow 10 (-e).toNat
  let denominator := i.denominator * Nat.pow 10 e.toNat
  let below := numerator / denominator
  let remainder := numerator % denominator
  let preferAbove := 2 * remainder > denominator || (2 * remainder == denominator && below % 2 == 1)
  match i.holds below e, i.holds (below + 1) e with
  | true, true => some ⟨if preferAbove then below + 1 else below, e⟩
  | true, false => some ⟨below, e⟩
  | false, true => some ⟨below + 1, e⟩
  | false, false => none

def Interval.firstHit (i : Interval) (leading : Int) : Nat → Nat → Decimal
  | 0, _ => ⟨0, 0⟩
  | fuel + 1, places =>
    match i.onGrid (leading - places + 1) with
    | some d => d
    | none => i.firstHit leading fuel (places + 1)

def Decimal.strip (d : Decimal) : Nat → Decimal
  | 0 => d
  | fuel + 1 =>
    if d.digits ≠ 0 ∧ d.digits % 10 = 0 then strip ⟨d.digits / 10, d.exponent + 1⟩ fuel else d

/-- The shortest decimal of a magnitude that is not zero. A hit may round up to a power of ten, so
zeros at its end are taken off. -/
def Binary.shortest (b : Binary) : Decimal :=
  (b.interval.firstHit b.interval.leading 17 1).strip 20

end SkillPipeline.Number
