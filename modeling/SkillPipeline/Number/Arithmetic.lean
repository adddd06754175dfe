import SkillPipeline.Number.Reader

namespace SkillPipeline.Number

def pi : Float := 3.141592653589793

def Binary.whole (b : Binary) : Nat := b.ratio.1 / b.ratio.2

/-- Toward zero. A double of at least `2^52` has no fraction. -/
def truncate (x : Float) : Float :=
  match reading x with
  | .finite b =>
    if 0 ≤ b.exponent then x
    else if b.negative then -Float.ofNat b.whole else Float.ofNat b.whole
  | _ => x

def floor (x : Float) : Float :=
  let whole := truncate x
  if x < whole then whole - 1 else whole

/-- To the nearest whole number, a half upwards. -/
def nearest (x : Float) : Float := if x - floor x < 0.5 then floor x else floor x + 1

/-- The larger of two doubles; undefined if one of them is. -/
def larger (x y : Float) : Float :=
  if x.isNaN then x else if y.isNaN then y else if x < y then y else x

def smaller (x y : Float) : Float :=
  if x.isNaN then x else if y.isNaN then y else if y < x then y else x

/-- The remainder of the division truncated toward zero; exact for the whole numbers of a layout. -/
def remainder (x y : Float) : Float := x - y * truncate (x / y)

/-- What timing and layout rules compute with. Such a rule is written once for every type with these
operations: doubles compute, and the rational numbers state what is computed exactly. -/
class Arithmetic (α : Type) extends Add α, Sub α, Mul α, Div α where
  ofNat : Nat → α
  /-- The decimal fraction `digits / 10^places`. -/
  ofPlaces : (digits places : Nat) → α
  less : α → α → Bool
  larger : α → α → α
  floor : α → α
  remainder : α → α → α
  /-- At least as many doublings or halvings as take a positive number into the range from one
  half to two. -/
  doublings : α → Nat

instance : Arithmetic Float where
  ofNat n := Float.ofNat n
  ofPlaces digits places := Decimal.toFloat ⟨digits, -(places : Int)⟩
  less x y := x < y
  larger := larger
  floor := floor
  remainder := remainder
  doublings _ := 2200

instance : Arithmetic Rat where
  ofNat n := n
  ofPlaces digits places := digits / (10 : Rat) ^ places
  less x y := x < y
  larger x y := if x < y then y else x
  floor x := x.floor
  remainder x y := x - y * (if x / y < 0 then (x / y).ceil else (x / y).floor)
  doublings x := x.num.natAbs + x.den

end SkillPipeline.Number
