import SkillPipeline.Number.Arithmetic
import SkillPipeline.Number.Reader
import SkillPipeline.Text.Basic

namespace SkillPipeline

/-- The numerals of a time: seconds with an optional fraction, or a clock time
`[hours:]minutes:seconds` whose minutes and seconds have one or two digits. Seconds are
`seconds / 10^places`. -/
inductive TimeText where
  | plain (seconds places : Nat)
  | clock (hours minutes seconds places : Nat)
  deriving DecidableEq, Repr

namespace TimeText

open Number

/-- Digits with an optional fraction, of which at most `most` may stand before the point. -/
def readSeconds (most : Option Nat) (s : List Char) : Option (Nat × Nat) :=
  let whole := s.takeWhile isDigit
  let allowed := match most with
    | some n => whole.length ≤ n
    | none => true
  if whole.isEmpty || !allowed then none
  else match s.dropWhile isDigit with
    | [] => some (digitsValue whole, 0)
    | '.' :: fraction =>
      if fraction.isEmpty || !fraction.all isDigit then none
      else some (digitsValue (whole ++ fraction), fraction.length)
    | _ => none

def readMinutes (s : List Char) : Option Nat :=
  if s.length = 1 ∨ s.length = 2 then if s.all isDigit then some (digitsValue s) else none else none

def readHours (s : List Char) : Option Nat :=
  if s.isEmpty || !s.all isDigit then none else some (digitsValue s)

def read (s : List Char) : Option TimeText :=
  match Text.splitBy (· == ':') s with
  | [seconds] => (readSeconds none seconds).map fun (n, places) => .plain n places
  | [minutes, seconds] => do
    let m ← readMinutes minutes
    let (n, places) ← readSeconds (some 2) seconds
    some (.clock 0 m n places)
  | [hours, minutes, seconds] => do
    let h ← readHours hours
    let m ← readMinutes minutes
    let (n, places) ← readSeconds (some 2) seconds
    some (.clock h m n places)
  | _ => none

/-- The time in seconds, unless minutes or seconds reach sixty. -/
def seconds? {α : Type} [Arithmetic α] : TimeText → Option α
  | .plain n places => some (Arithmetic.ofPlaces n places)
  | .clock hours minutes n places =>
    let sixty : α := Arithmetic.ofNat 60
    let m : α := Arithmetic.ofNat minutes
    let s : α := Arithmetic.ofPlaces n places
    if Arithmetic.less m sixty && Arithmetic.less s sixty then
      some (Arithmetic.ofNat hours * Arithmetic.ofNat 3600 + m * sixty + s)
    else none

def parse (α : Type) [Arithmetic α] (s : String) : Option α :=
  (read (Text.trimChars s.toList)).bind seconds?

end TimeText

end SkillPipeline
