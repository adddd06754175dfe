import SkillPipeline.Number.Arithmetic

namespace SkillPipeline.Crossfade

variable {α : Type} [Number.Arithmetic α]

open Number

/-- The starts of the transitions to `durations`, when what precedes them ends at `running`. A
transition overlaps that end with the beginning of the next segment; it cannot start before time
zero. -/
def offsetsFrom (transition running : α) : (durations : List α) → List α
  | [] => []
  | d :: rest =>
    Arithmetic.larger (Arithmetic.ofNat 0) (running - transition)
      :: offsetsFrom transition (running + (d - transition)) rest

def offsets (transition : α) : (durations : List α) → List α
  | [] => []
  | d :: rest => offsetsFrom transition d rest

end SkillPipeline.Crossfade

namespace SkillPipeline.Tempo

variable {α : Type} [Number.Arithmetic α]

open SkillPipeline.Number

def half : α := Arithmetic.ofPlaces 5 1

def two : α := Arithmetic.ofNat 2

/-- As many halves as lift a small factor to one half or more, and what remains of it. -/
def halves (remaining : α) : (fuel : Nat) → List α × α
  | 0 => ([], remaining)
  | fuel + 1 =>
    if Arithmetic.less remaining half then
      let (instances, rest) := halves (remaining * two) fuel
      (half :: instances, rest)
    else ([], remaining)

def doubles (remaining : α) : (fuel : Nat) → List α × α
  | 0 => ([], remaining)
  | fuel + 1 =>
    if Arithmetic.less two remaining then
      let (instances, rest) := doubles (remaining / two) fuel
      (two :: instances, rest)
    else ([], remaining)

/-- The factors of the instances whose product is `factor`. -/
def instances (factor : α) : List α :=
  let (slow, rest) := halves factor (Arithmetic.doublings factor)
  let (fast, rest) := doubles rest (Arithmetic.doublings rest)
  slow ++ fast ++ [rest]

end SkillPipeline.Tempo

namespace SkillPipeline

structure TextWindow (α : Type) where
  start : α
  duration : α

namespace TextWindow

variable {α : Type} [Number.Arithmetic α]

open Number

def zero : α := Arithmetic.ofNat 0

def isPositive (x : α) : Bool := Arithmetic.less zero x

/-- The window after an envelope with these times: its start counts if positive, and its end if
positive and later than its own start. -/
def override (w : TextWindow α) (start? end? : Option α) : TextWindow α :=
  let base := start?.getD zero
  { start := match start? with
      | some s => if isPositive s then s else w.start
      | none => w.start
    duration := match end? with
      | some e => if isPositive e && isPositive (e - base) then e - base else w.duration
      | none => w.duration }

inductive Visible (α : Type) where
  | always
  | since (start : α)
  | between (start stop : α)

def visible (w : TextWindow α) : Visible α :=
  if isPositive w.duration then .between w.start (w.start + w.duration)
  else if isPositive w.start then .since w.start
  else .always

end TextWindow

end SkillPipeline

namespace SkillPipeline.Typing

variable {α : Type} [Number.Arithmetic α]

def opening (start speed : α) (typed : Nat) : α :=
  start + Number.Arithmetic.ofNat typed / speed

end SkillPipeline.Typing

namespace SkillPipeline

structure GridLayout (α : Type) where
  columns : α
  cellWidth : α
  cellHeight : α
  gap : α

namespace GridLayout

variable {α : Type} [Number.Arithmetic α]

open Number

def corner (g : GridLayout α) (index : Nat) : α × α :=
  let i : α := Arithmetic.ofNat index
  (Arithmetic.remainder i g.columns * (g.cellWidth + g.gap),
   Arithmetic.floor (i / g.columns) * (g.cellHeight + g.gap))

end GridLayout

end SkillPipeline
