import SkillPipeline.Filter.Piece
import SkillPipeline.Parameter.TimeText
import SkillPipeline.Skill.Basic

namespace SkillPipeline

/-- The checked parameters of a step, in the order in which its skill declares them. Reading a
parameter that has no value, or one of another type, is a fault of the handler and not of the
request. -/
structure Params where
  skill : Skill
  values : List (String × ParamValue)

/-- A time with the text in which it was given. -/
structure Moment where
  seconds : Float
  text : String

namespace Params

def raw? (p : Params) (name : String) : Option ParamValue :=
  (p.values.lookup name).filter (·.isSet)

/-- Whether a parameter is there, be it by name only. -/
def has (p : Params) (name : String) : Bool := (p.values.lookup name).isSome

def read (p : Params) (name : String) (fallback : Option ParamValue) : Except Fault ParamValue :=
  match (p.raw? name).or fallback with
  | some value => .ok value
  | none => .error (.invariant (.noValue p.skill.name name))

def float (p : Params) (name : String) (fallback : Option Float := none) : Except Fault Float := do
  match ← p.read name (fallback.map .number) with
  | .number n => .ok n
  | _ => .error (.invariant (.notNumeric p.skill.name name))

def int (p : Params) (name : String) (fallback : Option Float := none) : Except Fault Float :=
  (p.float name fallback).map Number.truncate

def bool (p : Params) (name : String) (fallback : Option Bool := none) : Except Fault Bool := do
  match ← p.read name (fallback.map .flag) with
  | .flag b => .ok b
  | _ => .error (.invariant (.notBoolean p.skill.name name))

def string (p : Params) (name : String) (fallback : Option String := none) :
    Except Fault String :=
  (p.read name (fallback.map .text)).map ParamValue.shown

def time (p : Params) (name : String) : Except Fault (Option Moment) :=
  match p.raw? name with
  | none => .ok none
  | some (.number n) => .ok (some ⟨n, Number.text n⟩)
  | some value =>
    match TimeText.parse Float value.shown with
    | some seconds => .ok (some ⟨seconds, value.shown⟩)
    | none => .error (.invariant (.notTime p.skill.name name))

def text (p : Params) (name : String) (fallback : Option String := none) :
    Except Fault FilterText :=
  (p.string name fallback).map .escaped

def decimal (p : Params) (name : String) (fallback : Option Float := none) :
    Except Fault FilterText := do
  FilterText.decimal (← p.float name fallback)

end Params

end SkillPipeline
