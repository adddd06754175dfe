import SkillPipeline.Effect.Contribution
import SkillPipeline.Files.FileSystem
import SkillPipeline.Journal.Notice
import SkillPipeline.Skill.Params

namespace SkillPipeline

/-- An input after the primary one. The index counts positions on the command line, from 1. -/
structure ExtraInput where
  index : Nat
  path : String
  kind : MediaKind
  duration? : Option Float := none

structure PrimaryInput where
  path : String
  duration? : Option Float := none
  fps : Float
  width : Float
  height : Float
  hasAudio : Bool

/-- What a handler may know of the request. -/
structure HandlerContext where
  primary : PrimaryInput
  extras : List ExtraInput := []
  /-- The extra inputs that other steps have claimed. -/
  reservedByOthers : List Nat := []
  /-- The extra inputs that this step has claimed. -/
  ownInputs : List Nat := []
  textInputs : List String := []
  stillDuration : Float
  files : FileSystem

/-- The procedure behind a skill. It sees the checked parameters of its step and the media facts of
the request, and answers with a contribution. One that consumes extra inputs also says beforehand
which ones it wants for itself. -/
structure Handler where
  compile : Params → HandlerContext → Except Fault Contribution
  /-- What there is to say while compiling. -/
  notices : Params → HandlerContext → List Notice := fun _ _ => []
  /-- The extra inputs that the step wants for itself. -/
  reserve? : Option (Params → HandlerContext → Except Fault (List Nat)) := none
  /-- Whether the step takes what the others leave over. -/
  reservesLast : Bool := false

/-- Handlers by name; a name occurs once. -/
abbrev HandlerTable := List (String × Handler)

namespace HandlerTable

def find? (t : HandlerTable) (name : String) : Option Handler := t.lookup name

def has (t : HandlerTable) (name : String) : Bool := t.any (·.1 == name)

def insert (t : HandlerTable) (name : String) (h : Handler) : HandlerTable :=
  if t.has name then t.map fun p => if p.1 == name then (name, h) else p
  else t ++ [(name, h)]

end HandlerTable

end SkillPipeline

namespace SkillPipeline.HandlerContext

/-- The extra inputs of some kinds that no other step has claimed, in order. -/
def freeExtras (ctx : HandlerContext) (kinds : List MediaKind) : List ExtraInput :=
  ctx.extras.filter fun e => !ctx.reservedByOthers.contains e.index && kinds.contains e.kind

def extra? (ctx : HandlerContext) (index : Nat) : Option ExtraInput :=
  ctx.extras.find? (·.index == index)

def extraAt? (ctx : HandlerContext) (n : Float) : Option ExtraInput :=
  ctx.extras.find? fun e => Float.ofNat e.index == n

/-- The input that a step asks for, or else the first free one of a kind it accepts. -/
def claimExtra (ctx : HandlerContext) (skill : String) (kinds : List MediaKind)
    (requested? : Option Float) : Except Fault Nat :=
  match requested? with
  | some n =>
    match (ctx.extraAt? n).filter fun e => kinds.contains e.kind with
    | some e => .ok e.index
    | none => .error (.validation (.notAnExtra skill n kinds ctx.extras.length))
  | none =>
    match ctx.freeExtras kinds with
    | e :: _ => .ok e.index
    | [] => .error (.validation (.noExtra skill kinds))

/-- The first `count` elements; a negative count leaves off as many at the end. -/
def takeCount {α : Type} (count : Float) (xs : List α) : List α :=
  let n := Number.truncate count
  if n < 0 then xs.take (xs.length - (-n).toUInt64.toNat) else xs.take n.toUInt64.toNat

/-- Up to `count` free inputs, still images first. -/
def claimExtras (ctx : HandlerContext) (skill : String) (kinds : List MediaKind) (count : Float) :
    Except Fault (List Nat) :=
  let stills := if kinds.contains .image then ctx.freeExtras [.image] else []
  match stills ++ ctx.freeExtras (kinds.filter (· != .image)) with
  | [] => .error (.validation (.noExtra skill kinds))
  | pool => .ok ((takeCount count pool).map (·.index))

def ownExtra (ctx : HandlerContext) (skill : String) : Except Fault ExtraInput :=
  match ctx.ownInputs.head?.bind ctx.extra? with
  | some e => .ok e
  | none => .error (.invariant (.noReservedInput skill))

/-- The seconds that an extra input lasts in a sequence; a still image is held. -/
def segmentDuration (ctx : HandlerContext) (extra : ExtraInput) (hold : Float) : Float :=
  if extra.kind = .image then hold
  else (extra.duration?.or ctx.primary.duration?).getD hold

end SkillPipeline.HandlerContext

namespace SkillPipeline.Params

def requestedInput (p : Params) : Except Fault (Option Float) :=
  if p.has "input" then (p.int "input").map some else .ok none

end SkillPipeline.Params
