import SkillPipeline.Pipeline.Context
import SkillPipeline.Pipeline.Expansion

namespace SkillPipeline

def Stage.handler? (table : HandlerTable) (s : Stage) : Except Fault (Option Handler) :=
  match s.skill.strategy with
  | .handler name =>
    match table.find? name with
    | some h => .ok (some h)
    | none => .error (.configuration (.unknownHandler s.skill.name name))
  | _ => .ok none

/-- The extra inputs of each stage that reserves some, by its identifier. -/
abbrev Reservations := List (String × List Nat)

namespace Reservations

def ownedBy (r : Reservations) (id : String) : List Nat := (r.lookup id).getD []

def all (r : Reservations) : List Nat := r.flatMap (·.2)

def ownedByOthers (r : Reservations) (id : String) : List Nat :=
  r.all.filter fun i => !(r.ownedBy id).contains i

end Reservations

namespace Reservation

structure Claimant where
  stage : Stage
  reserve : Params → HandlerContext → Except Fault (List Nat)
  last : Bool

/-- Inputs with the name of the skill that owns each, and what has been reserved so far. -/
structure Progress where
  owners : List (Nat × String) := []
  reservations : Reservations := []

def claimant? (table : HandlerTable) (s : Stage) : Except Fault (Option Claimant) := do
  let handler? ← s.handler? table
  return handler?.bind fun h => h.reserve?.map fun reserve => ⟨s, reserve, h.reservesLast⟩

def claimants (table : HandlerTable) (stages : List Stage) : Except Fault (List Claimant) := do
  return (← stages.mapM (claimant? table)).filterMap id

def own (skill : String) (owners : List (Nat × String)) (index : Nat) :
    Except Fault (List (Nat × String)) :=
  match owners.lookup index with
  | some owner => .error (.validation (.extraTaken index owner skill))
  | none => .ok (owners ++ [(index, skill)])

/-- Reserves the inputs of a claimant that sees those in `taken` as owned. -/
def claim (view : List Nat → HandlerContext) (taken : List Nat) (p : Progress) (c : Claimant) :
    Except Fault Progress := do
  let claimed ← c.reserve c.stage.params (view taken)
  let owners ← claimed.foldlM (own c.stage.skill.name) p.owners
  return { owners, reservations := p.reservations ++ [(c.stage.id, claimed)] }

end Reservation

/-- Which stage owns which extra input. Stages that want certain inputs come first, each seeing what
those before it have taken; those that take what is left over come last, and all of them see the
same inputs as free. An input is owned once. -/
def reserve (table : HandlerTable) (view : List Nat → HandlerContext) (stages : List Stage) :
    Except Fault Reservations := do
  let claimants ← Reservation.claimants table stages
  let specific ← (claimants.filter (!·.last)).foldlM
    (fun p c => Reservation.claim view (p.owners.map (·.1)) p c) {}
  let taken := specific.owners.map (·.1)
  let done ← (claimants.filter (·.last)).foldlM (Reservation.claim view taken) specific
  return done.reservations

end SkillPipeline
