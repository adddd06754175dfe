import SkillPipeline.Fault
import SkillPipeline.Journal.Notice
import SkillPipeline.Registry.Index
import SkillPipeline.Registry.Listing
import SkillPipeline.Registry.Schema
import SkillPipeline.Text.Basic

namespace SkillPipeline

/-- The skills that steps may name, and what has been worked out of them since the last change: the
catalogue text, the schema, and which sub-pipelines are known to be free of cycles. -/
structure Registry where
  index : Index := {}
  catalogue? : Option String := none
  schema? : Option Value := none
  /-- Sub-pipelines whose expansion is known to end. -/
  acyclic : List String := []
  /-- How often the registry has changed. -/
  revision : Nat := 0

namespace Registry

/-- The registry with another index. What was worked out of the old one is dropped. -/
def changed (r : Registry) (index : Index) : Registry := { index, revision := r.revision + 1 }

def register (r : Registry) (s : Skill) : Registry := r.changed (r.index.add s)

/-- Adds or redefines many skills, in an index that is built anew. -/
def update (r : Registry) (skills : List Skill) : Registry :=
  r.changed (skills.foldl Index.add (Index.ofSkills r.index.skills))

def ofSkills (skills : List Skill) : Registry := skills.foldl register {}

def size (r : Registry) : Nat := r.index.skills.length

def get? (r : Registry) (name : String) : Option Skill := r.index.get? name

def has (r : Registry) (name : String) : Bool := (r.get? name).isSome

def list (r : Registry) : List Skill := r.index.skills

def names (r : Registry) : List String := r.list.map (·.name)

def listByCategory (r : Registry) (c : Category) : List Skill :=
  r.index.resolve (r.index.byCategory.names c)

def listByTag (r : Registry) (tag : String) : List Skill :=
  r.index.resolve (r.index.byTag.names (Text.lower tag))

/-- The skills in whose text a query occurs, in whatever case. A blank query finds nothing. -/
def search (r : Registry) (query : String) : List Skill :=
  let needle := Text.lower (Text.trim query)
  if needle.isEmpty then []
  else r.index.resolve
    ((r.index.searchTexts.filter fun p => Text.contains p.2 needle).map (·.1))

/-- The names to suggest for an unknown one: skills that its first word finds. -/
def suggestions (r : Registry) (name : String) : List String :=
  let word := name.toList.takeWhile fun c => c != '_' && c != '-' && c != ' '
  ((r.search (String.ofList word)).take 5).map (·.name)

def require (r : Registry) (name : String) : Except ConfigurationFault Skill :=
  match r.get? name with
  | some s => .ok s
  | none => .error (.unknownSkill name (r.suggestions name))

def catalogueText : StateM Registry String := do
  let r ← get
  match r.catalogue? with
  | some text => pure text
  | none =>
    let text := Listing.text r.listByCategory
    set { r with catalogue? := some text }
    pure text

def schema : StateM Registry Value := do
  let r ← get
  match r.schema? with
  | some v => pure v
  | none =>
    let v := Schema.document r.list
    set { r with schema? := some v }
    pure v

def registerNotices (r : Registry) (s : Skill) : List Notice :=
  if (r.index.find? s.name).isSome then
    [{ level := .debug, message := "Overwriting skill definition",
       fields := [("skill", .string s.name), ("source", .string s.source)] }]
  else []

def updateNotices (r : Registry) (skills : List Skill) : List Notice :=
  [{ level := .info, message := "Registry updated",
     fields := [("skills", .number (Float.ofNat skills.length)),
       ("total", .number (Float.ofNat (r.update skills).size))] }]

end Registry

end SkillPipeline

namespace SkillPipeline.Registry

/-- A search: it may fail, and it remembers the sub-pipelines that it has passed. -/
abbrev Search := ExceptT ConfigurationFault (StateM (List String))

def remember (name : String) (passed : List String) : List String :=
  if passed.contains name then passed else passed ++ [name]

/-- Follows the calls from a skill, with `path` the sub-pipelines above it. A path that meets no
sub-pipeline twice is no longer than there are skills, so a search that would go deeper than that
has gone round. -/
def visit (r : Registry) : Nat → List String → String → Search Unit
  | 0, path, name => throw (.cyclic path name)
  | depth + 1, path, name => do
    let s ← MonadExcept.ofExcept (r.require name)
    if !s.isPipeline || (← get).contains s.name then pure ()
    else if path.contains s.name then throw (.cyclic (path ++ [s.name]) s.name)
    else
      s.calls.forM fun call => visit r depth (path ++ [s.name]) call.skill
      modify (remember s.name)

def searchFrom (r : Registry) (name : String) : Except ConfigurationFault Unit × Registry :=
  let (outcome, acyclic) := (ExceptT.run (r.visit (r.size + 2) [] name)).run r.acyclic
  (outcome, { r with acyclic })

/-- Fails if a skill calls, at any depth, an unknown skill or itself. -/
def assertAcyclic (name : String) : ExceptT ConfigurationFault (StateM Registry) Unit :=
  ExceptT.mk fun r => r.searchFrom name

def problemOf (s : Skill) : StateM Registry (List String) := do
  if !s.isPipeline then return []
  match ← (assertAcyclic s.name).run with
  | .ok () => return []
  | .error f => return [s.name ++ ": " ++ f.message]

/-- One message for every sub-pipeline that cannot be expanded. -/
def verify : StateM Registry (List String) := do
  return (← (← get).list.mapM problemOf).flatten

end SkillPipeline.Registry
