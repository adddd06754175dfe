import SkillPipeline.Skill.Basic
import SkillPipeline.Text.Lowercase
import SkillPipeline.Text.Basic

namespace SkillPipeline

/-- Names filed under keys, each name once under a key, in the order of filing. -/
abbrev Filing (κ : Type) := List (κ × List String)

namespace Filing

variable {κ : Type} [BEq κ]

def names (f : Filing κ) (key : κ) : List String := (f.lookup key).getD []

def insert (f : Filing κ) (key : κ) (name : String) : Filing κ :=
  if f.any (·.1 == key) then
    f.map fun p =>
      if p.1 == key && !p.2.contains name then (p.1, p.2 ++ [name]) else p
  else f ++ [(key, [name])]

def remove (f : Filing κ) (key : κ) (name : String) : Filing κ :=
  f.map fun p => if p.1 == key then (p.1, p.2.filter (· != name)) else p

end Filing

def Skill.searchText (s : Skill) : String :=
  Text.lower (Text.join "\n" (s.name :: s.description :: (s.tags ++ s.aliases)))

/-- The latest definition of each name, and derived from it the names by category and by tag, the
skill that each alias means, and the text that searches look through. Adding a skill takes an
earlier one of its name out first, so a redefined skill moves to the end. -/
structure Index where
  skills : List Skill := []
  aliases : List (String × String) := []
  byCategory : Filing Category := []
  byTag : Filing String := []
  searchTexts : List (String × String) := []

namespace Index

def find? (x : Index) (name : String) : Option Skill := x.skills.find? (·.name == name)

def get? (x : Index) (name : String) : Option Skill :=
  (x.find? name).or ((x.aliases.lookup name).bind x.find?)

def resolve (x : Index) (names : List String) : List Skill := names.filterMap x.find?

/-- Lets an alias mean a skill; a later declaration of the alias wins. -/
def setAlias (aliases : List (String × String)) (word name : String) : List (String × String) :=
  if aliases.any (·.1 == word) then
    aliases.map fun p => if p.1 == word then (word, name) else p
  else aliases ++ [(word, name)]

/-- Takes out what a skill has put into the index; aliases that by now mean another skill stay. -/
def remove (x : Index) (s : Skill) : Index :=
  { skills := x.skills.filter (·.name != s.name)
    aliases := x.aliases.filter fun p => !(s.aliases.contains p.1 && p.2 == s.name)
    byCategory := x.byCategory.remove s.category s.name
    byTag := s.tags.foldl (fun f tag => f.remove (Text.lower tag) s.name) x.byTag
    searchTexts := x.searchTexts.filter (·.1 != s.name) }

def insert (x : Index) (s : Skill) : Index :=
  { skills := x.skills ++ [s]
    aliases := s.aliases.foldl (fun aliases word => setAlias aliases word s.name) x.aliases
    byCategory := x.byCategory.insert s.category s.name
    byTag := s.tags.foldl (fun f tag => f.insert (Text.lower tag) s.name) x.byTag
    searchTexts := x.searchTexts ++ [(s.name, s.searchText)] }

def add (x : Index) (s : Skill) : Index :=
  match x.find? s.name with
  | some previous => (x.remove previous).insert s
  | none => x.insert s

def ofSkills (skills : List Skill) : Index := skills.foldl add {}

end Index

end SkillPipeline
