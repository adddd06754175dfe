import SkillPipeline.Text.Basic

namespace SkillPipeline

/-- A flag with its value, a flag that stands alone, or a token that is no flag. -/
structure FlagGroup where
  flag : String
  value? : Option String
  deriving DecidableEq, Repr

namespace FlagGroup

def standalone : List String := ["-an", "-vn", "-sn", "-dn", "-shortest", "-y", "-n", "-re"]

def repeatable : List String := ["-metadata", "-disposition", "-attach"]

def takesValue (token : String) : Bool :=
  Text.startsWith token "-" && !standalone.contains token

def tokens (g : FlagGroup) : List String := g.flag :: g.value?.toList

def ofTokens : List String → List FlagGroup
  | [] => []
  | [token] => [⟨token, none⟩]
  | token :: next :: rest =>
    if takesValue token then ⟨token, some next⟩ :: ofTokens rest
    else ⟨token, none⟩ :: ofTokens (next :: rest)

/-- The groups that no later group overrides. -/
def survivors : List FlagGroup → List FlagGroup
  | [] => []
  | g :: rest =>
    if repeatable.contains g.flag || !rest.any (·.flag == g.flag) then g :: survivors rest
    else survivors rest

/-- Of several groups with the same flag the last one counts, except for flags that may repeat. -/
def dedupe (flags : List String) : List String := (survivors (ofTokens flags)).flatMap tokens

end FlagGroup

end SkillPipeline
