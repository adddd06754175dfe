import SkillPipeline.Document.Json.Printer
import SkillPipeline.Skill.Basic
import SkillPipeline.Text.Basic

namespace SkillPipeline

def ParamValue.listed : ParamValue → String
  | .text s => s
  | v => Json.shown v.document

namespace ParameterSpec

def need (spec : ParameterSpec) : String :=
  match spec.default? with
  | some d => "optional, default=" ++ d.listed
  | none => if spec.required then "required" else "optional"

def limits (spec : ParameterSpec) : List String :=
  let choices := if spec.choices.isEmpty then []
    else ["choices: " ++ Text.join ", " spec.choices]
  let range := if spec.min?.isNone && spec.max?.isNone then []
    else ["range: " ++ (spec.min?.map Number.text).getD "-inf" ++ ".."
      ++ (spec.max?.map Number.text).getD "inf"]
  choices ++ range

def listing (spec : ParameterSpec) : String :=
  let limits := if spec.limits.isEmpty then "" else " (" ++ Text.join "; " spec.limits ++ ")"
  s!"  - {spec.name} ({spec.type.name}): {spec.description}{limits} [{spec.need}]"

end ParameterSpec

def Skill.listing (s : Skill) : List String :=
  ["", "### " ++ s.name, s.description]
    ++ (if s.parameters.isEmpty then [] else "Parameters:" :: s.parameters.map (·.listing))
    ++ (if s.examples.isEmpty then [] else "Examples:" :: s.examples.map ("  - " ++ ·))

def Category.listing (c : Category) (skills : List Skill) : List String :=
  if skills.isEmpty then [] else ["", "## " ++ c.title] ++ skills.flatMap (·.listing)

def Listing.text (skillsOf : Category → List Skill) : String :=
  let lines := Category.all.flatMap fun c => c.listing (skillsOf c)
  Text.join "\n" ("# Available Skills" :: lines) ++ "\n"

end SkillPipeline
