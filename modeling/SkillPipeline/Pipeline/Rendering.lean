import SkillPipeline.Effect.Contribution
import SkillPipeline.Filter.Template
import SkillPipeline.Skill.Params

namespace SkillPipeline.Params

/-- A number as the part that stands under a name. The parts are kept by name as members of an
object, which holds no number under the key of its parent; what is read there has no text. -/
def numberPart (name : String) (n : Float) : FilterText.Part :=
  if Members.isAssignable name then .num n else .sub (.wording "undefined")

def filterPart (p : Params) (name : String) : Except Fault FilterText.Part :=
  match p.raw? name with
  | none | some .unset => .error (.validation (.templateNeeds p.skill.name name))
  | some (.flag b) => .ok (numberPart name (if b then 1 else 0))
  | some (.number n) =>
    if (p.skill.spec? name).any (·.type == .float) then
      (FilterText.decimal n).map .sub
    else .ok (numberPart name n)
  | some (.text s) => .ok (.sub (.escaped s))

def optionText (p : Params) (name : String) : Except Fault String :=
  match p.raw? name with
  | none | some .unset => .error (.validation (.optionNeeds p.skill.name name))
  | some (.flag b) => .ok (if b then "1" else "0")
  | some (.number n) => (FilterText.number n .shortest).map (·.text)
  | some (.text s) => .ok s

/-- The words of an options template; a blank one is a single empty word. -/
def optionWords (template : String) : List String :=
  match Text.words template.toList with
  | [] => [""]
  | words => words.map String.ofList

def renderOptions (p : Params) (template : String) : Except Fault (List String) :=
  (optionWords template).mapM fun word =>
    (Template.fillTextM p.optionText (Template.segments word)).map String.ofList

/-- The filter text of a template. The values are looked at before any text is put together. -/
def renderFilter (p : Params) (template : String) : Except Fault FilterText := do
  let values ← (Template.holes template).mapM fun name => do return (name, ← p.filterPart name)
  Template.fill (fun name => values.lookup name) (Template.segments template)

/-- What the template of a skill contributes. In filters a text value is escaped; options are split
into tokens before a value is put in, so a value is never more than part of one token. -/
def renderTemplate (p : Params) (template : String) : Target → Except Fault Contribution
  | .output => (p.renderOptions template).map .flags
  | .audio => do return .audio [← p.renderFilter template]
  | .video => do return .video [← p.renderFilter template]

end SkillPipeline.Params
