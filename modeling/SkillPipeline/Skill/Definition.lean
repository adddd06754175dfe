import SkillPipeline.Document.Yaml.Reader
import SkillPipeline.Filter.Template
import SkillPipeline.Journal.Notice
import SkillPipeline.Parameter.Check
import SkillPipeline.Skill.Entry

namespace SkillPipeline

abbrev Defining := Logged ConfigurationFault

namespace ParameterEntry

/-- The parameter that an entry declares. A default is brought into the form of its type. -/
def define (skill source name : String) (e : ParameterEntry) : Defining ParameterSpec :=
  match ParamType.ofWord? e.type with
  | none => throw (.unknownType skill name e.type source)
  | some type =>
    if type = .enum && (e.choices?.getD []).isEmpty then throw (.noChoices skill name)
    else
      let spec : ParameterSpec := ⟨name, type, e.description, e.required, none, e.min?, e.max?,
        e.choices?, e.aliases?.getD []⟩
      match e.default? with
      | none => pure spec
      | some given =>
        match spec.check skill given.document with
        | .error f => throw (.invalidDefault f)
        | .ok (value, notices) => do
          Logged.note notices
          pure { spec with default? := some value |>.filter (·.isSet) }

end ParameterEntry

namespace SkillEntry

def categoryOf (e : SkillEntry) : Category :=
  (Category.ofName? (Text.lower e.category)).getD .custom

def undeclared? (declared : List String) (text : String) : Option String :=
  (Template.holes text).find? fun name => !declared.contains name

/-- What the text of a template becomes: options if it says so or starts like one, and otherwise
filters for a stream, by default that of its category. -/
def target (e : SkillEntry) (template : String) : Target :=
  let looksLikeOption := (Text.trimLeft template.toList).head? = some '-'
  if e.option?.getD looksLikeOption then .output
  else e.stream?.getD (if e.categoryOf = .audio then .audio else .video)

def undeclaredIn? (declared : List String) (call : Call) : Option String :=
  call.params.findSome? fun
    | (_, .text s) => undeclared? declared s
    | _ => none

def strategy (known : String → Bool) (e : SkillEntry) (declared : List String) :
    Except ConfigurationFault Strategy :=
  match e.template?, e.pipeline? with
  | some template, _ =>
    match undeclared? declared template with
    | some hole => .error (.undeclaredInTemplate e.name hole)
    | none => .ok (.template template (e.target template))
  | none, some calls =>
    match calls.findSome? fun call => (undeclaredIn? declared call).map (call.skill, ·) with
    | some (call, hole) => .error (.undeclaredInCall e.name call hole)
    | none => .ok (.pipeline calls)
  | none, none =>
    let handler := e.handler?.getD ""
    if known handler then .ok (.handler handler) else .error (.unknownHandler e.name handler)

def define (known : String → Bool) (source : String) (e : SkillEntry) : Defining Skill := do
  let parameters ← e.parameters.mapM fun (name, p) => p.define e.name source name
  let strategy ← MonadExcept.ofExcept (e.strategy known (parameters.map (·.name)))
  pure ⟨e.name, e.categoryOf, e.description, parameters, strategy, e.tags, e.examples, e.aliases,
    source⟩

end SkillEntry

/-- How the documents of skill files are read: the text as a document, and the documents of a skill
and of a pack by their shapes. -/
class SkillReader where
  parse : String → Option Value
  entry : Value → Except (List Issue) SkillEntry
  pack : Value → Except (List Issue) String

def packShape : Shape String := .object fun v =>
  (fun name _ _ => name)
    <$> Shape.field "name" .nonEmpty v
    <*> Shape.field "version" Shape.string.optional v
    <*> Shape.field "description" Shape.string.optional v

instance : SkillReader where
  parse := Yaml.parse
  entry v := (SkillEntry.shape v).toExcept
  pack v := (packShape v).toExcept

namespace Skill

variable [reader : SkillReader]

/-- The skill that the document of an entry defines: its parameters have known types and fitting
defaults, every hole in its template or in its calls is a declared parameter, and its handler, if it
names one, is known. -/
def ofDocument (known : String → Bool) (source : String) (v : Value) : Defining Skill :=
  match reader.entry v with
  | .error issues => throw (.invalidDefinition source (issues.map (·.text "(root)")))
  | .ok e => e.define known source

/-- The skills that the text of a skill file defines. -/
def ofText (known : String → Bool) (source text : String) : Defining (List Skill) :=
  match reader.parse text with
  | none => throw (.unreadableYaml source)
  | some v =>
    match SkillEntry.ofFile? v with
    | none => throw (.notSkills source)
    | some entries => entries.mapM (ofDocument known source)

end Skill

end SkillPipeline
