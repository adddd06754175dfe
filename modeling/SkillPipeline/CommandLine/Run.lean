import SkillPipeline.CommandLine.RequestFile
import SkillPipeline.Command.Descriptor
import SkillPipeline.Pipeline.Compiler
import SkillPipeline.Pipeline.Expansion
import SkillPipeline.Registry.Loading
import SkillPipeline.Settings

namespace SkillPipeline

structure Surroundings where
  files : FileSystem
  env : Environment
  standardInput : String := ""

/-- What goes to the two output streams, the exit code and the journal. -/
structure Outcome where
  out : String := ""
  err : String := ""
  code : Nat := 0
  level : Level := .info
  notices : List Notice := []

namespace Outcome

def print (o : Outcome) (line : String) : Outcome := { o with out := o.out ++ line ++ "\n" }

def complain (o : Outcome) (line : String) : Outcome := { o with err := o.err ++ line ++ "\n" }

def printAll (o : Outcome) (lines : List String) : Outcome := lines.foldl print o

def complainAll (o : Outcome) (lines : List String) : Outcome := lines.foldl complain o

def exit (o : Outcome) (code : Nat) : Outcome := { o with code }

/-- The lines that tell of a fault: several issues are listed one by one. -/
def faultLines (f : Fault) : List String :=
  let issues := f.issues?.getD []
  ("Error: " ++ f.message)
    :: (if issues.length > 1 then issues.map ("  - " ++ ·) else [])
    ++ ((f.hint?.filter (· != "")).map ("Hint: " ++ ·)).toList

def fail (o : Outcome) (f : Fault) : Outcome := (o.complainAll (faultLines f)).exit 1

end Outcome

namespace CommandLine

def version : String := "0.1.0"

/-- What a command works with once the settings and the skills are loaded. -/
structure Setup where
  surroundings : Surroundings
  compiler : Compiler

/-- A command in progress: it works in a session and adds to the outcome. -/
abbrev Running := StateM Session

def Setup.sources (s : Setup) : TextSources := ⟨s.surroundings.files, s.surroundings.standardInput⟩

def Setup.request (s : Setup) (pipeline : String) (flags : ContextFlags) :
    Except Fault Request := do
  Request.ofFile s.sources flags (← s.sources.readJson pipeline)

def jsonLines (v : Value) : String := Json.printIndented v

def commandDocument (d : Descriptor) : Except Fault Value := do
  return .record [("argv", .strings (← d.argv)), ("command", .string (← d.shellLine)),
    ("warnings", .strings d.warnings)]

def printExplanation (steps : List Step) (o : Outcome) : Running (Outcome × Bool) := do
  match ← (explain steps).run with
  | .ok lines => return ((o.print (Text.join "\n" lines)).print "", true)
  | .error f => return (o.fail f, false)

def printCommand (d : Descriptor) (o : Outcome) : Outcome :=
  let o := o.complainAll (d.warnings.map ("Warning: " ++ ·))
  match d.shellLine with
  | .ok line => o.print line
  | .error f => o.fail f

/-- Compiles a pipeline file. What is explained are the steps as compiling has left them. -/
def compile (s : Setup) (pipeline : String) (flags : ContextFlags) (json explain : Bool) :
    Running Outcome := do
  match s.request pipeline flags with
  | .error f => return ({} : Outcome).fail f
  | .ok request =>
    let compiled ← s.compiler.compile request
    match compiled.result with
    | .error f => return ({} : Outcome).fail f
    | .ok d =>
      if json then
        match commandDocument d with
        | .ok v => return ({} : Outcome).print (jsonLines v)
        | .error f => return ({} : Outcome).fail f
      else if explain then
        let steps := request.steps.zipWith (fun step params => { step with params }) compiled.params
        let (o, done) ← printExplanation steps {}
        return if done then printCommand d o else o
      else return printCommand d {}

def reportLines (r : ValidationReport) : List String :=
  if r.valid then ["Pipeline is valid."]
  else s!"Pipeline has {r.issues.length} problem(s):" :: r.issues.map ("  - " ++ ·)

def validate (s : Setup) (pipeline : String) (flags : ContextFlags) (json : Bool) :
    Running Outcome := do
  match s.request pipeline flags with
  | .error f => return ({} : Outcome).fail f
  | .ok request =>
    match ← s.compiler.validate request with
    | .exception e => return ({} : Outcome).fail (.exception e)
    | .report report =>
      let lines := if json then [jsonLines report.document] else reportLines report
      return (({} : Outcome).printAll lines).exit (if report.valid then 0 else 1)

def tableLines (skills : List Skill) : List String :=
  if skills.isEmpty then ["No skills found."]
  else
    let width := (skills.map (Text.unitLength ·.name)).foldl max 0
    skills.map fun s => s!"  {Text.padRight width s.name}  [{s.category.name}] {s.description}"

def summaryDocument (s : Skill) : Value :=
  .record [("name", .string s.name), ("category", .string s.category.name),
    ("description", .string s.description)]

def selectSkills (r : Registry) (category? : Option Category) (tag? : Option String) : List Skill :=
  let skills := match category? with
    | some c => r.listByCategory c
    | none => r.list
  match tag? with
  | none => skills
  | some tag =>
    let tagged := (r.listByTag tag).map (·.name)
    skills.filter fun s => tagged.contains s.name

def listSkills (r : Registry) (category? tag? : Option String) (json : Bool) : Outcome :=
  match category?.map fun name => (name, Category.ofName? name) with
  | some (name, none) =>
    (({} : Outcome).complainAll [s!"Unknown category: {name}",
      "Categories: " ++ Text.join ", " (Category.all.map (·.name))]).exit 1
  | chosen =>
    let skills := selectSkills r (chosen.bind (·.2)) tag?
    if json then ({} : Outcome).print (jsonLines (.list (skills.map summaryDocument)))
    else ({} : Outcome).printAll (tableLines skills)

def parameterLine (spec : ParameterSpec) : String :=
  let bits := [spec.type.name] ++ (if spec.required then ["required"] else [])
    ++ (spec.default?.map fun d => "default " ++ d.shown).toList
    ++ (spec.min?.map fun n => "min " ++ Number.text n).toList
    ++ (spec.max?.map fun n => "max " ++ Number.text n).toList
    ++ (if spec.choices.isEmpty then [] else ["one of " ++ Text.join "|" spec.choices])
  let description := if spec.description = "" then "" else ": " ++ spec.description
  "    " ++ spec.name ++ " (" ++ Text.join ", " bits ++ ")" ++ description

def listLine (heading separator : String) (items : List String) : List String :=
  if items.isEmpty then [] else ["  " ++ heading ++ ": " ++ Text.join separator items]

def skillLines (s : Skill) : List String :=
  [s!"{s.name} ({s.category.name}, {s.strategy.kindName})", "  " ++ s.description]
    ++ listLine "Aliases" ", " s.aliases ++ listLine "Tags" ", " s.tags
    ++ (if s.parameters.isEmpty then [] else "  Parameters:" :: s.parameters.map parameterLine)
    ++ (if s.isPipeline then ["  Expands to: " ++ Text.join " -> " (s.calls.map (·.skill))] else [])
    ++ s.examples.map ("  Example: " ++ ·)

def showSkill (r : Registry) (name : String) : Outcome :=
  match r.require name with
  | .ok s => ({} : Outcome).printAll (skillLines s)
  | .error f => ({} : Outcome).fail (.configuration f)

def act (s : Setup) : Action → Running Outcome
  | .compile pipeline flags json explain => compile s pipeline flags json explain
  | .validate pipeline flags json => validate s pipeline flags json
  | .listSkills category? tag? json => return listSkills (← get).registry category? tag? json
  | .searchSkills query => do
    let found := (← get).registry.search query
    return ({} : Outcome).printAll (tableLines found)
  | .showSkill name => return showSkill (← get).registry name
  | .catalogue => do
    let text ← Session.reading Registry.catalogueText
    return { out := text }
  | .schema => do
    let v ← Session.reading Registry.schema
    return ({} : Outcome).print (jsonLines v)

def environmentLevel? (env : Environment) : Option Level := (env "LOG_LEVEL").bind Level.ofName?

def actWith (s : Surroundings) (settings : Settings) (i : Invocation) : Running Outcome := do
  let source : Loading.Source := ⟨s.files, HandlerTable.builtin.has⟩
  match ← (Loading.fill source none (settings.skillDirs ++ i.skillDirs)).run with
  | .error f => return ({} : Outcome).fail f
  | .ok () => act ⟨s, { defaults := settings.defaults, files := s.files }⟩ i.action

/-- Runs an invocation. The environment decides before the settings how much is logged. -/
def invoke (s : Surroundings) (i : Invocation) : Outcome :=
  let level? := environmentLevel? s.env
  match Settings.load s.files s.files.workingDir i.settingsFile? s.env with
  | .error f => { ({} : Outcome).fail (.configuration f) with level := level?.getD .info }
  | .ok settings =>
    let (o, session) := (actWith s settings i).run {}
    { o with level := (level?.or settings.logLevel?).getD .info, notices := session.notices }

def run (s : Surroundings) (args : List String) : Outcome :=
  match Invocation.ofArguments args with
  | .ok i => invoke s i
  | .error .version => ({} : Outcome).print version
  | .error stop => (({} : Outcome).complainAll stop.message?.toList).exit 1

end CommandLine

end SkillPipeline
