import SkillPipeline.CommandLine.Options

namespace SkillPipeline

structure ContextFlags where
  input? : Option String := none
  output? : Option String := none
  extra : List String := []
  duration? : Option Float := none
  fps? : Option Float := none
  width? : Option Float := none
  height? : Option Float := none
  noAudio : Bool := false
  texts : List String := []
  noOverwrite : Bool := false

inductive Action where
  | compile (pipeline : String) (flags : ContextFlags) (json explain : Bool)
  | validate (pipeline : String) (flags : ContextFlags) (json : Bool)
  | listSkills (category? tag? : Option String) (json : Bool)
  | searchSkills (query : String)
  | showSkill (name : String)
  | catalogue
  | schema

/-- What the command line asks for. General options stand before or after the command's name; the
options of a command belong to it alone. -/
structure Invocation where
  settingsFile? : Option String
  skillDirs : List String
  action : Action

namespace Invocation

/-- A command: its options, its required argument if it has one, and what it stands for. -/
structure Command where
  name : String
  options : List OptionSpec := []
  argument? : Option String := none
  action : Arguments → String → Action

def json : OptionSpec := { long := "--json" }

def contextOptions : List OptionSpec := [
  { long := "--input", short? := some "-i", kind := .text "<path>" },
  { long := "--output", short? := some "-o", kind := .text "<path>" },
  { long := "--extra", kind := .text "<path>" },
  { long := "--duration", kind := .number "<seconds>" },
  { long := "--fps", kind := .number "<rate>" },
  { long := "--width", kind := .number "<px>" },
  { long := "--height", kind := .number "<px>" },
  { long := "--no-audio" },
  { long := "--text", kind := .text "<file>" },
  { long := "--no-overwrite" }]

def contextFlags (a : Arguments) : ContextFlags :=
  { input? := a.value? "--input", output? := a.value? "--output", extra := a.values "--extra"
    duration? := a.number? "--duration", fps? := a.number? "--fps", width? := a.number? "--width"
    height? := a.number? "--height", noAudio := a.has "--no-audio", texts := a.values "--text"
    noOverwrite := a.has "--no-overwrite" }

def compile : Command :=
  { name := "compile"
    options := contextOptions ++ [json, { long := "--explain" }]
    argument? := some "pipeline"
    action := fun a pipeline =>
      .compile pipeline (contextFlags a) (a.has "--json") (a.has "--explain") }

def validate : Command :=
  { name := "validate"
    options := contextOptions ++ [json]
    argument? := some "pipeline"
    action := fun a pipeline => .validate pipeline (contextFlags a) (a.has "--json") }

def listSkills : Command :=
  { name := "list"
    options := [{ long := "--category", kind := .text "<category>" },
      { long := "--tag", kind := .text "<tag>" }, json]
    action := fun a _ => .listSkills (a.value? "--category") (a.value? "--tag") (a.has "--json") }

def searchSkills : Command :=
  { name := "search", argument? := some "query", action := fun _ query => .searchSkills query }

def showSkill : Command :=
  { name := "show", argument? := some "name", action := fun _ name => .showSkill name }

def catalogue : Command := { name := "catalog", action := fun _ _ => .catalogue }

def schema : Command := { name := "schema", action := fun _ _ => .schema }

def commands : List Command := [compile, validate, catalogue, schema]

def skillCommands : List Command := [listSkills, searchSkills, showSkill]

def skillsName : String := "skills"

def generalOptions : List OptionSpec := [
  { long := "--version", short? := some "-V", kind := .version },
  { long := "--config", short? := some "-c", kind := .text "<path>" },
  { long := "--skills", kind := .text "<dir>" }]

/-- The long names of options that may be suggested; help is always one of them. -/
def suggestible (options : List OptionSpec) : List String :=
  options.map (·.long) ++ ["--help"] ++ generalOptions.map (·.long)

def checkUnknown (options : List OptionSpec) (a : Arguments) : Except Stop Unit :=
  match a.unknown with
  | [] => .ok ()
  | flag :: _ => .error (.unknownOption flag (Suggestion.nearestOptions flag (suggestible options)))

def noSuchCommand {α : Type} (names : List String) (a : Arguments) : Except Stop α :=
  match a.operands with
  | name :: _ => .error (.unknownCommand name (Suggestion.nearest name (names ++ ["help"])))
  | [] => do
    checkUnknown [] a
    .error .noCommand

/-- The arguments that the reader before has left over, sorted by the next one. -/
def resort (options : List OptionSpec) (operands : List String) (unknown : List String) :
    Except Stop Arguments := do
  let a ← Arguments.sort options {} unknown
  return { a with operands := operands ++ a.operands }

def read (c : Command) (operands unknown : List String) : Except Stop Action := do
  let a ← resort c.options operands unknown
  checkUnknown c.options a
  match c.argument?, a.operands with
  | some name, [] => .error (.missingArgument name)
  | _, operands => return c.action a (operands.headD "")

def readSkills (operands unknown : List String) : Except Stop Action := do
  let a ← resort [] operands unknown
  match a.operands with
  | name :: rest =>
    match skillCommands.find? (·.name == name) with
    | some c => read c rest a.unknown
    | none => noSuchCommand (skillCommands.map (·.name)) a
  | [] => noSuchCommand (skillCommands.map (·.name)) a

def readAction (a : Arguments) : Except Stop Action :=
  match a.operands with
  | name :: rest =>
    if name = skillsName then readSkills rest a.unknown
    else match commands.find? (·.name == name) with
      | some c => read c rest a.unknown
      | none => noSuchCommand (skillsName :: commands.map (·.name)) a
  | [] => noSuchCommand (skillsName :: commands.map (·.name)) a

/-- The invocation that a list of arguments spells. -/
def ofArguments (args : List String) : Except Stop Invocation := do
  let a ← Arguments.sort generalOptions {} args
  return ⟨a.value? "--config", a.values "--skills", ← readAction a⟩

end Invocation

end SkillPipeline
