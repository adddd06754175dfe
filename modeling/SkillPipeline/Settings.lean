import SkillPipeline.Document.Shape
import SkillPipeline.Document.Yaml.Reader
import SkillPipeline.Fault
import SkillPipeline.Journal.Notice
import SkillPipeline.Pipeline.Context

namespace SkillPipeline

abbrev Environment := String → Option String

/-- Where skills are found, how much is logged, what media facts are taken for granted, and where
the service listens. -/
structure Settings where
  skillDirs : List String
  logLevel? : Option Level
  defaults : MediaDefaults
  host : String
  port : Float
  /-- The file that the settings come from, if they are not all defaults. -/
  source? : Option String := none

namespace Settings

def fileName : String := "skillc.yaml"

def levels : List (String × Level) :=
  [Level.debug, .info, .warn, .error].map fun l => (l.name, l)

def orNumber (n : Float) (s : Shape Float) : Shape Float := s.orDefault (.number n)

def defaultsShape : Shape MediaDefaults := .object fun v =>
  MediaDefaults.mk
    <$> Shape.field "fps" (orNumber 25 Shape.number.positive) v
    <*> Shape.field "width" (orNumber 1920 Shape.integer.positive) v
    <*> Shape.field "height" (orNumber 1080 Shape.integer.positive) v
    <*> Shape.field "still_duration" (orNumber 4 Shape.number.positive) v

def apiShape : Shape (String × Float) := .object fun v =>
  Prod.mk
    <$> Shape.field "host" (Shape.string.orDefault (.string "127.0.0.1")) v
    <*> Shape.field "port" (orNumber 7900 ((Shape.integer.atLeast 1).atMost 65535)) v

def fields : List String := ["skill_dirs", "log_level", "defaults", "api"]

def shape : Shape Settings := .strict fields <| .object fun v =>
  (fun dirs level defaults api => ⟨dirs, level, defaults, api.1, api.2, none⟩)
    <$> Shape.field "skill_dirs" ((Shape.list .string).orDefault (.list [])) v
    <*> Shape.field "log_level" (Shape.oneOf levels).optional v
    <*> Shape.field "defaults" (defaultsShape.orDefault (.object [])) v
    <*> Shape.field "api" (apiShape.orDefault (.object [])) v

/-- The settings of a project that says nothing. -/
def standard : Settings := ⟨[], none, {}, "127.0.0.1", 7900, none⟩

def document (s : Settings) : Value :=
  .record [("skill_dirs", .strings s.skillDirs),
    ("log_level", .ofOption (fun l => .string l.name) s.logLevel?),
    ("defaults", .record [("fps", .number s.defaults.fps), ("width", .number s.defaults.width),
      ("height", .number s.defaults.height),
      ("still_duration", .number s.defaults.stillDuration)]),
    ("api", .record [("host", .string s.host), ("port", .number s.port)]),
    ("source", .ofOption .string s.source?)]

def ofDocument (path : String) (v : Value) : Except ConfigurationFault Settings :=
  match (shape (if v.isMissing then .object [] else v)).toExcept with
  | .ok s => .ok s
  | .error issues => .error (.settingsInvalid path (issues.map (·.text "(root)")))

/-- The settings of a file. Skill directories are seen from where the file is. -/
def ofFile (files : FileSystem) (path : String) : Except ConfigurationFault Settings := do
  let text ← match files.read path with
    | .ok text => .ok text
    | .error why => .error (.settingsUnreadable path why.message)
  let v ← match Yaml.parse text with
    | some v => .ok v
    | none => .error (.settingsUnreadable path yamlErrorText)
  let s ← ofDocument path v
  return { s with
    skillDirs := s.skillDirs.map fun dir =>
      if Path.isAbsolute dir then dir else Path.resolve (Path.dirname path) dir
    source? := some path }

/-- The file that an argument or else a variable asks for; an empty name asks for none. -/
def requested? (argument? : Option String) (env : Environment) : Option String :=
  (argument?.or (env "SKILLC_CONFIG")).filter (· != "")

/-- The settings of the file that is asked for, or else of the project's own file if it exists. -/
def located (files : FileSystem) (cwd : String) (argument? : Option String) (env : Environment) :
    Except ConfigurationFault Settings :=
  match requested? argument? env with
  | some name =>
    let path := Path.resolve cwd name
    if files.exists? path then ofFile files path else .error (.settingsMissing path)
  | none =>
    let path := Path.resolve cwd fileName
    if files.exists? path then ofFile files path else .ok standard

def addedDirs (cwd : String) (env : Environment) : List String :=
  ((Text.splitAt ':' ((env "SKILLC_SKILL_DIRS").getD "")).filter
    fun dir => !Text.isBlankText dir).map (Path.resolve cwd)

def load (files : FileSystem) (dir : String) (argument? : Option String) (env : Environment) :
    Except ConfigurationFault Settings := do
  let cwd := files.resolve dir
  let s ← located files cwd argument? env
  return { s with skillDirs := s.skillDirs ++ addedDirs cwd env }

end Settings

end SkillPipeline
