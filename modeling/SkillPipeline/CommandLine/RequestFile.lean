import SkillPipeline.CommandLine.Invocation
import SkillPipeline.Document.Json.Reader
import SkillPipeline.Fault
import SkillPipeline.Pipeline.Request

namespace SkillPipeline

/-- Where texts are read from: files, and the standard input under the name `-`. -/
structure TextSources where
  files : FileSystem
  standardInput : String

namespace TextSources

def nameOf (source : String) : String := if source = "-" then "stdin" else source

def read (s : TextSources) (source : String) : Except Fault String :=
  if source = "-" then .ok s.standardInput
  else match s.files.read source with
    | .ok text => .ok text
    | .error why => .error (.validation (.unreadableSource (nameOf source) why))

def readJson (s : TextSources) (source : String) : Except Fault Value := do
  match Json.parse (← s.read source) with
  | some v => .ok v
  | none => .error (.validation (.invalidJson (nameOf source)))

end TextSources

namespace ContextFlags

def members (f : ContextFlags) (texts : List String) : List (String × Value) := [
  ("input", .ofOption .string f.input?),
  ("output", .ofOption .string f.output?),
  ("extra_inputs", if f.extra.isEmpty then .absent else .strings f.extra),
  ("duration", .ofOption .number f.duration?),
  ("fps", .ofOption .number f.fps?),
  ("width", .ofOption .number f.width?),
  ("height", .ofOption .number f.height?),
  ("has_audio", if f.noAudio then .bool false else .absent),
  ("text_inputs", if texts.isEmpty then .absent else .strings texts),
  ("overwrite", if f.noOverwrite then .bool false else .absent)]

def override (f : ContextFlags) (texts : List String) (context : Members Value) : Members Value :=
  ((f.members texts).filter fun p => !p.2.isAbsent).foldl (fun m p => m.set p.1 p.2) context

end ContextFlags

namespace Request

def stepsOf : Value → Value
  | .list steps => .list steps
  | v => v.member "steps"

def contextOf (v : Value) : Members Value := ((v.member "context").members?).getD []

/-- The request of a pipeline file: a list of steps or a whole request. The options of the command
line fill in its context or override it. -/
def ofFile (sources : TextSources) (flags : ContextFlags) (v : Value) : Except Fault Request := do
  let texts ← flags.texts.mapM sources.read
  let document := Value.object [("steps", stepsOf v),
    ("context", .object (flags.override texts (contextOf v)))]
  match (shape document).toExcept with
  | .ok request => return request
  | .error issues =>
    .error (.validation (.invalidRequest .commandLine (issues.map (·.text "(request)"))))

end Request

end SkillPipeline
