import SkillPipeline.Effect.Handler
import SkillPipeline.Files.Access
import SkillPipeline.Pipeline.Request

namespace SkillPipeline

structure MediaDefaults where
  fps : Float := 25
  width : Float := 1920
  height : Float := 1080
  stillDuration : Float := 4

/-- A request's context with every path admitted and every fact of the media filled in that the
caller left out. -/
structure Context where
  input : String
  output : String
  extras : List ExtraInput
  duration? : Option Float
  fps : Float
  width : Float
  height : Float
  hasAudio : Bool
  textInputs : List String
  stillDuration : Float
  overwrite : Bool

def RequestContext.extraAt (c : RequestContext) (files : FileSystem) (path : String)
    (position : Nat) : Except Fault ExtraInput := do
  let resolved ← files.accept path .media
  let given := c.extraKinds?.bind (·[position]?)
  return ⟨position + 1, resolved, given.getD ((MediaKind.ofPath? resolved).getD .video),
    c.extraDurations?.bind (·[position]?)⟩

/-- The context of a request. Extra inputs are looked at first, then the input, then the output. -/
def RequestContext.resolve (c : RequestContext) (files : FileSystem) (d : MediaDefaults) :
    Except Fault Context := do
  let extras ← c.extraInputs.zipIdx.mapM fun (path, i) => c.extraAt files path i
  let input ← files.accept c.input .media
  let output ← files.acceptOutput c.output
  return { input, output, extras
           duration? := c.duration?
           fps := c.fps?.getD d.fps
           width := c.width?.getD d.width
           height := c.height?.getD d.height
           hasAudio := c.hasAudio?.getD true
           textInputs := c.textInputs
           stillDuration := d.stillDuration
           overwrite := c.overwrite?.getD true }

namespace Context

def extraDocument (e : ExtraInput) : Value :=
  .record [("index", .number (Float.ofNat e.index)), ("path", .string e.path),
    ("kind", .string e.kind.name), ("duration", .ofOption .number e.duration?)]

def document (c : Context) : Value :=
  .record [("input", .string c.input), ("output", .string c.output),
    ("extras", .list (c.extras.map extraDocument)),
    ("duration", .ofOption .number c.duration?), ("fps", .number c.fps),
    ("width", .number c.width), ("height", .number c.height), ("hasAudio", .bool c.hasAudio),
    ("textInputs", .strings c.textInputs), ("stillDuration", .number c.stillDuration),
    ("overwrite", .bool c.overwrite)]

/-- What a handler sees, given the extra inputs of other steps and its own. -/
def handlerView (c : Context) (files : FileSystem) (others own : List Nat) : HandlerContext :=
  { primary := ⟨c.input, c.duration?, c.fps, c.width, c.height, c.hasAudio⟩
    extras := c.extras
    reservedByOthers := others
    ownInputs := own
    textInputs := c.textInputs
    stillDuration := c.stillDuration
    files }

end Context

end SkillPipeline
