import SkillPipeline.Document.Json.Reader
import SkillPipeline.Document.Shape
import SkillPipeline.Journal.Notice
import SkillPipeline.Text.Basic

namespace SkillPipeline

structure TextEnvelope where
  text : String
  mode : String
  fontSize? : Option Float
  fontColor? : Option String
  position? : Option String
  startTime? : Option Float
  endTime? : Option Float

namespace TextEnvelope

def modes : List String := ["overlay", "watermark", "title_card", "auto"]

def shape : Shape TextEnvelope := .object fun v =>
  TextEnvelope.mk
    <$> Shape.field "text" (Shape.string.orDefault (.string "")) v
    <*> Shape.field "mode" (Shape.oneOf (modes.map fun m => (m, m))) v
    <*> Shape.field "font_size" Shape.number.positive.optional v
    <*> Shape.field "font_color" Shape.string.optional v
    <*> Shape.field "position" Shape.string.optional v
    <*> Shape.field "start_time" Shape.number.optional v
    <*> Shape.field "end_time" Shape.number.optional v

def document (e : TextEnvelope) : Value :=
  .record [("text", .string e.text), ("mode", .string e.mode),
    ("font_size", .ofOption .number e.fontSize?), ("font_color", .ofOption .string e.fontColor?),
    ("position", .ofOption .string e.position?), ("start_time", .ofOption .number e.startTime?),
    ("end_time", .ofOption .number e.endTime?)]

end TextEnvelope

/-- A text that comes with a request. One that is not JSON is shown as it is; JSON must be an
envelope, which can also say how and when its text is shown. JSON of any other form is passed
over. -/
inductive TextPayload where
  | literal (text : String)
  | envelope (e : TextEnvelope)

namespace TextPayload

def ofText? (raw : String) : Option TextPayload :=
  match Json.parse raw with
  | none => some (.literal raw)
  | some v =>
    match TextEnvelope.shape v with
    | .accepted e => some (.envelope e)
    | _ => none

def first? (inputs : List String) : Option TextPayload := inputs.findSome? ofText?

/-- A notice for each text input passed over before the first that holds something. -/
def skipped (inputs : List String) : List Notice :=
  (inputs.takeWhile fun raw => (ofText? raw).isNone).map fun raw =>
    { level := .debug, message := "Ignoring text input without a known mode",
      fields := [("length", .number (Float.ofNat (Text.unitLength raw)))] }

def document : TextPayload → Value
  | .literal text => .record [("kind", .string "literal"), ("text", .string text)]
  | .envelope e => .record [("kind", .string "envelope"), ("envelope", e.document)]

end TextPayload

end SkillPipeline
