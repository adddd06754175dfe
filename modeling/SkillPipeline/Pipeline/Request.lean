import SkillPipeline.Document.Shape
import SkillPipeline.Files.Media

namespace SkillPipeline

/-- A skill by name or alias, with parameters as they were given. -/
structure Step where
  skill : String
  params : Members Value := []

namespace Step

def shape : Shape Step := .object fun v =>
  Step.mk
    <$> Shape.field "skill" .nonEmpty v
    <*> Shape.field "params" ((Shape.record .any).orDefault (.object [])) v

def document (step : Step) : Value :=
  .record [("skill", .string step.skill), ("params", .object step.params)]

end Step

/-- The input and output files of a pipeline, and what the caller knows of the input. -/
structure RequestContext where
  input : String
  output : String
  extraInputs : List String
  extraKinds? : Option (List MediaKind)
  extraDurations? : Option (List Float)
  duration? : Option Float
  fps? : Option Float
  width? : Option Float
  height? : Option Float
  hasAudio? : Option Bool
  textInputs : List String
  overwrite? : Option Bool

namespace RequestContext

def matchesExtras {α : Type} (c : RequestContext) (items? : Option (List α)) : Bool :=
  match items? with
  | some items => items.length == c.extraInputs.length
  | none => true

def kindNames : List (String × MediaKind) := MediaKind.all.map fun k => (k.name, k)

def fields : Shape RequestContext := .object fun v =>
  RequestContext.mk
    <$> Shape.field "input" .nonEmpty v
    <*> Shape.field "output" .nonEmpty v
    <*> Shape.field "extra_inputs" ((Shape.list .nonEmpty).orDefault (.list [])) v
    <*> Shape.field "extra_input_kinds" (Shape.list (.oneOf kindNames)).optional v
    <*> Shape.field "extra_durations" (Shape.list (Shape.number.atLeast 0)).optional v
    <*> Shape.field "duration" (Shape.number.atLeast 0).optional v
    <*> Shape.field "fps" Shape.number.positive.optional v
    <*> Shape.field "width" Shape.integer.positive.optional v
    <*> Shape.field "height" Shape.integer.positive.optional v
    <*> Shape.field "has_audio" Shape.bool.optional v
    <*> Shape.field "text_inputs" ((Shape.list .string).orDefault (.list [])) v
    <*> Shape.field "overwrite" Shape.bool.optional v

def shape : Shape RequestContext :=
  .refine (fun c => c.matchesExtras c.extraDurations?)
    "extra_durations must have the same length as extra_inputs" ["extra_durations"] <|
  .refine (fun c => c.matchesExtras c.extraKinds?)
    "extra_input_kinds must have the same length as extra_inputs" ["extra_input_kinds"] fields

def document (c : RequestContext) : Value :=
  .record [("input", .string c.input), ("output", .string c.output),
    ("extra_inputs", .strings c.extraInputs),
    ("extra_input_kinds", .ofOption (fun kinds => .strings (kinds.map (·.name))) c.extraKinds?),
    ("extra_durations", .ofOption (fun ns => .list (ns.map .number)) c.extraDurations?),
    ("duration", .ofOption .number c.duration?), ("fps", .ofOption .number c.fps?),
    ("width", .ofOption .number c.width?), ("height", .ofOption .number c.height?),
    ("has_audio", .ofOption .bool c.hasAudio?), ("text_inputs", .strings c.textInputs),
    ("overwrite", .ofOption .bool c.overwrite?)]

end RequestContext

structure Request where
  steps : List Step
  context : RequestContext

namespace Request

def shape : Shape Request := .object fun v =>
  Request.mk
    <$> Shape.field "steps" (.list Step.shape) v
    <*> Shape.field "context" RequestContext.shape v

def document (r : Request) : Value :=
  .record [("steps", .list (r.steps.map (·.document))), ("context", r.context.document)]

end Request

end SkillPipeline
