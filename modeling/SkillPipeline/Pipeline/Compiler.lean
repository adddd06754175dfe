import SkillPipeline.Document.Digest
import SkillPipeline.Effect.Table
import SkillPipeline.Pipeline.Assembly

namespace SkillPipeline

structure Compiler where
  handlers : HandlerTable := .builtin
  defaults : MediaDefaults := {}
  binary : String := "ffmpeg"
  files : FileSystem

/-- The outcome of a compilation, with what the parameters of the steps have become. -/
structure Compiled where
  result : Except Fault Descriptor
  params : List (Members Value)

namespace Compiler

/-- The identity of a pipeline in the journal: the first digits of a digest of its steps. -/
def fingerprint (steps : List Step) : String :=
  String.ofList ((Digest.ofValue (.list (steps.map (·.document)))).toList.take 12)

def started (steps : List Step) : Notice :=
  { level := .info, message := "compile start"
    fields := [("steps", .number (Float.ofNat steps.length)),
      ("pipeline", .string (fingerprint steps))] }

def assemble (c : Compiler) (ctx : Context) (stages : List Stage) : Work Assembly := do
  let reservations ← MonadExcept.ofExcept
    (reserve c.handlers (fun taken => ctx.handlerView c.files taken []) stages)
  let view (s : Stage) : HandlerContext :=
    ctx.handlerView c.files (reservations.ownedByOthers s.id) (reservations.ownedBy s.id)
  let p ← Assembly.addAll c.handlers view {} stages
  Assembly.finish p ctx stages.length

/-- Compiles a request. The context comes first, then the steps, then the assembly. -/
def compile (c : Compiler) (request : Request) : StateM Session Compiled := do
  modify (·.note [started request.steps])
  match request.context.resolve c.files c.defaults with
  | .error f => return ⟨.error f, request.steps.map (·.params)⟩
  | .ok ctx =>
    let (params, stages) ← Expansion.steps false 0 request.steps
    match stages with
    | .error f => return ⟨.error f, params⟩
    | .ok stages =>
      let assembly ← (c.assemble ctx stages).run
      return ⟨assembly.map (·.descriptor c.binary ctx), params⟩

end Compiler

structure ValidationReport where
  issues : List String

namespace ValidationReport

def valid (r : ValidationReport) : Bool := r.issues.isEmpty

def document (r : ValidationReport) : Value :=
  .record [("valid", .bool r.valid), ("issues", .strings r.issues)]

end ValidationReport

inductive Validation where
  | report (r : ValidationReport)
  | exception (e : Exception)

def Validation.document : Validation → Value
  | .report r => r.document
  | .exception e => (Fault.exception e).report.document

namespace Compiler

def stepIssue (position : Nat) (s : Step) (f : Fault) : String :=
  s!"step {position + 1} ({s.skill}): {f.message}"

def stepIssues (steps : List Step) : ExceptT Exception (StateM Session) (List String) := do
  let issues ← steps.zipIdx.mapM fun (s, i) => do
    match (← Expansion.step false i s).2 with
    | .ok _ => return none
    | .error (.exception e) => throw e
    | .error f => return some (stepIssue i s f)
  return issues.filterMap id

/-- Checks a request: every step that cannot be expanded is an issue, and if all can, so is the
fault at which compiling stops. -/
def validate (c : Compiler) (request : Request) : StateM Session Validation := do
  match ← (stepIssues request.steps).run with
  | .error e => return .exception e
  | .ok [] =>
    match (← c.compile request).result with
    | .ok _ => return .report ⟨[]⟩
    | .error (.exception e) => return .exception e
    | .error f => return .report ⟨[f.message]⟩
  | .ok issues => return .report ⟨issues⟩

end Compiler

end SkillPipeline
