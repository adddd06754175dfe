import SkillPipeline.Command.Descriptor
import SkillPipeline.Command.Flags
import SkillPipeline.Graph.Merger
import SkillPipeline.Pipeline.Rendering
import SkillPipeline.Pipeline.Reservation

namespace SkillPipeline

inductive Mapping where
  | stream (ref : StreamRef)
  | optional (index : Nat) (medium : Medium)
  | subtitle (index : Nat) (track : Float)

namespace Mapping

def text : Mapping → String
  | .stream ref => ref.mapText
  | .optional index medium => StreamRef.spec index medium ++ "?"
  | .subtitle index track => toString index ++ ":s:" ++ Number.text track

def ofTarget (merged : Merged) : MapTarget → Mapping
  | .main .video => .stream merged.video
  | .main .audio => .stream merged.audio
  | .input index medium false => .stream (.stream index medium)
  | .input index medium true => .optional index medium
  | .subtitle index track => .subtitle index track

/-- The mappings of a graph when no step asks for any. -/
def defaults (merged : Merged) (keepAudio : Bool) : List Mapping :=
  if !merged.graphMode then []
  else if !keepAudio then [.stream merged.video]
  else match merged.audio with
    | .label name => [.stream merged.video, .stream (.label name)]
    | .stream .. => [.stream merged.video, .optional 0 .audio]

end Mapping

namespace Assembly

structure Progress where
  merger : Merger := {}
  inputFlags : List String := []
  outputFlags : List String := []
  warnings : List String := []
  /-- The mappings that a step asks for, with the name of its skill. -/
  maps? : Option (List MapTarget × String) := none
  producedAudio : Bool := false
  audioReplaced : Bool := false

def addFilters (s : Stage) (p : Progress) (c : Contribution) : Except Fault Progress :=
  match c.fragment? with
  | some f => do
    if c.hasFilters then .error (.invariant (.graphAndFilters s.skill.name))
    return { p with
      merger := ← p.merger.addFragment s.id f
      producedAudio := p.producedAudio || f.audio?.isSome }
  | none => do
    return { p with
      merger := ← p.merger.addChains c.videoFilters c.audioFilters
      producedAudio := p.producedAudio || c.audioFilters.any fun f => !f.isEmpty }

def replaceAudio (s : Stage) (p : Progress) (c : Contribution) : Except Fault Progress :=
  match c.audioSource? with
  | none => .ok p
  | some index => do
    let (merger, kept) ← p.merger.replaceAudioSource index
    let warnings := if kept then [] else [s!"audio processed before '{s.skill.name}' is discarded"]
    return { p with merger, warnings := p.warnings ++ warnings, audioReplaced := true }

def replaceMaps (s : Stage) (p : Progress) (c : Contribution) : Progress :=
  match c.maps? with
  | none => p
  | some maps =>
    let warnings := match p.maps? with
      | some (_, skill) => [s!"stream mapping from '{skill}' replaced by '{s.skill.name}'"]
      | none => []
    { p with maps? := some (maps, s.skill.name), warnings := p.warnings ++ warnings }

def add (p : Progress) (s : Stage) (c : Contribution) : Except Fault Progress := do
  let p ← addFilters s p c
  let p ← replaceAudio s p c
  return replaceMaps s
    { p with
      inputFlags := p.inputFlags ++ c.inputFlags
      outputFlags := p.outputFlags ++ c.outputFlags } c

/-- What a handler makes of a stage. An exception in it becomes a fault of the stage. -/
def guarded (s : Stage) (r : Except Fault Contribution) : Except Fault Contribution :=
  match r with
  | .error (.exception e) => .error (.invariant (.handlerFailed s.skill.name e.message))
  | r => r

def contribution (table : HandlerTable) (view : HandlerContext) (s : Stage) :
    List Notice × Except Fault Contribution :=
  match s.skill.strategy with
  | .template text target => ([], s.params.renderTemplate text target)
  | .pipeline _ => ([], .error (.invariant (.unexpanded s.skill.name)))
  | .handler _ =>
    match s.handler? table with
    | .error f => ([], .error f)
    | .ok none => ([], .error (.invariant (.unexpanded s.skill.name)))
    | .ok (some h) => (h.notices s.params view, guarded s (h.compile s.params view))

def addAll (table : HandlerTable) (view : Stage → HandlerContext) (p : Progress) :
    List Stage → Work Progress
  | [] => return p
  | s :: rest => do
    let (notices, result) := contribution table (view s) s
    modify (·.note notices)
    let p ← MonadExcept.ofExcept (result >>= add p s)
    addAll table view p rest

def audioDisabled (outputFlags : List String) : Bool := outputFlags.contains "-an"

def mappings (p : Progress) (merged : Merged) (keepAudio : Bool) : List Mapping :=
  match p.maps? with
  | none => Mapping.defaults merged keepAudio
  | some (targets, _) =>
    (targets.filter fun t => keepAudio || !isMainAudio t).map (Mapping.ofTarget merged)
where
  isMainAudio : MapTarget → Bool
    | .main .audio => true
    | _ => false

def unmapped? (merged : Merged) (maps : List String) : Option String :=
  ([merged.video, merged.audio].filter fun ref =>
    ref.label?.isSome && !maps.contains ref.mapText).findSome? StreamRef.label?

/-- No mapping may occur twice, and every final label must be mapped. -/
def checkMappings (p : Progress) (merged : Merged) (maps : List String) : Except Fault Unit :=
  if !allDistinct maps then .error (.invariant (.duplicateMaps maps))
  else match unmapped? merged maps with
    | some label => .error (.invariant (.outputUnmapped label (p.maps?.map (·.2))))
    | none => .ok ()
where
  allDistinct : List String → Bool
    | [] => true
    | x :: rest => !rest.contains x && allDistinct rest

end Assembly

/-- An assembled pipeline, with its filters and mappings still structured. Of repeated flags the
last counts. Audio is kept if the input has some or a step brings some, unless a flag turns it
off. -/
structure Assembly where
  inputFlags : List String
  outputFlags : List String
  merged : Merged
  maps : List Mapping
  keepAudio : Bool
  warnings : List String

namespace Assembly

def warn (text : String) : Notice := { level := .warn, message := text }

/-- Why the audio filters of a pipeline are in vain, if they are. -/
def discardReason? (p : Progress) (disabled keepAudio : Bool) : Option String :=
  if keepAudio || !p.producedAudio then none
  else some (if disabled then "audio output is disabled (-an)" else "the input has no audio")

/-- Ends the assembly: settles the audio, closes the merger and maps the final streams. -/
def finish (p : Progress) (ctx : Context) (stages : Nat) : Work Assembly := do
  let outputFlags := FlagGroup.dedupe p.outputFlags
  let disabled := audioDisabled outputFlags
  let keepAudio := (ctx.hasAudio || p.audioReplaced) && !disabled
  let reason? := discardReason? p disabled keepAudio
  let warnings := p.warnings ++ (reason?.map ("audio filters discarded: " ++ ·)).toList
  modify (·.note (reason?.map fun reason => { warn "Discarding audio filters" with
    fields := [("reason", .string reason)] }).toList)
  let (_, merged) ← MonadExcept.ofExcept (p.merger.finalize keepAudio)
  let maps := mappings p merged keepAudio
  MonadExcept.ofExcept (checkMappings p merged (maps.map (·.text)))
  modify (·.note (warnings.map warn ++ [{
    level := .debug, message := "compile done"
    fields := [("units", .number (Float.ofNat stages)), ("graph", .bool merged.graphMode),
      ("maps", .number (Float.ofNat maps.length))] }]))
  return ⟨FlagGroup.dedupe p.inputFlags, outputFlags, merged, maps, keepAudio, warnings⟩

def descriptor (a : Assembly) (binary : String) (ctx : Context) : Descriptor :=
  { binary
    globalFlags := [if ctx.overwrite then "-y" else "-n"]
    inputs := ⟨ctx.input, a.inputFlags⟩ :: ctx.extras.map fun e => ⟨e.path, []⟩
    filter := a.merged.clause.written
    outputFlags := a.outputFlags
    maps := a.maps.map (·.text)
    output := ctx.output
    warnings := a.warnings }

end Assembly

end SkillPipeline
