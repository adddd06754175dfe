import SkillPipeline.Graph.Fragment

namespace SkillPipeline

inductive MergeMode where
  | accumulating
  | chain
  | graph
  | finalized
  deriving DecidableEq, Repr

def MergeMode.name : MergeMode → String
  | .accumulating => "accumulating"
  | .chain => "chain"
  | .graph => "graph"
  | .finalized => "finalized"

/-- One medium: the filters that wait, the main stream, and the number of chains folded. -/
structure Channel where
  pending : List FilterText := []
  main : StreamRef
  folds : Nat := 0

/-- What puts the filters of all steps together. Simple filters wait in one chain for each medium.
The first fragment turns the merger to graph mode for good: whenever a fragment touches a medium,
the filters waiting there become a node on the main stream, and the labels of a fragment get the
name of its step in front. -/
structure Merger where
  mode : MergeMode := .accumulating
  video : Channel := { main := .stream 0 .video }
  audio : Channel := { main := .stream 0 .audio }
  nodes : List LinkedNode := []
  produced : List String := []
  consumed : List String := []

structure Merged where
  clause : Clause
  graphMode : Bool
  video : StreamRef
  audio : StreamRef

namespace Merger

def channel (m : Merger) : Medium → Channel
  | .video => m.video
  | .audio => m.audio

def setChannel (m : Merger) (medium : Medium) (c : Channel) : Merger :=
  match medium with
  | .video => { m with video := c }
  | .audio => { m with audio := c }

def setMain (m : Merger) (medium : Medium) (ref : StreamRef) : Merger :=
  m.setChannel medium { m.channel medium with main := ref }

def broken {α : Type} (f : InvariantFault) : Except Fault α := .error (.invariant f)

def opened (m : Merger) : Except Fault Merger :=
  if m.mode = .finalized then broken .closed else .ok m

def push (m : Merger) (node : LinkedNode) : Merger := { m with nodes := m.nodes ++ [node] }

def produce (m : Merger) (name : String) : Except Fault Merger :=
  if m.produced.contains name then broken (.producedTwice name)
  else .ok { m with produced := m.produced ++ [name] }

def consume (m : Merger) (name : String) : Except Fault Merger :=
  if m.consumed.contains name then broken (.consumedTwice name)
  else .ok { m with consumed := m.consumed ++ [name] }

/-- Consumes a stream that is a label; streams of input files may be read any number of times. -/
def consumeRef (m : Merger) : StreamRef → Except Fault Merger
  | .label name => m.consume name
  | .stream .. => .ok m

/-- Ends a stream that nothing reads; streams of input files need no end. -/
def sink (m : Merger) (medium : Medium) : StreamRef → Except Fault Merger
  | .label name => do
    let m ← m.consume name
    return m.push ⟨[.label name], [medium.sink], []⟩
  | .stream .. => .ok m

/-- The filters that wait on a medium become a node on its main stream. -/
def fold (m : Merger) (medium : Medium) : Except Fault Merger := do
  let c := m.channel medium
  if c.pending.isEmpty then return m
  let name := medium.letter ++ toString c.folds
  let m ← m.consumeRef c.main
  let m ← m.produce name
  return (m.push ⟨[c.main], c.pending, [name]⟩).setChannel medium
    { pending := [], main := .label name, folds := c.folds + 1 }

/-- Adds simple filters; empty ones are dropped. -/
def addChains (m : Merger) (videoFilters audioFilters : List FilterText) : Except Fault Merger := do
  let m ← m.opened
  let video := videoFilters.filter fun f => !f.isEmpty
  let audio := audioFilters.filter fun f => !f.isEmpty
  if video.isEmpty && audio.isEmpty then return m
  return { m with
    mode := if m.mode = .accumulating then .chain else m.mode
    video := { m.video with pending := m.video.pending ++ video }
    audio := { m.audio with pending := m.audio.pending ++ audio } }

def qualified (step label : String) : String := step ++ "_" ++ label

def firstRepeated (seen : List String) : List String → Option String
  | [] => none
  | x :: rest => if seen.contains x then some x else firstRepeated (x :: seen) rest

def resolve (m : Merger) (step : String) (labels : List String) : Pad → Except Fault StreamRef
  | .main medium => .ok (m.channel medium).main
  | .input index medium => .ok (.stream index medium)
  | .label name =>
    if labels.contains name then .ok (.label (qualified step name))
    else broken (.labelUndeclared step name)

def addNode (m : Merger) (step : String) (labels : List String) (node : GraphNode) :
    Except Fault Merger := do
  let inputs ← node.inputs.mapM (m.resolve step labels)
  let m ← inputs.foldlM consumeRef m
  let outputs := node.outputs.map (qualified step)
  let m ← outputs.foldlM produce m
  return m.push ⟨inputs, [node.filter], outputs⟩

/-- The main stream of a medium after the nodes of a fragment. A main stream that the fragment
replaces without reading it still needs a consumer. -/
def replaceMain (m : Merger) (step : String) (f : Fragment) (medium : Medium) :
    Except Fault Merger :=
  let previous := (m.channel medium).main
  match f.output? medium with
  | some out => do
    if !f.outputs.contains out then broken (.outputUndeclared step out)
    let m ← if f.reads medium then .ok m else m.sink medium previous
    return m.setMain medium (.label (qualified step out))
  | none =>
    if f.reads medium && previous.label?.isSome then
      broken (.mainNotReplaced step medium.name)
    else .ok m

def foldIfTouched (f : Fragment) (m : Merger) (medium : Medium) : Except Fault Merger :=
  if f.reads medium || f.replaces medium then m.fold medium else .ok m

def addFragment (m : Merger) (step : String) (f : Fragment) : Except Fault Merger := do
  let m ← m.opened
  if f.nodes.isEmpty then return m
  let m := { m with mode := .graph }
  let m ← Medium.all.foldlM (foldIfTouched f) m
  match firstRepeated [] f.outputs with
  | some label => broken (.labelRepeated step label)
  | none =>
    let m ← f.nodes.foldlM (fun m node => m.addNode step f.outputs node) m
    Medium.all.foldlM (fun m medium => m.replaceMain step f medium) m

/-- Makes the audio of an input the main audio. Waiting filters carry over to it; audio that went
through the graph is ended, and the answer is then false. -/
def replaceAudioSource (m : Merger) (index : Nat) : Except Fault (Merger × Bool) := do
  let m ← m.opened
  let previous := m.audio.main
  let m ← (m.setMain .audio (.stream index .audio)).sink .audio previous
  return (m, previous.label?.isNone)

def finals (m : Merger) : List String := [m.video.main, m.audio.main].filterMap StreamRef.label?

/-- Ends the graph: folds what waits, and ends the audio if it is not kept. -/
def finalizeGraph (m : Merger) (keepAudio : Bool) : Except Fault Merger := do
  let m ← m.fold .video
  let m ← m.fold .audio
  let m ← if keepAudio then .ok m else do
    let ended ← m.sink .audio m.audio.main
    .ok (if m.audio.main.label?.isSome then ended.setMain .audio (.stream 0 .audio) else ended)
  match m.produced.find? fun name => !m.consumed.contains name && !m.finals.contains name with
  | some name => broken (.neverConsumed name)
  | none => .ok m

def chainClause (m : Merger) : Clause :=
  let filters (c : Channel) := if c.pending.isEmpty then none else some c.pending
  match filters m.video, filters m.audio with
  | none, none => .none
  | video?, audio? => .chain video? audio?

/-- Closes the merger and gives the filters of the whole command with its two final streams. -/
def finalize (m : Merger) (keepAudio : Bool) : Except Fault (Merger × Merged) := do
  let m ← m.opened
  let m := if keepAudio then m else { m with audio := { m.audio with pending := [] } }
  let graphMode := m.mode == .graph
  let m ← if graphMode then m.finalizeGraph keepAudio else .ok m
  let clause := if graphMode then .graph m.nodes else m.chainClause
  return ({ m with mode := .finalized },
    { clause, graphMode, video := m.video.main, audio := m.audio.main })

inductive Op where
  | chains (video audio : List FilterText)
  | fragment (step : String) (f : Fragment)
  | replaceAudio (index : Nat)
  | finalize (keepAudio : Bool)

inductive Answer where
  | done
  | kept (previous : Bool)
  | merged (result : Merged)

def apply (m : Merger) : Op → Except Fault (Merger × Answer)
  | .chains video audio => (m.addChains video audio).map (·, .done)
  | .fragment step f => (m.addFragment step f).map (·, .done)
  | .replaceAudio index => (m.replaceAudioSource index).map fun (m, kept) => (m, .kept kept)
  | .finalize keepAudio => (m.finalize keepAudio).map fun (m, result) => (m, .merged result)

/-- The mode in which a failed operation leaves the merger: a fragment turns it to graph mode
before anything else can fail. -/
def modeAfterFault (m : Merger) : Op → MergeMode
  | .fragment .. => if m.mode = .finalized then .finalized else .graph
  | _ => m.mode

end Merger

end SkillPipeline
