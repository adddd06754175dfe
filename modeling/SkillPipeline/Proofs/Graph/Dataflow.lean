import Mathlib.Data.List.Nodup
import SkillPipeline.Graph.Merger

namespace SkillPipeline

/-- The term of all filters that a stream has gone through: it is a stream of an input, or an output
of a filter over what the filter reads. It is read off a finished graph by following the nodes
backwards, and it is also what the steps of a pipeline build when each of them acts at once. -/
inductive Flow where
  | source (index : Nat) (medium : Medium)
  | output (filter : FilterText) (inputs : List Flow) (slot : Nat)

namespace Flow

/-- A flow after filters with one input and one output each. -/
def after (flow : Flow) (filters : List FilterText) : Flow :=
  filters.foldl (fun flow filter => .output filter [flow] 0) flow

/-- An output of filters in a row: the first reads the inputs, and each other one the filter before
it. -/
def ofRow? (slot : Nat) : List Flow → List FilterText → Option Flow
  | inputs, [] => inputs[slot]?
  | inputs, [filter] => some (.output filter inputs slot)
  | inputs, filter :: next :: rest => ofRow? slot [.output filter inputs 0] (next :: rest)

theorem after_append (flow : Flow) (first second : List FilterText) :
    flow.after (first ++ second) = (flow.after first).after second := List.foldl_append

theorem ofRow?_zero (flow : Flow) (filters : List FilterText) :
    ofRow? 0 [flow] filters = some (flow.after filters) := by
  induction filters generalizing flow with
  | nil => rfl
  | cons filter rest ih =>
    cases rest with
    | nil => rfl
    | cons next rest => exact ih _

end Flow

/-- What a stream carries in a graph whose last node stands first. -/
def unfoldFrom : List LinkedNode → StreamRef → Option Flow
  | _, .stream index medium => some (.source index medium)
  | [], .label _ => none
  | node :: earlier, .label name =>
    match node.outputs.idxOf? name with
    | some slot =>
      (node.inputs.mapM fun ref => unfoldFrom earlier ref).bind (Flow.ofRow? slot · node.filters)
    | none => unfoldFrom earlier (.label name)

/-- What a stream carries in a graph, if it is produced and each node reads streams produced before
it. -/
def unfold (nodes : List LinkedNode) (ref : StreamRef) : Option Flow :=
  unfoldFrom nodes.reverse ref

section Unfold

variable {nodes more : List LinkedNode} {node : LinkedNode} {name : String} {flow : Flow}

@[simp] theorem unfold_stream (index : Nat) (medium : Medium) :
    unfold nodes (.stream index medium) = some (.source index medium) := by
  rw [unfold, unfoldFrom]

theorem unfold_nil_label : unfold [] (.label name) = none := rfl

theorem unfold_concat_of_output {slot : Nat} (h : node.outputs.idxOf? name = some slot) :
    unfold (nodes ++ [node]) (.label name) =
      (node.inputs.mapM (unfold nodes)).bind (Flow.ofRow? slot · node.filters) := by
  rw [unfold, List.reverse_append, List.reverse_singleton, List.singleton_append, unfoldFrom, h]
  rfl

theorem unfold_concat_of_notMem (h : name ∉ node.outputs) :
    unfold (nodes ++ [node]) (.label name) = unfold nodes (.label name) := by
  rw [unfold, List.reverse_append, List.reverse_singleton, List.singleton_append, unfoldFrom,
    List.idxOf?_eq_none_iff.mpr h]
  rfl

theorem unfold_append_of_notMem (h : name ∉ more.flatMap (·.outputs)) :
    unfold (nodes ++ more) (.label name) = unfold nodes (.label name) := by
  induction more generalizing nodes with
  | nil => rw [List.append_nil]
  | cons node rest ih =>
    rw [List.flatMap_cons, List.mem_append, not_or] at h
    rw [List.append_cons, ih h.2, unfold_concat_of_notMem h.1]

theorem mem_outputs_of_unfold (h : unfold nodes (.label name) = some flow) :
    name ∈ nodes.flatMap (·.outputs) := by
  by_contra hname
  have hnone : unfold nodes (.label name) = none := by
    rw [← List.nil_append nodes, unfold_append_of_notMem hname, unfold_nil_label]
  exact Option.some_ne_none flow (h.symm.trans hnone)

theorem unfold_append {ref : StreamRef} (hnodup : ((nodes ++ more).flatMap (·.outputs)).Nodup)
    (h : unfold nodes ref = some flow) : unfold (nodes ++ more) ref = some flow := by
  cases ref with
  | stream index medium => rwa [unfold_stream] at h ⊢
  | label name =>
    rw [List.flatMap_append, List.nodup_append'] at hnodup
    rw [unfold_append_of_notMem fun hmem => hnodup.2.2 (mem_outputs_of_unfold h) hmem, h]

end Unfold

/-- What a pad carries, given the main streams and the labels of the fragment so far. -/
def Pad.flow? (main : Medium → Flow) (known : List (String × Flow)) : Pad → Option Flow
  | .main medium => some (main medium)
  | .input index medium => some (.source index medium)
  | .label name => known.lookup name

/-- The labels of a fragment with those of one more node. -/
def GraphNode.evaluate? (main : Medium → Flow) (known : List (String × Flow)) (node : GraphNode) :
    Option (List (String × Flow)) := do
  let inputs ← node.inputs.mapM (Pad.flow? main known)
  return known ++ node.outputs.mapIdx fun slot name => (name, .output node.filter inputs slot)

def Fragment.evaluate? (main : Medium → Flow) (f : Fragment) : Option (List (String × Flow)) :=
  f.nodes.foldlM (GraphNode.evaluate? main) []

/-- The two main streams of a pipeline, and the audio filters since the last fragment that read or
replaced the audio. -/
structure Streams where
  video : Flow := .source 0 .video
  audio : Flow := .source 0 .audio
  recent : List FilterText := []

namespace Streams

def main (s : Streams) : Medium → Flow
  | .video => s.video
  | .audio => s.audio

def filtered (s : Streams) (video audio : List FilterText) : Streams :=
  { video := s.video.after (video.filter fun f => !f.isEmpty)
    audio := s.audio.after (audio.filter fun f => !f.isEmpty)
    recent := s.recent ++ audio.filter fun f => !f.isEmpty }

/-- The main stream of a medium after a fragment, given what its labels carry. -/
def settled? (s : Streams) (f : Fragment) (labels : List (String × Flow)) (medium : Medium) :
    Option Flow :=
  match f.output? medium with
  | some out => labels.lookup out
  | none => some (s.main medium)

/-- The streams after a fragment; one without nodes changes nothing. -/
def through? (s : Streams) (f : Fragment) : Option Streams :=
  if f.nodes.isEmpty then some s else do
    let labels ← f.evaluate? s.main
    let video ← s.settled? f labels .video
    let audio ← s.settled? f labels .audio
    return { video, audio, recent := if f.reads .audio || f.replaces .audio then [] else s.recent }

/-- The streams after the audio starts again at an input; it keeps its recent filters. -/
def restarted (s : Streams) (index : Nat) : Streams :=
  { s with audio := (Flow.source index .audio).after s.recent }

/-- The streams after an operation; the end of the merger leaves them alone. -/
def step? (s : Streams) : Merger.Op → Option Streams
  | .chains video audio => some (s.filtered video audio)
  | .fragment _ f => s.through? f
  | .replaceAudio index => some (s.restarted index)
  | .finalize _ => some s

def run? (s : Streams) (ops : List Merger.Op) : Option Streams := ops.foldlM step? s

end Streams

end SkillPipeline
