import Mathlib.Data.List.Nodup
import SkillPipeline.Proofs.Graph.WellFormed
import SkillPipeline.Proofs.Outcome

namespace SkillPipeline

open Outcome

def LinkedNode.reads (node : LinkedNode) : List String := node.inputs.filterMap StreamRef.label?

theorem LinkedNode.reads_singleton (ref : StreamRef) (filters : List FilterText)
    (outputs : List String) :
    (⟨[ref], filters, outputs⟩ : LinkedNode).reads = ref.label?.toList := by
  cases hl : ref.label? <;> simp [LinkedNode.reads, hl]

namespace Merger

variable {m m' : Merger}

def link (m : Merger) (nodes : List LinkedNode) : Merger :=
  { m with
    nodes := m.nodes ++ nodes
    produced := m.produced ++ nodes.flatMap (·.outputs)
    consumed := m.consumed ++ nodes.flatMap (·.reads) }

@[simp] theorem link_nodes (nodes : List LinkedNode) : (m.link nodes).nodes = m.nodes ++ nodes :=
  rfl

@[simp] theorem link_produced (nodes : List LinkedNode) :
    (m.link nodes).produced = m.produced ++ nodes.flatMap (·.outputs) := rfl

@[simp] theorem link_consumed (nodes : List LinkedNode) :
    (m.link nodes).consumed = m.consumed ++ nodes.flatMap (·.reads) := rfl

@[simp] theorem link_mode (nodes : List LinkedNode) : (m.link nodes).mode = m.mode := rfl

@[simp] theorem link_channel (nodes : List LinkedNode) (medium : Medium) :
    (m.link nodes).channel medium = m.channel medium := by
  cases medium <;> rfl

theorem link_nil : m.link [] = m := by
  simp [link]

theorem link_link (first second : List LinkedNode) :
    (m.link first).link second = m.link (first ++ second) := by
  simp [link]

@[simp] theorem setChannel_nodes (medium : Medium) (c : Channel) :
    (m.setChannel medium c).nodes = m.nodes := by
  cases medium <;> rfl

@[simp] theorem setChannel_produced (medium : Medium) (c : Channel) :
    (m.setChannel medium c).produced = m.produced := by
  cases medium <;> rfl

@[simp] theorem setChannel_consumed (medium : Medium) (c : Channel) :
    (m.setChannel medium c).consumed = m.consumed := by
  cases medium <;> rfl

@[simp] theorem setChannel_mode (medium : Medium) (c : Channel) :
    (m.setChannel medium c).mode = m.mode := by
  cases medium <;> rfl

theorem setChannel_channel (medium other : Medium) (c : Channel) :
    (m.setChannel medium c).channel other = if other = medium then c else m.channel other := by
  cases medium <;> cases other <;> rfl

@[simp] theorem setMain_nodes (medium : Medium) (ref : StreamRef) :
    (m.setMain medium ref).nodes = m.nodes := setChannel_nodes ..

@[simp] theorem setMain_produced (medium : Medium) (ref : StreamRef) :
    (m.setMain medium ref).produced = m.produced := setChannel_produced ..

@[simp] theorem setMain_consumed (medium : Medium) (ref : StreamRef) :
    (m.setMain medium ref).consumed = m.consumed := setChannel_consumed ..

@[simp] theorem setMain_mode (medium : Medium) (ref : StreamRef) :
    (m.setMain medium ref).mode = m.mode := setChannel_mode ..

theorem setMain_channel (medium other : Medium) (ref : StreamRef) :
    (m.setMain medium ref).channel other =
      if other = medium then { m.channel medium with main := ref } else m.channel other :=
  setChannel_channel ..

/-- No label is produced twice, and none is consumed twice. -/
structure Single (m : Merger) : Prop where
  produced : m.produced.Nodup
  consumed : m.consumed.Nodup

theorem Single.of_link {nodes : List LinkedNode} (h : (m.link nodes).Single) : m.Single :=
  ⟨(List.nodup_append.mp h.produced).1, (List.nodup_append.mp h.consumed).1⟩

@[simp] theorem setChannel_single (medium : Medium) (c : Channel) :
    (m.setChannel medium c).Single ↔ m.Single := by
  constructor <;> rintro ⟨hp, hc⟩ <;> exact ⟨by simpa using hp, by simpa using hc⟩

@[simp] theorem setMain_single (medium : Medium) (ref : StreamRef) :
    (m.setMain medium ref).Single ↔ m.Single := setChannel_single ..

theorem produce_eq_ok {name : String} (h : m.produced.Nodup) :
    m.produce name = .ok m' ↔
      (m.produced ++ [name]).Nodup ∧ m' = { m with produced := m.produced ++ [name] } := by
  rw [← List.concat_eq_append, List.nodup_concat, and_iff_left h, produce]
  by_cases hn : name ∈ m.produced
  · simp [hn, broken]
  · simp [hn, eq_comm]

theorem consumeRef_eq_ok {ref : StreamRef} (h : m.consumed.Nodup) :
    m.consumeRef ref = .ok m' ↔
      (m.consumed ++ ref.label?.toList).Nodup ∧
        m' = { m with consumed := m.consumed ++ ref.label?.toList } := by
  cases ref with
  | stream index medium =>
    simp only [consumeRef, StreamRef.label?, Option.toList_none, List.append_nil, h, true_and]
    rw [Except.ok.injEq, eq_comm]
  | label name =>
    rw [consumeRef, consume, StreamRef.label?, Option.toList_some, ← List.concat_eq_append,
      List.nodup_concat, and_iff_left h]
    by_cases hn : name ∈ m.consumed
    · simp [hn, broken]
    · simp [hn, eq_comm]

theorem produceAll_eq_ok {names : List String} (h : m.produced.Nodup) :
    names.foldlM produce m = .ok m' ↔
      (m.produced ++ names).Nodup ∧ m' = { m with produced := m.produced ++ names } := by
  induction names generalizing m with
  | nil => rw [List.foldlM_nil, pure_eq_ok, List.append_nil, eq_comm]; exact (and_iff_right h).symm
  | cons name rest ih =>
    rw [foldlM_cons_eq_ok]
    constructor
    · rintro ⟨u, hu, hrest⟩
      obtain ⟨hn, rfl⟩ := (produce_eq_ok h).mp hu
      simpa using (ih hn).mp hrest
    · rintro ⟨hall, rfl⟩
      have hn : (m.produced ++ [name]).Nodup :=
        (List.nodup_append.mp (show ((m.produced ++ [name]) ++ rest).Nodup by simpa using hall)).1
      exact ⟨_, (produce_eq_ok h).mpr ⟨hn, rfl⟩, (ih hn).mpr ⟨by simpa using hall, by simp⟩⟩

theorem consumeAll_eq_ok {refs : List StreamRef} (h : m.consumed.Nodup) :
    refs.foldlM consumeRef m = .ok m' ↔
      (m.consumed ++ refs.filterMap StreamRef.label?).Nodup ∧
        m' = { m with consumed := m.consumed ++ refs.filterMap StreamRef.label? } := by
  induction refs generalizing m with
  | nil =>
    rw [List.foldlM_nil, pure_eq_ok, List.filterMap_nil, List.append_nil, eq_comm]
    exact (and_iff_right h).symm
  | cons ref rest ih =>
    rw [foldlM_cons_eq_ok, filterMap_cons_toList, ← List.append_assoc]
    constructor
    · rintro ⟨u, hu, hrest⟩
      obtain ⟨hn, rfl⟩ := (consumeRef_eq_ok h).mp hu
      exact (ih hn).mp hrest
    · rintro ⟨hall, rfl⟩
      have hn := (List.nodup_append.mp hall).1
      exact ⟨_, (consumeRef_eq_ok h).mpr ⟨hn, rfl⟩, (ih hn).mpr ⟨hall, rfl⟩⟩

theorem linkNode_eq_ok {inputs : List StreamRef} {filters : List FilterText}
    {outputs : List String} (h : m.Single) :
    (do let m ← inputs.foldlM consumeRef m
        let m ← outputs.foldlM produce m
        return m.push ⟨inputs, filters, outputs⟩) = Except.ok m' ↔
      (m.link [⟨inputs, filters, outputs⟩]).Single ∧ m' = m.link [⟨inputs, filters, outputs⟩] := by
  simp only [bind_eq_ok, pure_eq_ok]
  constructor
  · rintro ⟨u, hu, v, hv, rfl⟩
    obtain ⟨hc, rfl⟩ := (consumeAll_eq_ok h.consumed).mp hu
    obtain ⟨hp, rfl⟩ := (produceAll_eq_ok (by exact h.produced)).mp hv
    exact ⟨⟨by simpa using hp, by simpa [LinkedNode.reads] using hc⟩,
      by simp [push, link, LinkedNode.reads]⟩
  · rintro ⟨⟨hp, hc⟩, rfl⟩
    refine ⟨_, (consumeAll_eq_ok h.consumed).mpr ⟨by simpa [LinkedNode.reads] using hc, rfl⟩, _,
      (produceAll_eq_ok (by exact h.produced)).mpr ⟨by simpa using hp, rfl⟩, ?_⟩
    simp [push, link, LinkedNode.reads]

/-- The node that the waiting filters of a medium become. -/
def foldNode (m : Merger) (medium : Medium) : LinkedNode :=
  let c := m.channel medium
  ⟨[c.main], c.pending, [foldName medium c.folds]⟩

/-- The merger after a fold of a medium on which filters wait. -/
def foldedOnto (m : Merger) (medium : Medium) : Merger :=
  (m.link [m.foldNode medium]).setChannel medium
    { pending := []
      main := .label (foldName medium (m.channel medium).folds)
      folds := (m.channel medium).folds + 1 }

def folded (m : Merger) (medium : Medium) : Merger :=
  if (m.channel medium).pending.isEmpty then m else m.foldedOnto medium

theorem fold_eq_ok {medium : Medium} (h : m.Single) :
    m.fold medium = .ok m' ↔ (m.folded medium).Single ∧ m' = m.folded medium := by
  rw [fold, folded]
  by_cases hp : (m.channel medium).pending.isEmpty
  · simp only [hp, ↓reduceIte]
    rw [pure_eq_ok, eq_comm]
    exact (and_iff_right h).symm
  · simp only [hp, Bool.false_eq_true, ↓reduceIte, bind_eq_ok, pure_eq_ok, foldedOnto,
      setChannel_single, letter_append_toString]
    constructor
    · rintro ⟨u, hu, v, hv, rfl⟩
      obtain ⟨hc, rfl⟩ := (consumeRef_eq_ok h.consumed).mp hu
      obtain ⟨hp, rfl⟩ := (produce_eq_ok (by exact h.produced)).mp hv
      exact ⟨⟨by simpa [foldNode] using hp,
          by simpa [foldNode, LinkedNode.reads_singleton] using hc⟩,
        by simp [push, link, foldNode, LinkedNode.reads_singleton]⟩
    · rintro ⟨⟨hp, hc⟩, rfl⟩
      refine ⟨_, (consumeRef_eq_ok h.consumed).mpr ⟨?_, rfl⟩, _,
        (produce_eq_ok (by exact h.produced)).mpr ⟨by simpa [foldNode] using hp, rfl⟩, ?_⟩
      · simpa [foldNode, LinkedNode.reads_singleton] using hc
      · simp [push, link, foldNode, LinkedNode.reads_singleton]

/-- The node that ends a stream; streams of input files need none. -/
def sinks (medium : Medium) : StreamRef → List LinkedNode
  | .label name => [⟨[.label name], [medium.sink], []⟩]
  | .stream .. => []

@[simp] theorem sinks_outputs (medium : Medium) (ref : StreamRef) :
    (sinks medium ref).flatMap (·.outputs) = [] := by
  cases ref <;> rfl

@[simp] theorem sinks_reads (medium : Medium) (ref : StreamRef) :
    (sinks medium ref).flatMap (·.reads) = ref.label?.toList := by
  cases ref <;> rfl

def sunk (m : Merger) (medium : Medium) (ref : StreamRef) : Merger := m.link (sinks medium ref)

theorem sink_eq_ok {medium : Medium} {ref : StreamRef} (h : m.Single) :
    m.sink medium ref = .ok m' ↔ (m.sunk medium ref).Single ∧ m' = m.sunk medium ref := by
  cases ref with
  | stream index medium =>
    rw [sink, sunk, sinks, link_nil, Except.ok.injEq, eq_comm]
    exact (and_iff_right h).symm
  | label name =>
    rw [sink, sunk, sinks]
    refine Iff.trans ?_ (linkNode_eq_ok h)
    simp [consumeRef]

/-- The stream that a pad of a declared label, of an input or of a main stream stands for. -/
def linkedPad (m : Merger) (step : String) : Pad → StreamRef
  | .main medium => (m.channel medium).main
  | .input index medium => .stream index medium
  | .label name => .label (qualified step name)

def linkedNode (m : Merger) (step : String) (node : GraphNode) : LinkedNode :=
  ⟨node.inputs.map (m.linkedPad step), [node.filter], node.outputs.map (qualified step)⟩

@[simp] theorem link_linkedNode (nodes : List LinkedNode) (step : String) :
    (m.link nodes).linkedNode step = m.linkedNode step := by
  have hpad : (m.link nodes).linkedPad step = m.linkedPad step := by
    funext pad
    cases pad <;> simp [linkedPad]
  funext node
  rw [linkedNode, linkedNode, hpad]

theorem resolveAll_eq_ok {step : String} {labels : List String} {pads : List Pad}
    {refs : List StreamRef} :
    pads.mapM (m.resolve step labels) = .ok refs ↔
      (∀ name ∈ pads.filterMap Pad.label?, name ∈ labels) ∧ refs = pads.map (m.linkedPad step) := by
  induction pads generalizing refs with
  | nil => rw [List.mapM_nil, pure_eq_ok]; simp [eq_comm]
  | cons pad rest ih =>
    simp only [List.mapM_cons, bind_eq_ok, pure_eq_ok, ih]
    cases pad with
    | main medium => simp [resolve, linkedPad, Pad.label?, eq_comm]
    | input index medium => simp [resolve, linkedPad, Pad.label?, eq_comm]
    | label name =>
      have hcons : (Pad.label name :: rest).filterMap Pad.label? =
          name :: rest.filterMap Pad.label? := rfl
      rw [hcons, List.forall_mem_cons]
      by_cases hn : name ∈ labels
      · simp [resolve, linkedPad, hn, eq_comm]
      · simp [resolve, hn, broken]

theorem addNode_eq_ok {step : String} {labels : List String} {node : GraphNode} (h : m.Single) :
    m.addNode step labels node = .ok m' ↔
      (∀ name ∈ node.reads, name ∈ labels) ∧
        (m.link [m.linkedNode step node]).Single ∧ m' = m.link [m.linkedNode step node] := by
  rw [addNode, bind_eq_ok]
  constructor
  · rintro ⟨refs, hrefs, hlink⟩
    obtain ⟨hdeclared, rfl⟩ := resolveAll_eq_ok.mp hrefs
    exact ⟨hdeclared, (linkNode_eq_ok h).mp hlink⟩
  · rintro ⟨hdeclared, hlink⟩
    exact ⟨_, resolveAll_eq_ok.mpr ⟨hdeclared, rfl⟩, (linkNode_eq_ok h).mpr hlink⟩

theorem addNodes_eq_ok {step : String} {labels : List String} {nodes : List GraphNode}
    (h : m.Single) :
    nodes.foldlM (fun m node => m.addNode step labels node) m = .ok m' ↔
      (∀ node ∈ nodes, ∀ name ∈ node.reads, name ∈ labels) ∧
        (m.link (nodes.map (m.linkedNode step))).Single ∧
          m' = m.link (nodes.map (m.linkedNode step)) := by
  -- On the nodes; the merger they are added to changes with each, so it is generalized.
  induction nodes generalizing m m' with
  | nil =>
    rw [List.foldlM_nil, pure_eq_ok, List.map_nil, link_nil, eq_comm]
    simp [h]
  | cons node rest ih =>
    rw [foldlM_cons_eq_ok, List.map_cons]
    have hsplit : m.link (m.linkedNode step node :: rest.map (m.linkedNode step)) =
        (m.link [m.linkedNode step node]).link (rest.map (m.linkedNode step)) := by
      rw [link_link, List.singleton_append]
    constructor
    · rintro ⟨u, hu, hrest⟩
      obtain ⟨hdeclared, hs, rfl⟩ := (addNode_eq_ok h).mp hu
      obtain ⟨hdeclared', hs', rfl⟩ := (ih hs).mp hrest
      rw [link_linkedNode, ← hsplit] at hs'
      rw [link_linkedNode, ← hsplit]
      exact ⟨List.forall_mem_cons.mpr ⟨hdeclared, hdeclared'⟩, hs', rfl⟩
    · rintro ⟨hdeclared, hs, rfl⟩
      rw [hsplit] at hs ⊢
      have hfirst := hs.of_link
      refine ⟨_, (addNode_eq_ok h).mpr ⟨hdeclared node List.mem_cons_self, hfirst, rfl⟩,
        (ih hfirst).mpr ?_⟩
      rw [link_linkedNode]
      exact ⟨fun other hother => hdeclared other (List.mem_cons_of_mem node hother), hs, rfl⟩

theorem Single.of_folded {medium : Medium} (h : (m.folded medium).Single) : m.Single := by
  rw [folded] at h
  split at h
  · exact h
  · exact ((setChannel_single ..).mp h).of_link

/-- The merger after a fold of a medium that a fragment reads or replaces. -/
def foldedFor (m : Merger) (f : Fragment) (medium : Medium) : Merger :=
  if f.reads medium || f.replaces medium then m.folded medium else m

theorem Single.of_foldedFor {f : Fragment} {medium : Medium} (h : (m.foldedFor f medium).Single) :
    m.Single := by
  rw [foldedFor] at h
  split at h
  · exact h.of_folded
  · exact h

theorem foldIfTouched_eq_ok {f : Fragment} {medium : Medium} (h : m.Single) :
    foldIfTouched f m medium = .ok m' ↔
      (m.foldedFor f medium).Single ∧ m' = m.foldedFor f medium := by
  rw [foldIfTouched, foldedFor]
  split
  · exact fold_eq_ok h
  · rw [Except.ok.injEq, eq_comm]
    exact (and_iff_right h).symm

def entered (m : Merger) (f : Fragment) : Merger :=
  ({ m with mode := .graph }.foldedFor f .video).foldedFor f .audio

/-- The merger with the nodes of a fragment. -/
def joined (m : Merger) (step : String) (f : Fragment) : Merger :=
  (m.entered f).link (f.nodes.map ((m.entered f).linkedNode step))

/-- The merger after a fragment has given a medium its new main stream, if it has one. -/
def rerouted (m : Merger) (step : String) (f : Fragment) (medium : Medium) : Merger :=
  match f.output? medium with
  | some out =>
    (if f.reads medium then m else m.sunk medium (m.channel medium).main).setMain medium
      (.label (qualified step out))
  | none => m

/-- A fragment declares its output for a medium, or has none and leaves no label without a
successor. -/
def Settles (m : Merger) (f : Fragment) (medium : Medium) : Prop :=
  match f.output? medium with
  | some out => out ∈ f.outputs
  | none => f.reads medium → (m.channel medium).main.label? = none

theorem Single.of_rerouted {step : String} {f : Fragment} {medium : Medium}
    (h : (m.rerouted step f medium).Single) : m.Single := by
  rw [rerouted] at h
  split at h
  · rw [setMain_single] at h
    split at h
    · exact h
    · exact h.of_link
  · exact h

theorem replaceMain_eq_ok {step : String} {f : Fragment} {medium : Medium} (h : m.Single) :
    m.replaceMain step f medium = .ok m' ↔
      m.Settles f medium ∧ (m.rerouted step f medium).Single ∧
        m' = m.rerouted step f medium := by
  rw [replaceMain, Settles, rerouted]
  -- Only a main stream that is replaced without being read needs a sink of its own.
  cases ho : f.output? medium with
  | none =>
    cases hr : f.reads medium <;> cases hl : (m.channel medium).main.label? <;>
      simp [broken, h, eq_comm]
  | some out =>
    by_cases hd : out ∈ f.outputs
    · cases hr : f.reads medium with
      | true => simp [hd, h, eq_comm]
      | false =>
        simp only [hd, List.contains_eq_mem, decide_true, Bool.not_true, Bool.false_eq_true,
          ↓reduceIte, bind_pure_comp, fmap_eq_ok, true_and, setMain_single]
        constructor
        · rintro ⟨u, hu, rfl⟩
          obtain ⟨hs, rfl⟩ := (sink_eq_ok h).mp hu
          exact ⟨hs, rfl⟩
        · rintro ⟨hs, rfl⟩
          exact ⟨_, (sink_eq_ok h).mpr ⟨hs, rfl⟩, rfl⟩
    · simp [hd, broken, bind, Except.bind]

end Merger

end SkillPipeline
