import SkillPipeline.Proofs.Graph.Linearity
import SkillPipeline.Proofs.Graph.Wiring

namespace SkillPipeline

/-- Every label that one of the nodes reads is known or an output of an earlier one. -/
def Sequenced (known : List String) : List LinkedNode → Prop
  | [] => True
  | node :: rest => (∀ name ∈ node.reads, name ∈ known) ∧ Sequenced (known ++ node.outputs) rest

theorem sequenced_append {known : List String} {first second : List LinkedNode} :
    Sequenced known (first ++ second) ↔
      Sequenced known first ∧ Sequenced (known ++ first.flatMap (·.outputs)) second := by
  induction first generalizing known with
  | nil => simp [Sequenced]
  | cons node rest ih =>
    rw [List.cons_append, Sequenced, Sequenced, ih, List.flatMap_cons, List.append_assoc, and_assoc]

theorem Sequenced.earlier {before after : List LinkedNode} {node : LinkedNode}
    (h : Sequenced [] (before ++ node :: after)) :
    ∀ name ∈ node.reads, name ∈ before.flatMap (·.outputs) := by
  intro name hname
  have hnode := (sequenced_append.mp h).2.1 name hname
  rwa [List.nil_append] at hnode

/-- A stream of an input there is, if it is one of an input. -/
def StreamRef.Within (inputs : Nat) : StreamRef → Prop
  | .stream index _ => index < inputs
  | .label _ => True

/-- A stream of an input there is and of this medium, if it is one of an input. -/
def StreamRef.Fits (inputs : Nat) (medium : Medium) : StreamRef → Prop
  | .stream index other => index < inputs ∧ other = medium
  | .label _ => True

theorem StreamRef.Fits.within {ref : StreamRef} {inputs : Nat} {medium : Medium}
    (h : ref.Fits inputs medium) : ref.Within inputs := by
  cases ref with
  | stream index other => exact h.1
  | label name => trivial

namespace Merger

open Outcome

variable {m m' : Merger} {step : String} {f : Fragment} {inputs : Nat}

/-- The graph so far reads only what is there, and so will what comes next. -/
structure Closed (m : Merger) (inputs : Nat) : Prop where
  produced_eq : m.produced = m.nodes.flatMap (·.outputs)
  consumed_eq : m.consumed = m.nodes.flatMap (·.reads)
  sequenced : Sequenced [] m.nodes
  within : ∀ node ∈ m.nodes, ∀ ref ∈ node.inputs, ref.Within inputs
  main_fits : ∀ medium, (m.channel medium).main.Fits inputs medium
  main_produced : ∀ medium, ∀ name ∈ m.mainLabels medium, name ∈ m.produced

theorem closed_start (h : 0 < inputs) : ({} : Merger).Closed inputs where
  produced_eq := rfl
  consumed_eq := rfl
  sequenced := trivial
  within _ hnode := nomatch hnode
  main_fits medium := by cases medium <;> exact ⟨h, rfl⟩
  main_produced medium := by cases medium <;> exact fun _ hname => nomatch hname

namespace Closed

theorem link (h : m.Closed inputs) {nodes : List LinkedNode}
    (hsequenced : Sequenced m.produced nodes)
    (hwithin : ∀ node ∈ nodes, ∀ ref ∈ node.inputs, ref.Within inputs) :
    (m.link nodes).Closed inputs where
  produced_eq := by rw [link_produced, link_nodes, List.flatMap_append, h.produced_eq]
  consumed_eq := by rw [link_consumed, link_nodes, List.flatMap_append, h.consumed_eq]
  sequenced := by
    rw [link_nodes, sequenced_append, List.nil_append, ← h.produced_eq]
    exact ⟨h.sequenced, hsequenced⟩
  within node hnode := by
    obtain hold | hnew := List.mem_append.mp hnode
    · exact h.within node hold
    · exact hwithin node hnew
  main_fits medium := by
    rw [link_channel]
    exact h.main_fits medium
  main_produced medium name hname := by
    rw [link_mainLabels] at hname
    exact List.mem_append_left _ (h.main_produced medium name hname)

theorem setChannel (h : m.Closed inputs) {medium : Medium} {c : Channel}
    (hfits : c.main.Fits inputs medium)
    (hproduced : ∀ name ∈ c.main.label?.toList, name ∈ m.produced) :
    (m.setChannel medium c).Closed inputs where
  produced_eq := by rw [setChannel_produced, setChannel_nodes, h.produced_eq]
  consumed_eq := by rw [setChannel_consumed, setChannel_nodes, h.consumed_eq]
  sequenced := by
    rw [setChannel_nodes]
    exact h.sequenced
  within := by
    rw [setChannel_nodes]
    exact h.within
  main_fits other := by
    rw [setChannel_channel]
    split
    · next heq => exact heq ▸ hfits
    · exact h.main_fits other
  main_produced other := by
    rw [mainLabels, setChannel_channel, setChannel_produced]
    split
    · exact hproduced
    · exact h.main_produced other

theorem setMain (h : m.Closed inputs) {medium : Medium} {ref : StreamRef}
    (hfits : ref.Fits inputs medium) (hproduced : ∀ name ∈ ref.label?.toList, name ∈ m.produced) :
    (m.setMain medium ref).Closed inputs := h.setChannel hfits hproduced

theorem of_same {u : Merger} (h : m.Closed inputs) (hnodes : u.nodes = m.nodes)
    (hproduced : u.produced = m.produced) (hconsumed : u.consumed = m.consumed)
    (hmain : ∀ medium, (u.channel medium).main = (m.channel medium).main) : u.Closed inputs where
  produced_eq := by rw [hproduced, hnodes, h.produced_eq]
  consumed_eq := by rw [hconsumed, hnodes, h.consumed_eq]
  sequenced := hnodes ▸ h.sequenced
  within := hnodes ▸ h.within
  main_fits medium := hmain medium ▸ h.main_fits medium
  main_produced medium := by
    rw [mainLabels, hmain, hproduced]
    exact h.main_produced medium

theorem linkMain (h : m.Closed inputs) {medium : Medium} {filters : List FilterText}
    {outputs : List String} :
    (m.link [⟨[(m.channel medium).main], filters, outputs⟩]).Closed inputs := by
  refine h.link ⟨fun name hname => ?_, trivial⟩ fun node hnode ref href => ?_
  · rw [LinkedNode.reads_singleton] at hname
    exact h.main_produced medium name hname
  · rw [List.mem_singleton.mp hnode] at href
    rw [List.mem_singleton.mp href]
    exact (h.main_fits medium).within

theorem foldedOnto (h : m.Closed inputs) (medium : Medium) :
    (m.foldedOnto medium).Closed inputs := by
  rw [Merger.foldedOnto]
  refine h.linkMain.setChannel trivial fun name hname => ?_
  rw [List.mem_singleton.mp hname]
  simp

theorem folded (h : m.Closed inputs) (medium : Medium) : (m.folded medium).Closed inputs := by
  rw [Merger.folded]
  split
  · exact h
  · exact h.foldedOnto medium

theorem sunk (h : m.Closed inputs) (medium : Medium) :
    (m.sunk medium (m.channel medium).main).Closed inputs := by
  rw [Merger.sunk]
  cases hmain : (m.channel medium).main with
  | stream index other => exact h.link trivial fun _ hnode => absurd hnode List.not_mem_nil
  | label name =>
    rw [sinks, ← hmain]
    exact h.linkMain

theorem entered (h : m.Closed inputs) : (m.entered f).Closed inputs := by
  have hfold {u : Merger} {medium : Medium} (hu : u.Closed inputs) :
      (u.foldedFor f medium).Closed inputs := by
    rw [foldedFor]
    split
    · exact hu.folded medium
    · exact hu
  have hgraph : ({ m with mode := .graph } : Merger).Closed inputs :=
    h.of_same rfl rfl rfl fun medium => by cases medium <;> rfl
  exact hfold (hfold hgraph)

/-- The nodes of a fragment in the graph read what its own nodes read, and the main streams. -/
theorem sequenced_linkedNodes (h : m.Closed inputs) {known base : List String}
    {nodes : List GraphNode} (hnodes : Fragment.OrderedFrom known nodes)
    (hbase : ∀ name ∈ m.produced, name ∈ base)
    (hknown : ∀ name ∈ known, qualified step name ∈ base) :
    Sequenced base (nodes.map (m.linkedNode step)) := by
  -- On the nodes: the labels that the fragment knows stand qualified among those of the graph.
  induction nodes generalizing known base with
  | nil => trivial
  | cons node rest ih =>
    refine ⟨fun name hname => ?_, ih hnodes.2 (fun name hname => ?_) fun name hname => ?_⟩
    · obtain ⟨ref, href, hlabel⟩ := List.mem_filterMap.mp hname
      obtain ⟨pad, hpad, rfl⟩ := List.mem_map.mp href
      cases pad with
      | input index medium => cases hlabel
      | main medium =>
        exact hbase name (h.main_produced medium name (Option.mem_toList.mpr hlabel))
      | label other =>
        cases hlabel
        exact hknown other (hnodes.1 other (List.mem_filterMap.mpr ⟨_, hpad, rfl⟩))
    · exact List.mem_append_left _ (hbase name hname)
    · obtain hold | hnew := List.mem_append.mp hname
      · exact List.mem_append_left _ (hknown name hold)
      · exact List.mem_append_right _ (List.mem_map_of_mem hnew)

theorem joined (h : m.Closed inputs) (hordered : f.Ordered)
    (hindices : ∀ index ∈ f.indices, index < inputs) : (m.joined step f).Closed inputs := by
  have hentered : (m.entered f).Closed inputs := h.entered
  refine hentered.link (hentered.sequenced_linkedNodes hordered (fun _ hname => hname)
    fun _ hname => nomatch hname) fun node hnode ref href => ?_
  obtain ⟨inner, hinner, rfl⟩ := List.mem_map.mp hnode
  obtain ⟨pad, hpad, rfl⟩ := List.mem_map.mp href
  cases pad with
  | main medium => exact (hentered.main_fits medium).within
  | label name => trivial
  | input index medium =>
    have hmem : .input index medium ∈ f.pads := List.mem_flatMap.mpr ⟨inner, hinner, hpad⟩
    exact hindices index (List.mem_filterMap.mpr ⟨_, hmem, rfl⟩)

theorem rerouted (h : m.Closed inputs) {medium : Medium}
    (hout : ∀ out, f.output? medium = some out → qualified step out ∈ m.produced) :
    (m.rerouted step f medium).Closed inputs := by
  rw [Merger.rerouted]
  cases ho : f.output? medium with
  | none => exact h
  | some out =>
    have hproduced : ∀ name ∈ (StreamRef.label (qualified step out)).label?.toList,
        name ∈ m.produced := fun name hname => by
      rw [List.mem_singleton.mp hname]
      exact hout out ho
    dsimp only
    split
    · exact h.setMain trivial hproduced
    · exact (h.sunk medium).setMain trivial fun name hname =>
        List.mem_append_left _ (hproduced name hname)

theorem extended (h : m.Closed inputs) (hf : f.WellFormed) (hordered : f.Ordered)
    (hindices : ∀ index ∈ f.indices, index < inputs) : (m.extended step f).Closed inputs := by
  have hjoined : (m.joined step f).Closed inputs := h.joined hordered hindices
  have hout (medium : Medium) (out : String) (ho : f.output? medium = some out) :
      qualified step out ∈ (m.joined step f).produced := by
    rw [Merger.joined, link_produced, outputs_linkedNodes]
    exact List.mem_append_right _ (List.mem_map_of_mem (hf.output_free medium out ho).1)
  refine (hjoined.rerouted (hout .video)).rerouted fun out ho => ?_
  rw [rerouted_produced]
  exact hout .audio out ho

theorem restarted (h : m.Closed inputs) {index : Nat} (hindex : index < inputs) :
    (m.restarted index).Closed inputs := by
  have hmain : ((m.sunk .audio (m.channel .audio).main).setMain .audio
      (.stream index .audio)).Closed inputs :=
    (h.sunk .audio).setMain ⟨hindex, rfl⟩ fun _ hname => nomatch hname
  exact hmain

theorem chained (h : m.Closed inputs) (video audio : List FilterText) :
    (m.chained video audio).Closed inputs :=
  h.of_same rfl rfl rfl fun medium => by cases medium <;> rfl

theorem ended (h : m.Closed inputs) (hinputs : 0 < inputs) (keepAudio : Bool) :
    (m.ended keepAudio).Closed inputs := by
  have hmuted : (m.muted keepAudio).Closed inputs := by
    rw [muted]
    split
    · exact h
    · exact h.of_same rfl rfl rfl fun medium => by cases medium <;> rfl
  rw [Merger.ended]
  split
  · have hdrained : (m.muted keepAudio).drained.Closed inputs :=
      (hmuted.folded .video).folded .audio
    rw [silenced]
    split
    · exact hdrained
    · split
      · exact (hdrained.sunk .audio).setMain ⟨hinputs, rfl⟩
          fun _ hname => absurd hname List.not_mem_nil
      · exact hdrained
  · exact hmuted

end Closed

/-- An operation that reads only inputs there are, and whose fragment, if it has one, is sound. -/
def Op.Sound (inputs : Nat) : Op → Prop
  | .fragment _ f => f.Sound (List.range inputs)
  | .replaceAudio index => index < inputs
  | .finalize _ => False
  | .chains .. => True

theorem Op.Sound.wellFormed {op : Op} (h : op.Sound inputs) : op.WellFormed := by
  cases op with
  | fragment step f => exact Fragment.Sound.wellFormed h
  | finalize keepAudio => exact h.elim
  | chains video audio => trivial
  | replaceAudio index => trivial

theorem Step.closed {op : Op} (hstep : m.Step op m') (hop : op.Sound inputs)
    (h : m.Closed inputs) : m'.Closed inputs := by
  cases hstep with
  | chains video audio => exact h.chained video audio
  | nothing empty => exact h
  | fragment nonempty admits single =>
    have hf : Fragment.Sound _ (List.range inputs) := hop
    exact h.extended hf.wellFormed hf.ordered fun index hindex =>
      List.mem_range.mp (hf.owned index hindex)
  | replaceAudio single => exact h.restarted hop

/-- What holds between the operations so far and the merger that they lead to, if each operation of
a kind carries it on, holds after a run of such operations. -/
theorem follows_of_run {P : List Op → Merger → Prop} {Q : Op → Prop} {ops : List Op}
    (done : List Op)
    (hstep : ∀ {done : List Op} {u u' : Merger} {op : Op}, u.Step op u' → Q op → P done u →
      P (done ++ [op]) u')
    (h : P done m) (hsingle : m.Single) (hopen : ∀ op ∈ ops, op.Open) (hops : ∀ op ∈ ops, Q op)
    (hrun : m.run ops = .ok m') : P (done ++ ops) m' ∧ m'.Single := by
  -- On the operations, one step of the merger for each.
  induction ops generalizing m done with
  | nil => exact pure_eq_ok.mp hrun ▸ ⟨done.append_nil.symm ▸ h, hsingle⟩
  | cons op rest ih =>
    obtain ⟨u, happly, hrest⟩ := run_cons_eq_ok.mp hrun
    obtain ⟨hfirst, hothers⟩ := List.forall_mem_cons.mp hopen
    obtain ⟨hop, hlater⟩ := List.forall_mem_cons.mp hops
    obtain ⟨-, hdone⟩ := (apply_eq_ok hsingle hfirst).mp happly
    rw [List.append_cons]
    exact ih _ (hstep hdone hop h) (hdone.single hsingle) hothers hlater hrest

theorem keeps_of_run {P : Merger → Prop} {Q : Op → Prop} {ops : List Op}
    (hstep : ∀ {u u' : Merger} {op : Op}, u.Step op u' → Q op → P u → P u') (h : P m)
    (hsingle : m.Single) (hopen : ∀ op ∈ ops, op.Open) (hops : ∀ op ∈ ops, Q op)
    (hrun : m.run ops = .ok m') : P m' ∧ m'.Single :=
  follows_of_run (P := fun _ => P) [] hstep h hsingle hopen hops hrun

/-- A run of sound operations leaves a merger closed. -/
theorem Closed.run {ops : List Op} (h : m.Closed inputs) (hsingle : m.Single)
    (hops : ∀ op ∈ ops, op.Sound inputs) (hrun : m.run ops = .ok m') : m'.Closed inputs :=
  (keeps_of_run (fun hstep hop hu => hstep.closed hop hu) h hsingle
    (fun op hop => (hops op hop).wellFormed.open) hops hrun).1

def LabelsInGraph (m : Merger) : Prop :=
  m.mode ≠ .graph → ∀ medium, (m.channel medium).main.label? = none

theorem labelsInGraph_start : ({} : Merger).LabelsInGraph :=
  fun _ medium => by cases medium <;> rfl

theorem Step.labelsInGraph {op : Op} (hstep : m.Step op m') (h : m.LabelsInGraph) :
    m'.LabelsInGraph := by
  cases hstep with
  | chains video audio =>
    intro hmode medium
    have hbefore : m.mode ≠ .graph := fun heq => hmode (by simp [chained, heq])
    have hmain := h hbefore medium
    cases medium <;> exact hmain
  | nothing empty => exact h
  | fragment nonempty admits single => exact fun hmode => absurd (extended_mode ..) hmode
  | replaceAudio single =>
    intro hmode medium
    rw [restarted_mode] at hmode
    rw [restarted, sunk, link_channel, setMain_channel]
    split
    · rfl
    · exact h hmode medium

theorem LabelsInGraph.run {ops : List Op} (h : m.LabelsInGraph) (hsingle : m.Single)
    (hopen : ∀ op ∈ ops, op.Open) (hrun : m.run ops = .ok m') : m'.LabelsInGraph :=
  (keeps_of_run (fun hstep _ hu => hstep.labelsInGraph hu) h hsingle hopen hopen hrun).1

/-- A merger that has met no fragment, so there are no labels yet. -/
structure Unlabelled (m : Merger) : Prop where
  mode : m.mode ≠ .graph
  single : m.Single
  labels : m.LabelsInGraph

theorem unlabelled_start : ({} : Merger).Unlabelled :=
  ⟨by decide, ⟨List.nodup_nil, List.nodup_nil⟩, labelsInGraph_start⟩

theorem Unlabelled.run {ops : List Op} (h : m.Unlabelled)
    (hops : ∀ op ∈ ops, op.Open ∧ op.step? = none) (hrun : m.run ops = .ok m') :
    m'.Unlabelled := by
  have hopen (op : Op) (hop : op ∈ ops) : op.Open := (hops op hop).1
  have hstep {u u' : Merger} {op : Op} (hstep : u.Step op u') (hop : op.Open ∧ op.step? = none)
      (hu : u.mode ≠ .graph) : u'.mode ≠ .graph := by
    cases hstep with
    | chains video audio =>
      rw [chained]
      dsimp only
      split
      · decide
      · exact hu
    | nothing empty => exact hu
    | fragment nonempty admits single => cases hop.2
    | replaceAudio single => rwa [restarted_mode]
  obtain ⟨hmode, hsingle⟩ := keeps_of_run hstep h.mode h.single hopen hops hrun
  exact ⟨hmode, hsingle, h.labels.run h.single hopen hrun⟩

end Merger

end SkillPipeline
