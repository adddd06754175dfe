import Mathlib.Data.List.Pairwise
import SkillPipeline.Proofs.Graph.Operations

namespace SkillPipeline

/-- A node lies on the dataflow path of a stream: it gives the stream itself, or one that another
node of the path reads. -/
inductive Upstream (nodes : List LinkedNode) (node : LinkedNode) : StreamRef → Prop
  | gives {name : String} (hnode : node ∈ nodes) (hgives : name ∈ node.outputs) :
      Upstream nodes node (.label name)
  | through {other : LinkedNode} {ref : StreamRef} {name : String} (hother : other ∈ nodes)
      (hreads : ref ∈ other.inputs) (hgives : name ∈ other.outputs)
      (hpath : Upstream nodes node ref) : Upstream nodes node (.label name)

namespace LinkedNode

theorem mem_reads {node : LinkedNode} {name : String} (h : .label name ∈ node.inputs) :
    name ∈ node.reads := List.mem_filterMap.mpr ⟨.label name, h, rfl⟩

theorem eq_of_reads {nodes : List LinkedNode} (hnodup : (nodes.flatMap reads).Nodup)
    {a b : LinkedNode} (ha : a ∈ nodes) (hb : b ∈ nodes) {name : String} (hna : name ∈ a.reads)
    (hnb : name ∈ b.reads) : a = b := by
  have hsymm : Std.Symm (Function.onFun List.Disjoint reads) := ⟨fun _ _ h _ hb ha => h ha hb⟩
  by_contra hne
  have hdisjoint : a.reads.Disjoint b.reads := (List.nodup_flatMap.mp hnodup).2.forall ha hb hne
  exact hdisjoint hna hnb

end LinkedNode

/-- Nothing comes of a stream that a sink reads: a node which gives only that stream is upstream of
no other. -/
theorem Upstream.eq_of_sink {nodes : List LinkedNode} {node sink : LinkedNode} {name : String}
    {ref : StreamRef} (hnodup : (nodes.flatMap (·.reads)).Nodup) (hsink : sink ∈ nodes)
    (hinputs : .label name ∈ sink.inputs) (houtputs : sink.outputs = [])
    (hnode : node.outputs = [name]) (h : Upstream nodes node ref) : ref = .label name := by
  induction h with
  | gives hmem hgives =>
    rw [hnode, List.mem_singleton] at hgives
    rw [hgives]
  | through hother hreads hgives hpath ih =>
    subst ih
    have heq := LinkedNode.eq_of_reads hnodup hother hsink (LinkedNode.mem_reads hreads)
      (LinkedNode.mem_reads hinputs)
    rw [heq, houtputs] at hgives
    exact absurd hgives List.not_mem_nil

namespace Merger

open Outcome

variable {m m' : Merger} {step : String} {f : Fragment}

/-- What holds between a merger and one that it becomes: nodes are only added, each reading the
labels counted as consumed, and the name of a chain folded before becomes a main stream only by
having been one. -/
structure Grows (m m' : Merger) : Prop where
  nodes : ∃ added, m'.nodes = m.nodes ++ added ∧
    m'.consumed = m.consumed ++ added.flatMap (·.reads)
  folds : ∀ medium, (m.channel medium).folds ≤ (m'.channel medium).folds
  main : ∀ medium, (m'.channel medium).main = (m.channel medium).main ∨
    ∀ count < (m.channel medium).folds, (m'.channel medium).main ≠ .label (foldName medium count)

namespace Grows

theorem refl : m.Grows m where
  nodes := ⟨[], by simp⟩
  folds _ := Nat.le_refl _
  main _ := .inl rfl

theorem trans {u : Merger} (h : m.Grows u) (hu : u.Grows m') : m.Grows m' where
  nodes := by
    obtain ⟨first, hfirst, hfirstReads⟩ := h.nodes
    obtain ⟨second, hsecond, hsecondReads⟩ := hu.nodes
    refine ⟨first ++ second, ?_, ?_⟩
    · rw [hsecond, hfirst, List.append_assoc]
    · rw [hsecondReads, hfirstReads, List.flatMap_append, List.append_assoc]
  folds medium := Nat.le_trans (h.folds medium) (hu.folds medium)
  main medium := by
    obtain hsame | hpassed := hu.main medium
    · rw [hsame]
      exact h.main medium
    · exact .inr fun count hcount => hpassed count (Nat.lt_of_lt_of_le hcount (h.folds medium))

theorem link (nodes : List LinkedNode) : m.Grows (m.link nodes) where
  nodes := ⟨nodes, rfl, rfl⟩
  folds medium := Nat.le_of_eq (congrArg Channel.folds (link_channel nodes medium).symm)
  main medium := by
    rw [link_channel]
    exact .inl rfl

/-- A medium may get another main stream, as long as no chain folded before has its name. -/
theorem setChannel {medium : Medium} {c : Channel} (hfolds : (m.channel medium).folds ≤ c.folds)
    (hmain : ∀ count < (m.channel medium).folds, c.main ≠ .label (foldName medium count)) :
    m.Grows (m.setChannel medium c) where
  nodes := ⟨[], by simp⟩
  folds other := by
    rw [setChannel_channel]
    split
    · next heq => exact heq ▸ hfolds
    · exact Nat.le_refl _
  main other := by
    rw [setChannel_channel]
    split
    · next heq => exact .inr (heq ▸ hmain)
    · exact .inl rfl

theorem setMain {medium : Medium} {ref : StreamRef}
    (hmain : ∀ count, ref ≠ .label (foldName medium count)) : m.Grows (m.setMain medium ref) :=
  setChannel (Nat.le_refl _) fun count _ => hmain count

theorem folded (medium : Medium) : m.Grows (m.folded medium) := by
  rw [Merger.folded]
  split
  · exact refl
  · refine (link [m.foldNode medium]).trans (setChannel ?_ fun count hcount heq => ?_)
    · rw [link_channel]
      exact Nat.le_succ _
    · rw [link_channel] at hcount
      have hname := (foldName_inj.mp (StreamRef.label.inj heq)).2
      omega

theorem foldedFor (medium : Medium) : m.Grows (m.foldedFor f medium) := by
  rw [Merger.foldedFor]
  split
  · exact folded medium
  · exact refl

theorem joined : (Merger.foldedFor { m with mode := .graph } f .video).Grows (m.joined step f) :=
  (foldedFor .audio).trans (link _)

theorem sunk (medium : Medium) (ref : StreamRef) : m.Grows (m.sunk medium ref) := link _

theorem rerouted (medium : Medium) : m.Grows (m.rerouted step f medium) := by
  rw [Merger.rerouted]
  split
  · next out _ =>
    have hmain (count : Nat) :
        StreamRef.label (qualified step out) ≠ .label (foldName medium count) :=
      fun heq => qualified_ne_foldName step out medium count (StreamRef.label.inj heq)
    split
    · exact setMain hmain
    · exact (sunk medium _).trans (setMain hmain)
  · exact refl

theorem extended : m.Grows (m.extended step f) := by
  have hgraph : m.Grows { m with mode := .graph } :=
    ⟨⟨[], by simp⟩, fun medium => by cases medium <;> exact Nat.le_refl _,
      fun medium => .inl (by cases medium <;> rfl)⟩
  have hjoined : m.Grows (m.joined step f) := (hgraph.trans (foldedFor .video)).trans joined
  exact (hjoined.trans (rerouted .video)).trans (rerouted .audio)

theorem of_step {op : Op} (hstep : m.Step op m') : m.Grows m' := by
  cases hstep with
  | chains video audio =>
    refine ⟨⟨[], by simp [chained]⟩, fun medium => ?_, fun medium => .inl ?_⟩
    · cases medium <;> exact Nat.le_refl _
    · cases medium <;> rfl
  | nothing empty => exact refl
  | fragment nonempty admits single => exact extended
  | replaceAudio single =>
    refine (setMain fun count heq => ?_).trans (sunk .audio _)
    cases heq

theorem ended (keepAudio : Bool) : m.Grows (m.ended keepAudio) := by
  have hmuted : m.Grows (m.muted keepAudio) := by
    rw [muted]
    split
    · exact refl
    · refine ⟨⟨[], by simp⟩, fun medium => ?_, fun medium => .inl ?_⟩
      · cases medium <;> exact Nat.le_refl _
      · cases medium <;> rfl
  rw [Merger.ended]
  split
  · have hdrained : m.Grows (m.muted keepAudio).drained :=
      (hmuted.trans (folded .video)).trans (folded .audio)
    refine hdrained.trans ?_
    rw [silenced]
    split
    · exact refl
    · split
      · refine (sunk .audio _).trans (setMain fun count heq => ?_)
        cases heq
      · exact refl
  · exact hmuted

theorem consumed_eq (h : ({} : Merger).Grows m) : m.consumed = m.nodes.flatMap (·.reads) := by
  obtain ⟨added, hnodes, hconsumed⟩ := h.nodes
  have hstart : ({} : Merger).nodes = [] ∧ ({} : Merger).consumed = [] := ⟨rfl, rfl⟩
  rw [hnodes, hconsumed, hstart.1, hstart.2, List.nil_append, List.nil_append]

theorem mem_nodes (h : m.Grows m') {node : LinkedNode} (hnode : node ∈ m.nodes) :
    node ∈ m'.nodes := by
  obtain ⟨added, hnodes, -⟩ := h.nodes
  rw [hnodes]
  exact List.mem_append_left added hnode

end Grows

theorem apply_closed (h : m.mode = .finalized) (op : Op) :
    m.apply op = .error (.invariant .closed) := by
  have hopened : m.opened = .error (.invariant .closed) := by rw [opened, if_pos h]; rfl
  cases op with
  | chains video audio => rw [apply, addChains, hopened]; rfl
  | fragment step f => rw [apply, addFragment, hopened]; rfl
  | replaceAudio index => rw [apply, replaceAudioSource, hopened]; rfl
  | finalize keepAudio => rw [apply, finalize, hopened]; rfl

theorem apply_finalized (h : m.mode = .finalized) (op : Op) (u : Merger) :
    (m.apply op).map (·.1) ≠ .ok u := by
  rw [apply_closed h]
  exact nofun

theorem open_of_run {ops : List Op} (hrun : m.run ops = .ok m') (hmode : m'.mode ≠ .finalized) :
    ∀ op ∈ ops, op.Open := by
  induction ops generalizing m with
  | nil => simp
  | cons op rest ih =>
    obtain ⟨u, hu, hrest⟩ := run_cons_eq_ok.mp hrun
    refine List.forall_mem_cons.mpr ⟨?_, ih hrest⟩
    cases op with
    | chains video audio => trivial
    | fragment step f => trivial
    | replaceAudio index => trivial
    | finalize keepAudio =>
      have hended : u.mode = .finalized := by
        simp only [apply, finalize_eq, map_eq_ok, bind_eq_ok, Except.ok.injEq] at hu
        obtain ⟨-, ⟨-, ⟨-, -, -, -, rfl⟩, rfl⟩, rfl⟩ := hu
        rfl
      cases rest with
      | nil => exact absurd (pure_eq_ok.mp hrest ▸ hended) hmode
      | cons next rest =>
        obtain ⟨v, hv, -⟩ := run_cons_eq_ok.mp hrest
        exact absurd hv (apply_finalized hended next v)

theorem Step.graph {op : Op} (hstep : m.Step op m') (h : m.mode = .graph) : m'.mode = .graph := by
  cases hstep with
  | chains video audio => rw [chained, h]; rfl
  | nothing empty => exact h
  | fragment nonempty admits single => exact extended_mode ..
  | replaceAudio single => rw [restarted_mode, h]

theorem run_grows {ops : List Op} (h : m.Single) (hops : ∀ op ∈ ops, op.Open)
    (hrun : m.run ops = .ok m') :
    m.Grows m' ∧ m'.Single ∧ (m.mode = .graph → m'.mode = .graph) := by
  induction ops generalizing m with
  | nil =>
    obtain rfl := pure_eq_ok.mp hrun
    exact ⟨.refl, h, id⟩
  | cons op rest ih =>
    obtain ⟨hop, hothers⟩ := List.forall_mem_cons.mp hops
    obtain ⟨u, hu, hrest⟩ := run_cons_eq_ok.mp hrun
    obtain ⟨-, hstep⟩ := (apply_eq_ok h hop).mp hu
    obtain ⟨hgrows, hs, hmode⟩ := ih (hstep.single h) hothers hrest
    exact ⟨(Grows.of_step hstep).trans hgrows, hs, fun hgraph => hmode (hstep.graph hgraph)⟩

/-- The node that ends a folded chain of the video. -/
def chainSink (count : Nat) : LinkedNode :=
  ⟨[.label (foldName .video count)], [Medium.video.sink], []⟩

theorem foldedFor_eq_foldedOnto {medium : Medium}
    (htouched : (f.reads medium || f.replaces medium) = true)
    (hpending : (m.channel medium).pending ≠ []) : m.foldedFor f medium = m.foldedOnto medium := by
  rw [foldedFor, if_pos htouched, folded, if_neg (mt List.isEmpty_iff.mp hpending)]

theorem rerouted_nodes_of_unread {medium : Medium} (hreads : f.reads medium = false)
    (hreplaces : f.replaces medium = true) :
    (m.rerouted step f medium).nodes = m.nodes ++ sinks medium (m.channel medium).main := by
  obtain ⟨out, hout⟩ := Option.isSome_iff_exists.mp hreplaces
  rw [rerouted, hout, hreads]
  simp only [Bool.false_eq_true, ↓reduceIte]
  rw [setMain_nodes, sunk, link_nodes]

/-- A fragment that replaces the video without reading it folds the waiting filters onto the old
main stream and ends that. -/
theorem extended_abandons (step : String) (hpending : m.video.pending ≠ [])
    (hreads : f.reads .video = false)
    (hreplaces : f.replaces .video = true) :
    m.foldNode .video ∈ (m.extended step f).nodes ∧
      chainSink m.video.folds ∈ (m.extended step f).nodes ∧
      m.video.folds < (m.extended step f).video.folds ∧
      (m.extended step f).video.main ≠ .label (foldName .video m.video.folds) := by
  obtain ⟨out, hout⟩ := Option.isSome_iff_exists.mp hreplaces
  have htouched : (f.reads .video || f.replaces .video) = true := by rw [hreplaces, Bool.or_true]
  -- The fold comes before the nodes of the fragment, and what follows it only adds to the graph.
  let u : Merger := { m with mode := .graph }
  have hjoined : (u.foldedOnto .video).Grows (m.joined step f) :=
    foldedFor_eq_foldedOnto (m := u) htouched hpending ▸ .joined
  have hrerouted : (m.joined step f).Grows ((m.joined step f).rerouted step f .video) :=
    .rerouted .video
  have hgrows : ((m.joined step f).rerouted step f .video).Grows (m.extended step f) :=
    .rerouted .audio
  refine ⟨?_, ?_, ?_, ?_⟩
  · have hfirst : m.foldNode .video ∈ (u.foldedOnto .video).nodes :=
      List.mem_append_right _ (List.mem_singleton_self _)
    exact hgrows.mem_nodes (hrerouted.mem_nodes (hjoined.mem_nodes hfirst))
  · have hmain : ((m.joined step f).channel .video).main =
        .label (foldName .video m.video.folds) := by
      rw [joined, link_channel, entered_main, if_pos ⟨htouched, hpending⟩]
      rfl
    refine hgrows.mem_nodes ?_
    rw [rerouted_nodes_of_unread hreads hreplaces, hmain]
    exact List.mem_append_right _ (List.mem_singleton_self _)
  · have hless : m.video.folds + 1 ≤ (m.extended step f).video.folds :=
      ((hjoined.trans hrerouted).trans hgrows).folds .video
    exact hless
  · have hvideo : (m.extended step f).video.main = .label (qualified step out) := by
      refine (extended_main_eq step f .video).trans ?_
      rw [hout]
      rfl
    rw [hvideo]
    exact fun heq => qualified_ne_foldName step out .video _ (StreamRef.label.inj heq)

/-- Filters that wait on the video when a fragment replaces it unread are abandoned, whatever came
before and whatever follows: their node stands in the finished graph, a sink reads it, and it lies
on no path to the video that the merger gives. -/
theorem finalize_abandons {before after : List Op} {keepAudio : Bool} {last closed : Merger}
    {merged : Merged} (hrun : ({} : Merger).run before = .ok m) (hpending : m.video.pending ≠ [])
    (hnodes : f.nodes ≠ []) (hreplaces : f.replaces .video = true)
    (hreads : f.reads .video = false) (hrest : m.run (.fragment step f :: after) = .ok last)
    (hend : last.finalize keepAudio = .ok (closed, merged)) :
    ∃ nodes, merged.clause = .graph nodes ∧ m.foldNode .video ∈ nodes ∧
      chainSink m.video.folds ∈ nodes ∧ ¬Upstream nodes (m.foldNode .video) merged.video := by
  have hstart : ({} : Merger).Single := ⟨List.nodup_nil, List.nodup_nil⟩
  obtain ⟨u, hu, hafter⟩ := run_cons_eq_ok.mp hrest
  have hmodeLast : last.mode ≠ .finalized := fun hmode =>
    apply_finalized hmode (.finalize keepAudio) closed (by rw [apply, hend]; rfl)
  have hmode : m.mode ≠ .finalized := fun hmode => apply_finalized hmode _ u hu
  obtain ⟨hbefore, hs, -⟩ := run_grows hstart (open_of_run hrun hmode) hrun
  obtain ⟨-, hstep⟩ := (apply_eq_ok hs (by trivial)).mp hu
  have hu' : u = m.extended step f := by
    cases hstep with
    | nothing empty => exact absurd empty hnodes
    | fragment nonempty admits single => rfl
  obtain ⟨hfold, hsink, hfolds, hmain⟩ := extended_abandons step hpending hreads hreplaces
  rw [← hu'] at hfold hsink hfolds hmain
  -- What the fragment left behind is still there at the end, and no main stream since.
  obtain ⟨hgrown, hsLast, hgraph⟩ :=
    run_grows (hstep.single hs) (open_of_run hafter hmodeLast) hafter
  have hmodeGraph : last.mode = .graph := hgraph (by rw [hu', extended_mode])
  obtain ⟨-, hended, -, rfl⟩ := (finalize_eq_ok hsLast).mp hend
  have hall : u.Grows (last.ended keepAudio) := hgrown.trans (.ended keepAudio)
  have hconsumed := (hbefore.trans ((Grows.of_step hstep).trans hall)).consumed_eq
  have hnodup : ((last.ended keepAudio).nodes.flatMap (·.reads)).Nodup :=
    hconsumed ▸ (hended hmodeGraph).1.consumed
  refine ⟨(last.ended keepAudio).nodes, by rw [result, if_pos hmodeGraph], hall.mem_nodes hfold,
    hall.mem_nodes hsink, fun hpath => ?_⟩
  have hvideo : (last.ended keepAudio).video.main = .label (foldName .video m.video.folds) :=
    hpath.eq_of_sink hnodup (hall.mem_nodes hsink) (List.mem_singleton_self _) rfl rfl
  obtain hsame | hpassed := hall.main .video
  · exact hmain (hsame.symm.trans hvideo)
  · exact hpassed m.video.folds hfolds hvideo

def mirroring : Merger :=
  { mode := .chain, video := { pending := [.wording "hflip"], main := .stream 0 .video } }

/-- A video from another input takes the place of the main video. -/
def insertion : Fragment :=
  { nodes := [⟨[.input 1 .video], .wording "scale=10:10", ["b"]⟩], video? := some "b" }

theorem finalize_abandons_mirroring :
    ∃ last closed merged, ({} : Merger).run [.chains [.wording "hflip"] []] = .ok mirroring ∧
      mirroring.video.pending ≠ [] ∧ insertion.nodes ≠ [] ∧ insertion.replaces .video = true ∧
      insertion.reads .video = false ∧ mirroring.run [.fragment "s2" insertion] = .ok last ∧
      last.finalize true = .ok (closed, merged) ∧
      ∃ nodes, merged.clause = .graph nodes ∧ mirroring.foldNode .video ∈ nodes ∧
        chainSink mirroring.video.folds ∈ nodes ∧
        ¬Upstream nodes (mirroring.foldNode .video) merged.video := by
  have hrun : ({} : Merger).run [.chains [.wording "hflip"] []] = .ok mirroring := rfl
  have hpending : mirroring.video.pending ≠ [] := List.cons_ne_nil _ _
  have hnodes : insertion.nodes ≠ [] := List.cons_ne_nil _ _
  obtain ⟨last, closed, merged, hrest, hend⟩ : ∃ last closed merged,
      mirroring.run [.fragment "s2" insertion] = .ok last ∧
        last.finalize true = .ok (closed, merged) := ⟨_, _, _, rfl, rfl⟩
  exact ⟨last, closed, merged, hrun, hpending, hnodes, rfl, rfl, hrest, hend,
    finalize_abandons hrun hpending hnodes rfl rfl hrest hend⟩

end Merger

end SkillPipeline
