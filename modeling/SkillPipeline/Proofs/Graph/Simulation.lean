import SkillPipeline.Proofs.Graph.Dataflow
import SkillPipeline.Proofs.Graph.Retention
import SkillPipeline.Proofs.Graph.WellFormed

namespace SkillPipeline

open Outcome

theorem mapM_eq_some_of_agree {α β γ : Type} {f : α → Option γ} {g : β → Option γ} {k : α → β}
    {l : List α} (h : ∀ a ∈ l, ∃ c, f a = some c ∧ g (k a) = some c) :
    ∃ cs, l.mapM f = some cs ∧ (l.map k).mapM g = some cs := by
  induction l with
  | nil => exact ⟨[], rfl, rfl⟩
  | cons a rest ih =>
    obtain ⟨c, hf, hg⟩ := h a List.mem_cons_self
    obtain ⟨cs, hfs, hgs⟩ := ih fun b hb => h b (List.mem_cons_of_mem a hb)
    exact ⟨c :: cs, by simp [List.mapM_cons, hf, hfs], by simp [List.mapM_cons, hg, hgs]⟩

theorem lookup_mapIdx {α : Type} (names : List String) (value : Nat → α) (name : String) :
    (names.mapIdx fun slot name => (name, value slot)).lookup name =
      (names.idxOf? name).map value := by
  induction names generalizing value with
  | nil => rfl
  | cons first rest ih =>
    rw [List.mapIdx_cons, List.lookup_cons, List.idxOf?_cons, ih, Bool.beq_comm]
    cases first == name <;> simp [Function.comp_def]

theorem idxOf?_qualified (step : String) (names : List String) (name : String) :
    (names.map (Merger.qualified step)).idxOf? (Merger.qualified step name) =
      names.idxOf? name := by
  induction names with
  | nil => rfl
  | cons first rest ih =>
    simp only [List.map_cons, List.idxOf?_cons, ih, beq_iff_eq, Merger.qualified_inj]

/-- In a graph, the labels of a step carry what is known of them, and something is known of each of
the given names. -/
structure Reveals (nodes : List LinkedNode) (step : String) (names : List String)
    (known : List (String × Flow)) : Prop where
  carried : ∀ name flow, known.lookup name = some flow →
    unfold nodes (.label (Merger.qualified step name)) = some flow
  covered : ∀ name ∈ names, ∃ flow, known.lookup name = some flow

namespace Merger

variable {m m' : Merger} {main next : Medium → Flow} {step : String}

/-- What the streams that a node reads carry, in a graph that reveals the labels so far. -/
theorem flow?_linkedPad {nodes : List LinkedNode} {names : List String}
    {known : List (String × Flow)} {node : GraphNode} (hknown : Reveals nodes step names known)
    (hmain : ∀ medium, .main medium ∈ node.inputs →
      unfold nodes (m.channel medium).main = some (main medium))
    (hreads : ∀ name ∈ node.reads, name ∈ names) :
    ∃ flows, node.inputs.mapM (Pad.flow? main known) = some flows ∧
      (node.inputs.map (m.linkedPad step)).mapM (unfold nodes) = some flows := by
  refine mapM_eq_some_of_agree fun pad hpad => ?_
  cases pad with
  | main medium => exact ⟨main medium, rfl, hmain medium hpad⟩
  | input index medium => exact ⟨.source index medium, rfl, unfold_stream index medium⟩
  | label name =>
    have hread : name ∈ node.reads := List.mem_filterMap.mpr ⟨.label name, hpad, rfl⟩
    obtain ⟨flow, hflow⟩ := hknown.covered name (hreads name hread)
    exact ⟨flow, hflow, hknown.carried name flow hflow⟩

theorem evaluate?_linkedNode {nodes : List LinkedNode} {names : List String}
    {known : List (String × Flow)} {node : GraphNode} (hknown : Reveals nodes step names known)
    (hmain : ∀ medium, .main medium ∈ node.inputs →
      unfold nodes (m.channel medium).main = some (main medium))
    (hreads : ∀ name ∈ node.reads, name ∈ names)
    (hnodup : ((nodes ++ [m.linkedNode step node]).flatMap (·.outputs)).Nodup) :
    ∃ labels, node.evaluate? main known = some labels ∧
      Reveals (nodes ++ [m.linkedNode step node]) step (names ++ node.outputs) labels := by
  -- A label is either known from before, or one of the outputs of the new node.
  obtain ⟨flows, hflows, hcarried⟩ := flow?_linkedPad hknown hmain hreads
  refine ⟨_, by rw [GraphNode.evaluate?, hflows]; rfl, fun name flow hname => ?_,
    fun name hname => ?_⟩
  · rw [List.lookup_append, lookup_mapIdx, Option.or_eq_some_iff] at hname
    obtain hold | ⟨-, hnew⟩ := hname
    · exact unfold_append hnodup (hknown.carried name flow hold)
    · obtain ⟨slot, hslot, rfl⟩ := Option.map_eq_some_iff.mp hnew
      rw [unfold_concat_of_output ((idxOf?_qualified step node.outputs name).trans hslot)]
      simp only [linkedNode, hcarried]
      rfl
  · rw [List.lookup_append, lookup_mapIdx]
    obtain hold | hnew := List.mem_append.mp hname
    · obtain ⟨flow, hflow⟩ := hknown.covered name hold
      exact ⟨flow, by rw [hflow]; rfl⟩
    · obtain ⟨slot, hslot⟩ : ∃ slot, node.outputs.idxOf? name = some slot := by
        rw [← Option.isSome_iff_exists, List.isSome_idxOf?]
        exact hnew
      cases known.lookup name with
      | some flow => exact ⟨flow, rfl⟩
      | none => exact ⟨_, by rw [hslot]; rfl⟩

theorem evaluate?_linkedNodes {fragment : List GraphNode} {nodes : List LinkedNode}
    {names : List String} {known : List (String × Flow)} (hknown : Reveals nodes step names known)
    (hmain : ∀ node ∈ fragment, ∀ medium, .main medium ∈ node.inputs →
      unfold nodes (m.channel medium).main = some (main medium))
    (hordered : Fragment.OrderedFrom names fragment)
    (hnodup : ((nodes ++ fragment.map (m.linkedNode step)).flatMap (·.outputs)).Nodup) :
    ∃ labels, fragment.foldlM (GraphNode.evaluate? main) known = some labels ∧
      Reveals (nodes ++ fragment.map (m.linkedNode step)) step
        (names ++ fragment.flatMap (·.outputs)) labels := by
  -- On the nodes of the fragment: each one reveals its outputs to the ones behind it.
  induction fragment generalizing nodes names known with
  | nil => exact ⟨known, rfl, by simpa using hknown⟩
  | cons node rest ih =>
    rw [List.map_cons, List.append_cons] at hnodup ⊢
    have hfirst : ((nodes ++ [m.linkedNode step node]).flatMap (·.outputs)).Nodup := by
      rw [List.flatMap_append] at hnodup
      exact (List.nodup_append.mp hnodup).1
    obtain ⟨labels, hlabels, hreveals⟩ :=
      evaluate?_linkedNode hknown (hmain node List.mem_cons_self) hordered.1 hfirst
    obtain ⟨all, hall, hrest⟩ := ih hreveals
      (fun other hother medium hread =>
        unfold_append hfirst (hmain other (List.mem_cons_of_mem node hother) medium hread))
      hordered.2 hnodup
    refine ⟨all, ?_, by simpa using hrest⟩
    rw [List.foldlM_cons, hlabels]
    exact hall

/-- The graph of a merger and the filters that wait carry the given main streams. -/
structure Carries (m : Merger) (main : Medium → Flow) : Prop where
  produced : m.produced = m.nodes.flatMap (·.outputs)
  main : ∀ medium, ∃ base, unfold m.nodes (m.channel medium).main = some base ∧
    main medium = base.after (m.channel medium).pending

namespace Carries

theorem nodup_outputs (h : m.Carries main) (hs : m.Single) :
    (m.nodes.flatMap (·.outputs)).Nodup := h.produced ▸ hs.produced

theorem link {nodes : List LinkedNode} (h : m.Carries main) (hs : (m.link nodes).Single) :
    (m.link nodes).Carries main := by
  have hproduced : (m.link nodes).produced = (m.link nodes).nodes.flatMap (·.outputs) := by
    simp [h.produced]
  refine ⟨hproduced, fun medium => ?_⟩
  obtain ⟨base, hbase, hmain⟩ := h.main medium
  rw [link_channel]
  exact ⟨base, unfold_append (hproduced ▸ hs.produced) hbase, hmain⟩

theorem foldedOnto {medium : Medium} (h : m.Carries main) (hs : (m.foldedOnto medium).Single) :
    (m.foldedOnto medium).Carries main := by
  have hlink : (m.link [m.foldNode medium]).Carries main := h.link ((setChannel_single ..).mp hs)
  refine ⟨by simpa [Merger.foldedOnto] using hlink.produced, fun other => ?_⟩
  simp only [Merger.foldedOnto, setChannel_nodes, setChannel_channel]
  split
  · next hother =>
    obtain ⟨base, hbase, hmain⟩ := h.main medium
    refine ⟨main medium, ?_, by rw [hother]; rfl⟩
    have hslot : (m.foldNode medium).outputs.idxOf?
        (foldName medium (m.channel medium).folds) = some 0 := by
      simp [foldNode, List.idxOf?_cons]
    rw [link_nodes, unfold_concat_of_output hslot]
    simp [foldNode, hbase, Flow.ofRow?_zero, hmain]
  · exact hlink.main other

theorem folded {medium : Medium} (h : m.Carries main) (hs : (m.folded medium).Single) :
    (m.folded medium).Carries main := by
  rw [Merger.folded] at hs ⊢
  by_cases hp : (m.channel medium).pending.isEmpty
  · rwa [if_pos hp]
  · rw [if_neg hp] at hs ⊢
    exact h.foldedOnto hs

theorem foldedFor {f : Fragment} {medium : Medium} (h : m.Carries main)
    (hs : (m.foldedFor f medium).Single) : (m.foldedFor f medium).Carries main := by
  rw [Merger.foldedFor] at hs ⊢
  by_cases ht : f.reads medium || f.replaces medium
  · rw [if_pos ht] at hs ⊢
    exact h.folded hs
  · rwa [if_neg ht]

theorem entered {f : Fragment} (h : m.Carries main) (hs : (m.entered f).Single) :
    (m.entered f).Carries main := by
  have hgraph : ({ m with mode := .graph } : Merger).Carries main := ⟨h.produced, h.main⟩
  exact (hgraph.foldedFor hs.of_foldedFor).foldedFor hs

theorem unfold_main {medium : Medium} (h : m.Carries main)
    (hpending : (m.channel medium).pending = []) :
    unfold m.nodes (m.channel medium).main = some (main medium) := by
  obtain ⟨base, hbase, hmain⟩ := h.main medium
  rw [hpending] at hmain
  exact hbase.trans (congrArg some hmain).symm

theorem setMain {medium : Medium} {ref : StreamRef} (h : m.Carries main)
    (hnext : ∀ other, other ≠ medium → next other = main other)
    (href : ∃ base, unfold m.nodes ref = some base ∧
      next medium = base.after (m.channel medium).pending) :
    (m.setMain medium ref).Carries next := by
  refine ⟨by simpa using h.produced, fun other => ?_⟩
  rw [setMain_nodes, setMain_channel]
  by_cases hother : other = medium
  · subst hother
    simpa using href
  · rw [if_neg hother, hnext other hother]
    exact h.main other

theorem rerouted {f : Fragment} {medium : Medium} (h : m.Carries main)
    (hs : (m.rerouted step f medium).Single)
    (hnext : ∀ other, other ≠ medium → next other = main other)
    (hstays : f.output? medium = none → next medium = main medium)
    (hout : ∀ out, f.output? medium = some out → (m.channel medium).pending = [] ∧
      unfold m.nodes (.label (qualified step out)) = some (next medium)) :
    (m.rerouted step f medium).Carries next := by
  rw [Merger.rerouted] at hs ⊢
  cases ho : f.output? medium with
  | none =>
    have heq : next = main := by
      funext other
      by_cases hother : other = medium
      · rw [hother, hstays ho]
      · exact hnext other hother
    rwa [heq]
  | some out =>
    simp only [ho, setMain_single] at hs ⊢
    -- The new main stream carries what the fragment gives, since no filters wait on it.
    obtain ⟨hpending, hflow⟩ := hout out ho
    by_cases hr : f.reads medium
    · rw [if_pos hr] at hs ⊢
      exact h.setMain hnext ⟨next medium, hflow, by rw [hpending]; rfl⟩
    · rw [if_neg hr] at hs ⊢
      have hsunk : (m.sunk medium (m.channel medium).main).Carries main := h.link hs
      refine hsunk.setMain hnext ⟨next medium, ?_, by rw [sunk, link_channel, hpending]; rfl⟩
      rwa [sunk, link_nodes, unfold_append_of_notMem (by simp)]

end Carries

/-- A merger is on its way to the streams that its steps give at once. -/
structure Simulates (m : Merger) (s : Streams) : Prop where
  single : m.Single
  carries : m.Carries s.main
  recent : s.recent = m.audio.pending

theorem simulates_start : ({} : Merger).Simulates {} := by
  refine ⟨⟨List.nodup_nil, List.nodup_nil⟩, ⟨rfl, fun medium => ?_⟩, rfl⟩
  cases medium <;> exact ⟨_, rfl, rfl⟩

theorem unfold_rerouted {f : Fragment} {medium : Medium} {name : String} :
    unfold (m.rerouted step f medium).nodes (.label name) = unfold m.nodes (.label name) := by
  rw [rerouted]
  split
  · rw [setMain_nodes]
    split
    · rfl
    · rw [sunk, link_nodes, unfold_append_of_notMem (by simp)]
  · rfl

namespace Simulates

variable {s : Streams}

theorem chained (h : m.Simulates s) (video audio : List FilterText) :
    (m.chained video audio).Simulates (s.filtered video audio) := by
  refine ⟨(chained_single ..).mpr h.single, ⟨h.carries.produced, fun medium => ?_⟩, ?_⟩
  · obtain ⟨base, hbase, hmain⟩ := h.carries.main medium
    refine ⟨base, by cases medium <;> exact hbase, ?_⟩
    cases medium with
    | video => exact (congrArg (·.after (kept video)) hmain).trans (Flow.after_append ..).symm
    | audio => exact (congrArg (·.after (kept audio)) hmain).trans (Flow.after_append ..).symm
  · exact congrArg (· ++ kept audio) h.recent

/-- The nodes of a fragment, linked to the main streams, give its labels what they carry at once. -/
theorem joined {f : Fragment} (h : m.Simulates s) (hordered : f.Ordered)
    (hs : (m.joined step f).Single) :
    ∃ labels, f.evaluate? s.main = some labels ∧
      Reveals (m.joined step f).nodes step f.outputs labels := by
  have hentered : (m.entered f).Carries s.main := h.carries.entered hs.of_link
  have hjoined : (m.joined step f).Carries s.main := hentered.link hs
  refine evaluate?_linkedNodes ⟨by simp, by simp⟩ (fun node hnode medium hread => ?_) hordered
    (hjoined.nodup_outputs hs)
  have hreads : f.reads medium = true :=
    List.any_eq_true.mpr ⟨node, hnode, List.any_eq_true.mpr ⟨_, hread, beq_self_eq_true _⟩⟩
  exact hentered.unfold_main (by rw [entered_pending, hreads, Bool.true_or, if_pos rfl])

/-- After a fragment, each medium carries the output of the fragment or what it carried before. -/
theorem settled {f : Fragment} (hadmits : m.Admits step f) {labels : List (String × Flow)}
    (hlabels : Reveals (m.joined step f).nodes step f.outputs labels) (medium : Medium) :
    ∃ flow, s.settled? f labels medium = some flow ∧
      (f.output? medium = none → flow = s.main medium) ∧
      ∀ out, f.output? medium = some out →
        unfold (m.joined step f).nodes (.label (qualified step out)) = some flow := by
  rw [Streams.settled?]
  cases ho : f.output? medium with
  | none => exact ⟨s.main medium, rfl, fun _ => rfl, by simp⟩
  | some out =>
    have hout : out ∈ f.outputs := by
      cases medium with
      | video => simpa [Settles, ho] using hadmits.video_settles
      | audio => simpa [Settles, ho] using hadmits.audio_settles
    obtain ⟨flow, hflow⟩ := hlabels.covered out hout
    refine ⟨flow, hflow, by simp, fun out' hout' => ?_⟩
    rw [← Option.some.inj hout']
    exact hlabels.carried out flow hflow

theorem extended {f : Fragment} (h : m.Simulates s) (hf : f.nodes ≠ []) (hordered : f.Ordered)
    (hadmits : m.Admits step f) (hs : (m.extended step f).Single) :
    ∃ s', s.through? f = some s' ∧ (m.extended step f).Simulates s' := by
  have hjoined : (m.joined step f).Single := hs.of_rerouted.of_rerouted
  obtain ⟨labels, hlabels, hreveals⟩ := h.joined hordered hjoined
  obtain ⟨video, hvideo, hvideoStays, hvideoOut⟩ := settled (s := s) hadmits hreveals .video
  obtain ⟨audio, haudio, haudioStays, haudioOut⟩ := settled (s := s) hadmits hreveals .audio
  -- What the fragment replaces has been folded first, so nothing waits there.
  have hpending (medium : Medium) (out : String) (ho : f.output? medium = some out) :
      ((m.joined step f).channel medium).pending = [] := by
    have hreplaces : f.replaces medium = true := by rw [Fragment.replaces, ho]; rfl
    rw [Merger.joined, link_channel, entered_pending, hreplaces, Bool.or_true, if_pos rfl]
  have hrecent : s.recent = m.audio.pending := h.recent
  let s' : Streams :=
    { video, audio, recent := if f.reads .audio || f.replaces .audio then [] else s.recent }
  refine ⟨s', ?_, hs, ?_, ?_⟩
  · rw [Streams.through?, if_neg (by simpa using hf), hlabels]
    simp [hvideo, haudio, s']
  · have hcarries : (m.joined step f).Carries s.main :=
      (h.carries.entered hjoined.of_link).link hjoined
    -- The video is replaced first, and leaves the audio what it was.
    have hfirst : ((m.joined step f).rerouted step f .video).Carries
        { s with video }.main := by
      refine hcarries.rerouted hs.of_rerouted ?_ hvideoStays
        fun out ho => ⟨hpending .video out ho, hvideoOut out ho⟩
      intro other hother
      cases other with
      | video => exact absurd rfl hother
      | audio => rfl
    refine hfirst.rerouted hs ?_ haudioStays fun out ho => ⟨?_, ?_⟩
    · intro other hother
      cases other with
      | video => rfl
      | audio => exact absurd rfl hother
    · rw [rerouted_pending, hpending .audio out ho]
    · rw [unfold_rerouted]
      exact haudioOut out ho
  · have haudioPending : (m.extended step f).audio.pending =
        if f.reads .audio || f.replaces .audio then [] else m.audio.pending :=
      extended_pending step f .audio
    rw [haudioPending, ← hrecent]

theorem restarted {index : Nat} (h : m.Simulates s) (hs : (m.restarted index).Single) :
    (m.restarted index).Simulates (s.restarted index) := by
  have hmain : (m.setMain .audio (.stream index .audio)).Carries (s.restarted index).main := by
    refine h.carries.setMain (fun other hother => ?_) ⟨_, unfold_stream index .audio, ?_⟩
    · cases other with
      | video => rfl
      | audio => exact absurd rfl hother
    · exact congrArg _ h.recent
  exact ⟨hs, hmain.link hs, h.recent⟩

theorem of_step {op : Op} (h : m.Simulates s) (hstep : m.Step op m')
    (hordered : ∀ step f, op = .fragment step f → f.Ordered) :
    ∃ s', s.step? op = some s' ∧ m'.Simulates s' := by
  cases hstep with
  | chains video audio => exact ⟨_, rfl, h.chained video audio⟩
  | nothing empty => exact ⟨s, by simp [Streams.step?, Streams.through?, empty], h⟩
  | fragment nonempty admits single =>
    exact h.extended nonempty (hordered _ _ rfl) admits single
  | replaceAudio single => exact ⟨_, rfl, h.restarted single⟩

end Simulates

/-- An operation fit for a run: it leaves the merger open, and its nodes read only labels that
earlier ones of the same fragment produce. -/
def Op.Ordered : Op → Prop
  | .fragment _ f => f.Ordered
  | .finalize _ => False
  | _ => True

theorem Op.Ordered.open {op : Op} (h : op.Ordered) : op.Open := by
  cases op <;> trivial

/-- What a run of operations does to the streams and to the filters. -/
theorem run_simulates {ops : List Op} (hops : ∀ op ∈ ops, op.Ordered) {s : Streams}
    {given : List FilterText} (h : m.Simulates s) (hholds : m.Holds given)
    (hrun : m.run ops = .ok m') :
    ∃ s', s.run? ops = some s' ∧ m'.Simulates s' ∧ m'.Holds (given ++ ops.flatMap Op.filters) := by
  induction ops generalizing m s given with
  | nil =>
    obtain rfl := pure_eq_ok.mp hrun
    exact ⟨s, rfl, h, by simpa using hholds⟩
  | cons op rest ih =>
    obtain ⟨u, hu, hrest⟩ := run_cons_eq_ok.mp hrun
    have hop : op.Ordered := hops op List.mem_cons_self
    obtain ⟨-, hstep⟩ := (apply_eq_ok h.single hop.open).mp hu
    obtain ⟨t, ht, hsim⟩ := h.of_step hstep fun step f hf => by subst hf; exact hop
    obtain ⟨s', hs', hend, hfilters⟩ :=
      ih (fun other hother => hops other (List.mem_cons_of_mem op hother)) hsim
        (hholds.of_step hstep)
        hrest
    refine ⟨s', ?_, hend, by simpa using hfilters⟩
    rw [Streams.run?, List.foldlM_cons, ht]
    exact hs'

/-- The two streams that a merger gives carry exactly what the steps make of them at once, in a
graph where no label has two producers; and the filters of its nodes are those of the steps, each as
often as it was given, and sinks. -/
theorem finalize_carries {ops : List Op} (hops : ∀ op ∈ ops, op.Ordered) {merged : Merged}
    (hrun : ({} : Merger).run ops = .ok m) (hend : m.finalize true = .ok (m', merged))
    (hgraph : merged.graphMode = true) :
    ∃ nodes s, merged.clause = .graph nodes ∧ Streams.run? {} ops = some s ∧
      unfold nodes merged.video = some s.video ∧ unfold nodes merged.audio = some s.audio ∧
      (nodes.flatMap (·.outputs)).Nodup ∧
      ∃ ends, (∀ filter ∈ ends, ∃ medium : Medium, filter = medium.sink) ∧
        (nodes.flatMap (·.filters)).Perm (ops.flatMap Op.filters ++ ends) := by
  have hempty : ({} : Merger).Holds [] := ⟨[], by simp, .refl _⟩
  obtain ⟨s, hs, hsim, hholds⟩ := run_simulates hops simulates_start hempty hrun
  obtain ⟨-, hended, -, rfl⟩ := (finalize_eq_ok hsim.single).mp hend
  have hmode : m.mode = .graph := by simpa [result] using hgraph
  have hdrained : m.ended true = m.drained := by rw [ended, if_pos hmode]; rfl
  have hsingle : m.drained.Single := hdrained ▸ (hended hmode).1
  have hcarries : m.drained.Carries s.main :=
    (hsim.carries.folded hsingle.of_folded).folded hsingle
  have hvideo := hcarries.unfold_main (drained_pending .video)
  have haudio := hcarries.unfold_main (drained_pending .audio)
  rw [result, hdrained, if_pos hmode]
  exact ⟨m.drained.nodes, s, rfl, hs, hvideo, haudio, hcarries.nodup_outputs hsingle,
    hholds.drained⟩

/-- A brightened video played forwards and backwards; its audio is mixed with that of one input and
then gives way to that of another. -/
def boomerangOps : List Op :=
  [.chains [.wording "eq=brightness=0.1"] [.wording "volume=0.5"],
    .fragment "s2"
      { nodes :=
          [⟨[.main .video], .wording "split", ["forward", "copy"]⟩,
            ⟨[.label "copy"], .wording "reverse", ["backward"]⟩,
            ⟨[.label "forward", .label "backward"], .wording "concat=n=2", ["out"]⟩]
        video? := some "out" },
    .fragment "s3"
      { nodes := [⟨[.main .audio, .input 2 .audio], .wording "amix", ["out"]⟩]
        audio? := some "out" },
    .chains [.wording "hflip"] [.wording "areverse"], .replaceAudio 1]

theorem finalize_carries_boomerang :
    ∃ m m' merged, (∀ op ∈ boomerangOps, op.Ordered) ∧ ({} : Merger).run boomerangOps = .ok m ∧
      m.finalize true = .ok (m', merged) ∧ merged.graphMode = true ∧
      ∃ nodes s, merged.clause = .graph nodes ∧ Streams.run? {} boomerangOps = some s ∧
        unfold nodes merged.video = some s.video ∧ unfold nodes merged.audio = some s.audio ∧
        (nodes.flatMap (·.outputs)).Nodup ∧
        ∃ ends, (∀ filter ∈ ends, ∃ medium : Medium, filter = medium.sink) ∧
          (nodes.flatMap (·.filters)).Perm (boomerangOps.flatMap Op.filters ++ ends) := by
  have hops : ∀ op ∈ boomerangOps, op.Ordered := by
    simp [boomerangOps, Op.Ordered, Fragment.Ordered, Fragment.OrderedFrom, GraphNode.reads,
      Pad.label?]
  exact ⟨_, _, _, hops, rfl, rfl, rfl, finalize_carries hops rfl rfl rfl⟩

end Merger

end SkillPipeline
