import SkillPipeline.Proofs.Graph.Operations

namespace SkillPipeline.Merger

open Outcome

variable {m m' : Merger} {step : String} {f : Fragment}

def mainLabels (m : Merger) (medium : Medium) : List String :=
  (m.channel medium).main.label?.toList

theorem finals_eq : m.finals = m.mainLabels .video ++ m.mainLabels .audio := by
  rw [finals, filterMap_cons_toList, filterMap_cons_toList, List.filterMap_nil, List.append_nil]
  rfl

/-- Every label is produced once, and is consumed once or is a main stream. -/
structure Linear (m : Merger) : Prop where
  nodup : m.produced.Nodup
  tally : m.produced.Perm (m.consumed ++ m.finals)

namespace Linear

theorem single (h : m.Linear) : m.Single :=
  ⟨h.nodup, (List.nodup_append.mp (h.tally.nodup_iff.mp h.nodup)).1⟩

theorem spent (h : m.Linear) : m.Spent := fun _ hname =>
  List.mem_append.mp (h.tally.mem_iff.mp hname)

theorem count (h : m.Linear) (name : String) :
    m.produced.count name = m.consumed.count name + (m.mainLabels .video).count name +
      (m.mainLabels .audio).count name := by
  rw [h.tally.count_eq, finals_eq, List.count_append, List.count_append, Nat.add_assoc]

theorem of_count (hnodup : m.produced.Nodup)
    (h : ∀ name, m.produced.count name = m.consumed.count name +
      (m.mainLabels .video).count name + (m.mainLabels .audio).count name) : m.Linear := by
  refine ⟨hnodup, List.perm_iff_count.mpr fun name => ?_⟩
  rw [h, finals_eq, List.count_append, List.count_append, Nat.add_assoc]

end Linear

theorem linear_start : ({} : Merger).Linear := ⟨List.nodup_nil, .refl _⟩

@[simp] theorem link_mainLabels (nodes : List LinkedNode) (medium : Medium) :
    (m.link nodes).mainLabels medium = m.mainLabels medium := by
  rw [mainLabels, link_channel, mainLabels]

theorem setMain_mainLabels (medium other : Medium) (ref : StreamRef) :
    (m.setMain medium ref).mainLabels other =
      if other = medium then ref.label?.toList else m.mainLabels other := by
  rw [mainLabels, setMain_channel]
  split <;> rfl

theorem foldedOnto_mainLabels (medium other : Medium) :
    (m.foldedOnto medium).mainLabels other =
      if other = medium then [foldName medium (m.channel medium).folds]
      else m.mainLabels other := by
  rw [mainLabels, foldedOnto, setChannel_channel]
  split
  · rfl
  · rw [link_channel, mainLabels]

theorem rerouted_produced (medium : Medium) :
    (m.rerouted step f medium).produced = m.produced := by
  rw [rerouted]
  split
  · rw [setMain_produced]
    split
    · rfl
    · rw [sunk, link_produced, sinks_outputs, List.append_nil]
  · rfl

theorem rerouted_consumed (medium : Medium) :
    (m.rerouted step f medium).consumed = m.consumed ++
      if f.replaces medium && !f.reads medium then m.mainLabels medium else [] := by
  rw [rerouted, Fragment.replaces]
  cases f.output? medium with
  | none => simp
  | some out =>
    cases f.reads medium with
    | true => simp
    | false => simp [sunk, mainLabels]

theorem rerouted_mainLabels (medium other : Medium) :
    (m.rerouted step f medium).mainLabels other =
      if other = medium ∧ f.replaces medium = true then
        ((f.output? medium).toList).map (qualified step)
      else m.mainLabels other := by
  rw [rerouted, Fragment.replaces]
  cases f.output? medium with
  | none => simp
  | some out =>
    rw [setMain_mainLabels]
    cases f.reads medium <;> simp [sunk, StreamRef.label?]

/-- How often the linked nodes of a fragment read a label: as often as the fragment reads a label of
that name, and as often as it reads a main stream that has it. -/
theorem count_linkedPads (pads : List Pad) (name : String) :
    (pads.filterMap fun pad => (m.linkedPad step pad).label?).count name =
      ((pads.filterMap Pad.label?).map (qualified step)).count name +
        pads.count (.main .video) * (m.mainLabels .video).count name +
        pads.count (.main .audio) * (m.mainLabels .audio).count name := by
  induction pads with
  | nil => simp
  | cons pad rest ih =>
    rw [filterMap_cons_toList, filterMap_cons_toList, List.count_append, ih, List.map_append,
      List.count_append]
    cases pad with
    | input index medium => simp [linkedPad, StreamRef.label?, Pad.label?]
    | label other =>
      simp [linkedPad, StreamRef.label?, Pad.label?]
      omega
    | main medium =>
      have hlabels : (m.linkedPad step (.main medium)).label?.toList = m.mainLabels medium := rfl
      rw [hlabels]
      cases medium <;> simp [Pad.label?, Nat.add_mul] <;> omega

theorem reads_linkedNodes :
    (f.nodes.map (m.linkedNode step)).flatMap (·.reads) =
      f.pads.filterMap fun pad => (m.linkedPad step pad).label? := by
  simp only [Fragment.pads, List.flatMap_map, List.filterMap_flatMap, LinkedNode.reads, linkedNode,
    List.filterMap_map]
  rfl

theorem outputs_linkedNodes :
    (f.nodes.map (m.linkedNode step)).flatMap (·.outputs) = f.outputs.map (qualified step) := by
  simp only [Fragment.outputs, List.flatMap_map, List.map_flatMap, linkedNode]

theorem labelsRead_eq : f.labelsRead = f.pads.filterMap Pad.label? := by
  simp only [Fragment.labelsRead, Fragment.pads, List.filterMap_flatMap]
  rfl

theorem count_main_eq (medium : Medium) (h : f.pads.count (.main medium) ≤ 1) :
    f.pads.count (.main medium) = if f.reads medium then 1 else 0 := by
  have hreads : f.reads medium = true ↔ 0 < f.pads.count (.main medium) := by
    simp [Fragment.reads, List.count_pos_iff, Fragment.pads]
  split
  · next hr => exact Nat.le_antisymm h (hreads.mp hr)
  · next hr => exact Nat.eq_zero_of_not_pos fun hpos => hr (hreads.mpr hpos)

namespace Linear

theorem foldedOnto {medium : Medium} (h : m.Linear)
    (hfresh : foldName medium (m.channel medium).folds ∉ m.produced) :
    (m.foldedOnto medium).Linear := by
  have hproduced : (m.foldedOnto medium).produced =
      m.produced ++ [foldName medium (m.channel medium).folds] := by
    simp [Merger.foldedOnto, foldNode]
  have hconsumed : (m.foldedOnto medium).consumed = m.consumed ++ m.mainLabels medium := by
    simp [Merger.foldedOnto, foldNode, LinkedNode.reads_singleton, mainLabels]
  refine of_count ?_ fun name => ?_
  · rw [hproduced, ← List.concat_eq_append]
    exact (List.nodup_concat ..).mpr ⟨hfresh, h.nodup⟩
  · rw [hproduced, hconsumed, foldedOnto_mainLabels, foldedOnto_mainLabels, List.count_append,
      List.count_append, h.count name]
    cases medium <;> simp <;> omega

/-- A fragment that is well-formed keeps the labels linear, as long as its own are new. -/
theorem rerouted (h : m.Linear) (hf : f.WellFormed)
    (hfresh : ∀ label, qualified step label ∉ m.produced) :
    (((m.link (f.nodes.map (m.linkedNode step))).rerouted step f .video).rerouted step f
      .audio).Linear := by
  refine of_count ?_ fun name => ?_
  · rw [rerouted_produced, rerouted_produced, link_produced, outputs_linkedNodes]
    refine List.nodup_append'.mpr ⟨h.nodup, ?_, fun name hold hnew => ?_⟩
    · exact hf.outputs_nodup.map fun a b hab => qualified_inj.mp hab
    · obtain ⟨label, -, rfl⟩ := List.mem_map.mp hnew
      exact hfresh label hold
  · have htally : (f.outputs.map (qualified step)).count name =
        (f.labelsRead.map (qualified step)).count name +
          ((f.video?.toList.map (qualified step)).count name +
            (f.audio?.toList.map (qualified step)).count name) := by
      rw [(hf.tally.map (qualified step)).count_eq, List.map_append, List.count_append,
        Fragment.finals, List.map_append, List.count_append]
    have hvideo := hf.main_replaced .video
    have haudio := hf.main_replaced .audio
    simp only [rerouted_produced, rerouted_consumed, rerouted_mainLabels, link_produced,
      link_consumed, link_mainLabels, outputs_linkedNodes, reads_linkedNodes, List.count_append,
      count_linkedPads, htally, h.count name, ← labelsRead_eq,
      count_main_eq .video (hf.main_once .video), count_main_eq .audio (hf.main_once .audio)]
    -- Whether a medium is read and whether it is replaced decides who ends its old main stream.
    cases hrv : f.reads .video <;> cases hra : f.reads .audio <;>
      cases hv : f.video? <;> cases ha : f.audio? <;>
      simp_all [Fragment.replaces, Fragment.output?] <;> omega

theorem setMain {medium other : Medium} {index : Nat} (h : m.Linear) :
    ((m.sunk medium (m.channel medium).main).setMain medium (.stream index other)).Linear := by
  refine of_count ?_ fun name => ?_
  · simpa [sunk] using h.nodup
  · have hcount := h.count name
    simp only [setMain_produced, setMain_consumed, setMain_mainLabels, sunk, link_produced,
      link_consumed, link_mainLabels, sinks_outputs, sinks_reads, List.append_nil,
      List.count_append, hcount]
    cases medium with
    | video => simp [mainLabels, StreamRef.label?]
    | audio =>
      simp [mainLabels, StreamRef.label?]
      omega

end Linear

@[simp] theorem link_folds (nodes : List LinkedNode) (medium : Medium) :
    ((m.link nodes).channel medium).folds = (m.channel medium).folds := by
  rw [link_channel]

@[simp] theorem setMain_folds (medium other : Medium) (ref : StreamRef) :
    ((m.setMain medium ref).channel other).folds = (m.channel other).folds := by
  rw [setMain_channel]
  split
  · next h => rw [h]
  · rfl

theorem rerouted_folds (medium other : Medium) :
    ((m.rerouted step f medium).channel other).folds = (m.channel other).folds := by
  rw [rerouted]
  split
  · rw [setMain_folds]
    split
    · rfl
    · rw [sunk, link_folds]
  · rfl

theorem foldedOnto_folds (medium other : Medium) :
    ((m.foldedOnto medium).channel other).folds =
      if other = medium then (m.channel medium).folds + 1 else (m.channel other).folds := by
  rw [foldedOnto, setChannel_channel]
  split
  · rfl
  · rw [link_folds]

/-- Each label names a chain folded so far or belongs to one of the given steps. -/
def Named (m : Merger) (steps : List String) : Prop :=
  ∀ name ∈ m.produced,
    (∃ medium count, count < (m.channel medium).folds ∧ name = foldName medium count) ∨
      ∃ step ∈ steps, ∃ label, name = qualified step label

namespace Named

variable {steps : List String}

theorem foldName_notMem (h : m.Named steps) (medium : Medium) :
    foldName medium (m.channel medium).folds ∉ m.produced := by
  intro hmem
  obtain ⟨other, count, hcount, hname⟩ | ⟨step, -, label, hname⟩ := h _ hmem
  · obtain ⟨rfl, rfl⟩ := foldName_inj.mp hname
    exact Nat.lt_irrefl _ hcount
  · exact qualified_ne_foldName step label medium _ hname.symm

theorem qualified_notMem (h : m.Named steps) (hstep : ∀ used ∈ steps, Apart used step)
    (label : String) : qualified step label ∉ m.produced := by
  intro hmem
  obtain ⟨medium, count, -, hname⟩ | ⟨used, hused, other, hname⟩ := h _ hmem
  · exact qualified_ne_foldName step label medium count hname
  · exact hstep used hused other label hname.symm

/-- Names of further steps may be counted as used, and chains folded since as well. -/
theorem mono {others : List String} (h : m.Named steps) (hsub : steps ⊆ others)
    (hproduced : m'.produced ⊆ m.produced)
    (hfolds : ∀ medium, (m.channel medium).folds ≤ (m'.channel medium).folds) :
    m'.Named others := by
  intro name hname
  obtain ⟨medium, count, hcount, hfold⟩ | ⟨used, hused, hlabel⟩ := h name (hproduced hname)
  · exact .inl ⟨medium, count, Nat.lt_of_lt_of_le hcount (hfolds medium), hfold⟩
  · exact .inr ⟨used, hsub hused, hlabel⟩

theorem of_same (h : m.Named steps) (hproduced : m'.produced = m.produced)
    (hfolds : ∀ medium, (m'.channel medium).folds = (m.channel medium).folds) :
    m'.Named steps :=
  h.mono (List.Subset.refl _) (hproduced ▸ List.Subset.refl _) fun medium =>
    Nat.le_of_eq (hfolds medium).symm

theorem foldedOnto (h : m.Named steps) (medium : Medium) : (m.foldedOnto medium).Named steps := by
  intro name hname
  have hproduced : (m.foldedOnto medium).produced =
      m.produced ++ [foldName medium (m.channel medium).folds] := by
    simp [Merger.foldedOnto, foldNode]
  rw [hproduced, List.mem_append, List.mem_singleton] at hname
  obtain hold | rfl := hname
  · obtain ⟨other, count, hcount, hname⟩ | hstep := h name hold
    · refine .inl ⟨other, count, ?_, hname⟩
      rw [foldedOnto_folds]
      split
      · next heq => exact Nat.lt_succ_of_lt (heq ▸ hcount)
      · exact hcount
    · exact .inr hstep
  · refine .inl ⟨medium, _, ?_, rfl⟩
    rw [foldedOnto_folds, if_pos rfl]
    exact Nat.lt_succ_self _

theorem folded (h : m.Named steps) (medium : Medium) : (m.folded medium).Named steps := by
  rw [Merger.folded]
  split
  · exact h
  · exact h.foldedOnto medium

theorem foldedFor (h : m.Named steps) (f : Fragment) (medium : Medium) :
    (m.foldedFor f medium).Named steps := by
  rw [Merger.foldedFor]
  split
  · exact h.folded medium
  · exact h

theorem entered (h : m.Named steps) : (m.entered f).Named steps := by
  have hgraph : ({ m with mode := .graph } : Merger).Named steps :=
    h.of_same rfl fun medium => by cases medium <;> rfl
  exact (hgraph.foldedFor f .video).foldedFor f .audio

theorem extended (h : m.Named steps) : (m.extended step f).Named (steps ++ [step]) := by
  intro name hname
  rw [Merger.extended, rerouted_produced, rerouted_produced, joined, link_produced,
    outputs_linkedNodes, List.mem_append] at hname
  obtain hold | hnew := hname
  · obtain ⟨medium, count, hcount, hname⟩ | ⟨used, hused, hname⟩ := h.entered name hold
    · refine .inl ⟨medium, count, ?_, hname⟩
      rw [Merger.extended, rerouted_folds, rerouted_folds, joined, link_folds]
      exact hcount
    · exact .inr ⟨used, List.mem_append_left _ hused, hname⟩
  · obtain ⟨label, -, rfl⟩ := List.mem_map.mp hnew
    exact .inr ⟨step, List.mem_append_right _ (List.mem_singleton_self step), label, rfl⟩

theorem setMain {medium other : Medium} {index : Nat} (h : m.Named steps) :
    ((m.sunk medium (m.channel medium).main).setMain medium (.stream index other)).Named steps :=
  h.of_same (by simp [sunk]) fun medium => by simp [sunk]

theorem chained (h : m.Named steps) (video audio : List FilterText) :
    (m.chained video audio).Named steps :=
  h.of_same rfl fun medium => by cases medium <;> rfl

theorem restarted (h : m.Named steps) (index : Nat) : (m.restarted index).Named steps := by
  have hmain : ((m.sunk .audio (m.channel .audio).main).setMain .audio
      (.stream index .audio)).Named steps := h.setMain
  exact hmain

theorem muted (h : m.Named steps) (keepAudio : Bool) : (m.muted keepAudio).Named steps := by
  rw [Merger.muted]
  split
  · exact h
  · exact h.of_same rfl fun medium => by cases medium <;> rfl

theorem silenced (h : m.Named steps) (keepAudio : Bool) : (m.silenced keepAudio).Named steps := by
  rw [Merger.silenced]
  split
  · exact h
  · split
    · exact h.setMain
    · exact h

theorem ended (h : m.Named steps) (keepAudio : Bool) : (m.ended keepAudio).Named steps := by
  rw [Merger.ended]
  split
  · exact (((h.muted keepAudio).folded .video).folded .audio).silenced keepAudio
  · exact h.muted keepAudio

end Named

/-- The labels of a merger are linear, and each of them names a chain folded so far or belongs to
one of the given steps. -/
structure Fit (m : Merger) (steps : List String) : Prop where
  linear : m.Linear
  named : m.Named steps

theorem fit_start : ({} : Merger).Fit [] :=
  ⟨linear_start, fun _ hname => absurd hname List.not_mem_nil⟩

namespace Fit

variable {steps : List String}

theorem foldedOnto {medium : Medium} (h : m.Fit steps) : (m.foldedOnto medium).Fit steps :=
  ⟨h.linear.foldedOnto (h.named.foldName_notMem medium), h.named.foldedOnto medium⟩

theorem folded {medium : Medium} (h : m.Fit steps) : (m.folded medium).Fit steps := by
  rw [Merger.folded]
  split
  · exact h
  · exact h.foldedOnto

theorem entered (h : m.Fit steps) : (m.entered f).Fit steps := by
  have hfold {u : Merger} {medium : Medium} (hu : u.Fit steps) :
      (u.foldedFor f medium).Fit steps := by
    rw [foldedFor]
    split
    · exact hu.folded
    · exact hu
  have hgraph : ({ m with mode := .graph } : Merger).Fit steps :=
    ⟨⟨h.linear.nodup, h.linear.tally⟩, h.named.of_same rfl fun medium => by cases medium <;> rfl⟩
  exact hfold (hfold hgraph)

theorem extended (h : m.Fit steps) (hf : f.WellFormed)
    (hstep : ∀ used ∈ steps, Apart used step) : (m.extended step f).Fit (steps ++ [step]) := by
  have hentered : (m.entered f).Fit steps := h.entered
  exact ⟨hentered.linear.rerouted hf (hentered.named.qualified_notMem hstep), h.named.extended⟩

theorem setMain {medium other : Medium} {index : Nat} (h : m.Fit steps) :
    ((m.sunk medium (m.channel medium).main).setMain medium (.stream index other)).Fit steps :=
  ⟨h.linear.setMain, h.named.setMain⟩

theorem chained (h : m.Fit steps) (video audio : List FilterText) :
    (m.chained video audio).Fit steps :=
  ⟨⟨h.linear.nodup, h.linear.tally⟩, h.named.chained video audio⟩

theorem restarted (h : m.Fit steps) (index : Nat) : (m.restarted index).Fit steps := by
  have hmain : ((m.sunk .audio (m.channel .audio).main).setMain .audio
      (.stream index .audio)).Fit steps := h.setMain
  exact hmain

theorem muted (h : m.Fit steps) (keepAudio : Bool) : (m.muted keepAudio).Fit steps := by
  refine ⟨?_, h.named.muted keepAudio⟩
  rw [Merger.muted]
  split
  · exact h.linear
  · exact ⟨h.linear.nodup, h.linear.tally⟩

theorem silenced (h : m.Fit steps) (keepAudio : Bool) : (m.silenced keepAudio).Fit steps := by
  rw [Merger.silenced]
  split
  · exact h
  · split
    · exact h.setMain
    · exact h

theorem ended (h : m.Fit steps) (keepAudio : Bool) : (m.ended keepAudio).Fit steps := by
  rw [Merger.ended]
  split
  · exact ((h.muted keepAudio).folded.folded).silenced keepAudio
  · exact h.muted keepAudio

theorem mono {others : List String} (h : m.Fit steps) (hsub : ∀ step ∈ steps, step ∈ others) :
    m.Fit others :=
  ⟨h.linear, h.named.mono hsub (List.Subset.refl _) fun _ => Nat.le_refl _⟩

theorem admits (hf : f.WellFormed) : m.Admits step f := by
  have hsettles (u : Merger) (medium : Medium) : u.Settles f medium := by
    rw [Settles]
    cases ho : f.output? medium with
    | some out => exact (hf.output_free medium out ho).1
    | none =>
      intro hreads
      have hreplaces := hf.main_replaced medium hreads
      simp [Fragment.replaces, ho] at hreplaces
  refine ⟨hf.outputs_nodup, fun node hnode name hname => ?_, hsettles _ _, hsettles _ _⟩
  exact hf.reads_declared name (List.mem_flatMap.mpr ⟨node, hnode, hname⟩)

end Fit

/-- The step that an operation belongs to, if it adds a fragment. -/
def Op.step? : Op → Option String
  | .fragment step _ => some step
  | _ => none

/-- An operation that leaves the merger open and whose fragment, if it has one, is well-formed. -/
def Op.WellFormed : Op → Prop
  | .fragment _ f => f.WellFormed
  | .finalize _ => False
  | _ => True

theorem Op.WellFormed.open {op : Op} (h : op.WellFormed) : op.Open := by
  cases op <;> trivial

theorem Step.mode {op : Op} (h : m.mode ≠ .finalized) (hstep : m.Step op m') :
    m'.mode ≠ .finalized := by
  cases hstep with
  | chains video audio =>
    rw [chained]
    dsimp only
    split
    · decide
    · exact h
  | nothing empty => exact h
  | fragment nonempty admits single => rw [extended_mode]; decide
  | replaceAudio single => rw [restarted_mode]; exact h

theorem Fit.exists_step {steps : List String} {op : Op} (h : m.Fit steps) (hop : op.WellFormed)
    (hnew : ∀ step ∈ op.step?, ∀ used ∈ steps, Apart used step) :
    ∃ m', m.Step op m' ∧ m'.Fit (steps ++ op.step?.toList) := by
  cases op with
  | finalize keepAudio => exact hop.elim
  | chains video audio =>
    exact ⟨_, .chains video audio, by simpa [Op.step?] using h.chained video audio⟩
  | replaceAudio index =>
    have hfit := h.restarted index
    exact ⟨_, .replaceAudio hfit.linear.single, by simpa [Op.step?] using hfit⟩
  | fragment step f =>
    by_cases hf : f.nodes = []
    · exact ⟨m, .nothing hf, h.mono fun used hused => List.mem_append_left _ hused⟩
    · have hfit := h.extended hop (hnew step rfl)
      exact ⟨_, .fragment hf (Fit.admits hop) hfit.linear.single, hfit⟩

theorem Fit.exists_run {steps : List String} {ops : List Op} (h : m.Fit steps)
    (hmode : m.mode ≠ .finalized) (hops : ∀ op ∈ ops, op.WellFormed)
    (hsteps : (steps ++ ops.filterMap Op.step?).Pairwise Apart) :
    ∃ m', m.run ops = .ok m' ∧ m'.Fit (steps ++ ops.filterMap Op.step?) ∧
      m'.mode ≠ .finalized := by
  induction ops generalizing m steps with
  | nil => exact ⟨m, rfl, by simpa using h, hmode⟩
  | cons op rest ih =>
    rw [filterMap_cons_toList, ← List.append_assoc] at hsteps ⊢
    have hop : op.WellFormed := hops op List.mem_cons_self
    have hfirst : (steps ++ op.step?.toList).Pairwise Apart := (List.pairwise_append.mp hsteps).1
    have hnew : ∀ step ∈ op.step?, ∀ used ∈ steps, Apart used step := fun step hstep used hused =>
      (List.pairwise_append.mp hfirst).2.2 used hused step (Option.mem_toList.mpr hstep)
    obtain ⟨u, hstep, hfit⟩ := h.exists_step hop hnew
    obtain ⟨m', hrun, hend⟩ := ih hfit (hstep.mode hmode)
      (fun other hother => hops other (List.mem_cons_of_mem op hother)) hsteps
    have happly := (apply_eq_ok h.linear.single hop.open).mpr ⟨hmode, hstep⟩
    exact ⟨m', run_cons_eq_ok.mpr ⟨u, happly, hrun⟩, hend⟩

theorem Fit.exists_finalize {steps : List String} (h : m.Fit steps) (hmode : m.mode ≠ .finalized)
    (keepAudio : Bool) : ∃ m' merged, m.finalize keepAudio = .ok (m', merged) := by
  have hended := (h.ended keepAudio).linear
  exact ⟨_, _, (finalize_eq_ok h.linear.single).mpr
    ⟨hmode, fun _ => ⟨hended.single, hended.spent⟩, rfl, rfl⟩⟩

/-- Operations with well-formed fragments under names that are apart never fail, and neither does
the end. -/
theorem exists_run_finalize {ops : List Op} (hops : ∀ op ∈ ops, op.WellFormed)
    (hsteps : (ops.filterMap Op.step?).Pairwise Apart) (keepAudio : Bool) :
    ∃ m m' merged, ({} : Merger).run ops = .ok m ∧ m.finalize keepAudio = .ok (m', merged) := by
  obtain ⟨m, hrun, hfit, hmode⟩ := fit_start.exists_run (by decide) hops hsteps
  obtain ⟨m', merged, hend⟩ := hfit.exists_finalize hmode keepAudio
  exact ⟨m, m', merged, hrun, hend⟩

end SkillPipeline.Merger
