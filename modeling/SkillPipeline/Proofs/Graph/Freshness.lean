import SkillPipeline.Proofs.Graph.Abandonment
import SkillPipeline.Proofs.Graph.Linearity

namespace SkillPipeline.Merger

open Outcome

variable {m m' : Merger} {step : String} {f : Fragment} {steps : List String}

/-- A fault other than that of a label which is produced twice. -/
def Fresh (e : Fault) : Prop := ∀ name, e ≠ .invariant (.producedTwice name)

theorem fresh_broken {α : Type} {e : InvariantFault} (h : ∀ name, e ≠ .producedTwice name) :
    FailsBy Fresh (broken e : Except Fault α) :=
  failsBy_error fun name heq => h name (Fault.invariant.inj heq)

theorem fresh_opened : FailsBy Fresh m.opened := by
  rw [opened]
  split
  · exact fresh_broken fun _ heq => by cases heq
  · exact failsBy_ok

theorem fresh_consumeRef (ref : StreamRef) : FailsBy Fresh (m.consumeRef ref) := by
  cases ref with
  | stream index medium => exact failsBy_ok
  | label name =>
    rw [consumeRef, consume]
    split
    · exact fresh_broken fun _ heq => by cases heq
    · exact failsBy_ok

theorem fresh_consumeAll (refs : List StreamRef) : FailsBy Fresh (refs.foldlM consumeRef m) := by
  intro e he
  obtain ⟨ref, -, u, hfault⟩ := exists_of_foldlM_error he
  exact fresh_consumeRef ref e hfault

theorem fresh_sink (medium : Medium) (ref : StreamRef) : FailsBy Fresh (m.sink medium ref) := by
  cases ref with
  | stream index other => exact failsBy_ok
  | label name => exact failsBy_bind (fresh_consumeRef (.label name)) fun _ _ => failsBy_ok

theorem fresh_resolveAll (labels : List String) (pads : List Pad) :
    FailsBy Fresh (pads.mapM (m.resolve step labels)) := by
  intro e he
  obtain ⟨pad, -, hfault⟩ := exists_of_mapM_error he
  cases pad with
  | main medium => cases hfault
  | input index medium => cases hfault
  | label name =>
    rw [resolve] at hfault
    split at hfault
    · cases hfault
    · exact fresh_broken (fun _ heq => by cases heq) e hfault

theorem fresh_replaceMain (medium : Medium) : FailsBy Fresh (m.replaceMain step f medium) := by
  rw [replaceMain]
  cases f.output? medium with
  | none =>
    dsimp only
    split
    · exact fresh_broken fun _ heq => by cases heq
    · exact failsBy_ok
  | some out =>
    dsimp only
    split
    · exact failsBy_bind (fresh_broken fun _ heq => by cases heq) fun _ hbroken => by cases hbroken
    · split
      · exact failsBy_ok
      · exact failsBy_bind (fresh_sink medium _) fun _ _ => failsBy_ok

theorem fresh_replaceMedia (media : List Medium) :
    FailsBy Fresh (media.foldlM (fun m medium => m.replaceMain step f medium) m) := by
  intro e he
  obtain ⟨medium, -, u, hfault⟩ := exists_of_foldlM_error he
  exact fresh_replaceMain medium e hfault

theorem fresh_endAudio (keepAudio : Bool) : FailsBy Fresh (m.endAudio keepAudio) := by
  rw [endAudio]
  split
  · exact failsBy_ok
  · exact failsBy_bind (fresh_sink .audio _) fun _ _ => failsBy_ok

theorem fresh_spentOnly : FailsBy Fresh m.spentOnly := by
  rw [spentOnly]
  split
  · exact fresh_broken fun _ heq => by cases heq
  · exact failsBy_ok

theorem fresh_produceAll {names : List String} (h : m.produced.Nodup)
    (hnames : (m.produced ++ names).Nodup) : FailsBy Fresh (names.foldlM produce m) := by
  rw [(produceAll_eq_ok h).mpr ⟨hnames, rfl⟩]
  exact failsBy_ok

theorem fresh_fold (h : m.Named steps) (hsingle : m.Single) (medium : Medium) :
    FailsBy Fresh (m.fold medium) := by
  rw [fold]
  dsimp only
  split
  · exact failsBy_ok
  · refine failsBy_bind (fresh_consumeRef _) fun u hu => failsBy_bind ?_ fun _ _ => failsBy_ok
    obtain ⟨-, rfl⟩ := (consumeRef_eq_ok hsingle.consumed).mp hu
    rw [letter_append_toString, produce, if_neg (by simpa using h.foldName_notMem medium)]
    exact failsBy_ok

theorem fresh_foldIfTouched (h : m.Named steps) (hsingle : m.Single) (medium : Medium) :
    FailsBy Fresh (foldIfTouched f m medium) := by
  rw [foldIfTouched]
  split
  · exact fresh_fold h hsingle medium
  · exact failsBy_ok

theorem fresh_foldMedia (h : m.Named steps) (hsingle : m.Single) :
    FailsBy Fresh (Medium.all.foldlM (foldIfTouched f) m) := by
  rw [Medium.all, List.foldlM_cons]
  refine failsBy_bind (fresh_foldIfTouched h hsingle .video) fun u hu => ?_
  obtain ⟨hsingle, rfl⟩ := (foldIfTouched_eq_ok hsingle).mp hu
  rw [List.foldlM_cons]
  refine failsBy_bind (fresh_foldIfTouched (h.foldedFor f .video) hsingle .audio) fun _ _ => ?_
  exact failsBy_ok

theorem fresh_addNode {labels : List String} {node : GraphNode} (hsingle : m.Single)
    (hnew : (m.produced ++ node.outputs.map (qualified step)).Nodup) :
    FailsBy Fresh (m.addNode step labels node) := by
  rw [addNode]
  refine failsBy_bind (fresh_resolveAll labels node.inputs) fun inputs _ => ?_
  refine failsBy_bind (fresh_consumeAll inputs) fun u hu => ?_
  obtain ⟨-, rfl⟩ := (consumeAll_eq_ok hsingle.consumed).mp hu
  exact failsBy_bind (fresh_produceAll hsingle.produced hnew) fun _ _ => failsBy_ok

theorem fresh_addNodes {labels : List String} {nodes : List GraphNode} (hsingle : m.Single)
    (hnew : (m.produced ++ (nodes.flatMap (·.outputs)).map (qualified step)).Nodup) :
    FailsBy Fresh (nodes.foldlM (fun m node => m.addNode step labels node) m) := by
  -- On the nodes: what one of them adds is part of what they all add.
  induction nodes generalizing m with
  | nil => exact failsBy_ok
  | cons node rest ih =>
    rw [List.flatMap_cons, List.map_append, ← List.append_assoc] at hnew
    rw [List.foldlM_cons]
    refine failsBy_bind (fresh_addNode hsingle (List.nodup_append.mp hnew).1) fun u hu => ?_
    obtain ⟨-, hsingle, rfl⟩ := (addNode_eq_ok hsingle).mp hu
    exact ih hsingle (by simpa [linkedNode] using hnew)

theorem fresh_addFragment (h : m.Named steps) (hsingle : m.Single)
    (hstep : ∀ used ∈ steps, Apart used step) : FailsBy Fresh (m.addFragment step f) := by
  rw [addFragment]
  refine failsBy_bind fresh_opened fun u hu => ?_
  obtain ⟨-, rfl⟩ := opened_eq_ok.mp hu
  split
  · exact failsBy_ok
  · have hgraph : ({ u with mode := .graph } : Merger).Named steps :=
      h.of_same rfl fun medium => by cases medium <;> rfl
    refine failsBy_bind (fresh_foldMedia hgraph ⟨hsingle.produced, hsingle.consumed⟩)
      fun v hv => ?_
    obtain ⟨hsingle, rfl⟩ := (foldMedia_eq_ok hsingle).mp hv
    cases hrepeated : firstRepeated [] f.outputs with
    | some label => exact fresh_broken fun _ heq => by cases heq
    | none =>
      have houtputs : f.outputs.Nodup := (firstRepeated_eq_none.mp hrepeated).1
      refine failsBy_bind (fresh_addNodes hsingle ?_) fun _ _ => fresh_replaceMedia Medium.all
      refine List.nodup_append'.mpr ⟨hsingle.produced, ?_, fun name hold hnew => ?_⟩
      · exact houtputs.map fun a b hab => qualified_inj.mp hab
      · obtain ⟨label, -, rfl⟩ := List.mem_map.mp hnew
        exact h.entered.qualified_notMem hstep label hold

theorem fresh_finalize (h : m.Named steps) (hsingle : m.Single) (keepAudio : Bool) :
    FailsBy Fresh (m.finalize keepAudio) := by
  rw [finalize_eq]
  refine failsBy_bind fresh_opened fun u hu => failsBy_bind ?_ fun _ _ => failsBy_ok
  obtain ⟨-, rfl⟩ := opened_eq_ok.mp hu
  rw [finish]
  split
  · have hmuted : (u.muted keepAudio).Single := (muted_single keepAudio).mpr hsingle
    rw [finalizeGraph_eq]
    refine failsBy_bind (fresh_fold (h.muted keepAudio) hmuted .video) fun v hv => ?_
    obtain ⟨hsingle, rfl⟩ := (fold_eq_ok hmuted).mp hv
    refine failsBy_bind (fresh_fold ((h.muted keepAudio).folded .video) hsingle .audio)
      fun _ _ => ?_
    exact failsBy_bind (fresh_endAudio keepAudio) fun _ _ => fresh_spentOnly
  · exact failsBy_ok

theorem fresh_apply {op : Op} (h : m.Named steps) (hsingle : m.Single)
    (hstep : ∀ step ∈ op.step?, ∀ used ∈ steps, Apart used step) : FailsBy Fresh (m.apply op) := by
  cases op with
  | chains video audio =>
    refine FailsBy.map (failsBy_bind fresh_opened fun u _ => ?_)
    dsimp only
    split
    · exact failsBy_ok
    · exact failsBy_ok
  | fragment step f => exact FailsBy.map (fresh_addFragment h hsingle (hstep step rfl))
  | replaceAudio index =>
    refine FailsBy.map (failsBy_bind fresh_opened fun u _ => ?_)
    exact failsBy_bind (fresh_sink .audio _) fun _ _ => failsBy_ok
  | finalize keepAudio => exact FailsBy.map (fresh_finalize h hsingle keepAudio)

theorem Step.named {op : Op} (hstep : m.Step op m') (h : m.Named steps) :
    m'.Named (steps ++ op.step?.toList) := by
  cases hstep with
  | chains video audio => simpa [Op.step?] using h.chained video audio
  | nothing empty =>
    exact h.mono (List.subset_append_left _ _) (List.Subset.refl _) fun _ => Nat.le_refl _
  | fragment nonempty admits single => exact h.extended
  | replaceAudio single => simpa [Op.step?] using h.restarted _

/-- What an operation leaves has no label twice, and names of the steps so far. -/
theorem kept_of_apply {op : Op} (h : m.Named steps) (hsingle : m.Single)
    (happly : (m.apply op).map (·.1) = .ok m') :
    m'.Single ∧ m'.Named (steps ++ op.step?.toList) := by
  by_cases hop : op.Open
  · obtain ⟨-, hstep⟩ := (apply_eq_ok hsingle hop).mp happly
    exact ⟨hstep.single hsingle, hstep.named h⟩
  · cases op with
    | chains video audio => exact absurd trivial hop
    | fragment step f => exact absurd trivial hop
    | replaceAudio index => exact absurd trivial hop
    | finalize keepAudio =>
      obtain ⟨⟨u, answer⟩, hanswer, rfl⟩ := map_eq_ok.mp happly
      obtain ⟨⟨v, merged⟩, hend, heq⟩ := map_eq_ok.mp hanswer
      obtain ⟨-, hgraph, rfl, -⟩ := (finalize_eq_ok hsingle).mp hend
      obtain ⟨rfl, -⟩ := Prod.mk.inj heq
      have hended : (m.ended keepAudio).Single := by
        by_cases hmode : m.mode = .graph
        · exact (hgraph hmode).1
        · rw [ended, if_neg hmode]
          exact (muted_single keepAudio).mpr hsingle
      have hnamed : (m.ended keepAudio).Named (steps ++ (Op.finalize keepAudio).step?.toList) := by
        simpa [Op.step?] using h.ended keepAudio
      exact ⟨⟨hended.produced, hended.consumed⟩, hnamed.of_same rfl fun medium => by
        cases medium <;> rfl⟩

/-- Operations whose steps are apart never meet a label that is there already. -/
theorem fresh_run {ops : List Op} (h : m.Named steps) (hsingle : m.Single)
    (hsteps : (steps ++ ops.filterMap Op.step?).Pairwise Apart) : FailsBy Fresh (m.run ops) := by
  induction ops generalizing m steps with
  | nil => exact failsBy_ok
  | cons op rest ih =>
    rw [filterMap_cons_toList, ← List.append_assoc] at hsteps
    have hfirst : (steps ++ op.step?.toList).Pairwise Apart := (List.pairwise_append.mp hsteps).1
    have hnew : ∀ step ∈ op.step?, ∀ used ∈ steps, Apart used step := fun step hstep used hused =>
      (List.pairwise_append.mp hfirst).2.2 used hused step (Option.mem_toList.mpr hstep)
    refine failsBy_bind (fresh_apply h hsingle hnew).map fun u hu => ?_
    obtain ⟨hkept, hnamed⟩ := kept_of_apply h hsingle hu
    exact ih hnamed hkept hsteps

end SkillPipeline.Merger
