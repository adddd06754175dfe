import Mathlib.Data.List.Count
import SkillPipeline.Proofs.Graph.Abandonment
import SkillPipeline.Proofs.Graph.Linearity

namespace SkillPipeline

open Outcome

/-- What uses the labels of a graph: its nodes, and the two streams that the command takes. -/
def Merged.uses (merged : Merged) (nodes : List LinkedNode) : List String :=
  nodes.flatMap (·.reads) ++ [merged.video, merged.audio].filterMap StreamRef.label?

/-- The labels that a fragment itself uses: its nodes read them, or they become main streams. -/
def Fragment.uses (f : Fragment) : List String := f.labelsRead ++ f.finals

section Counting

variable {α : Type} {produces uses : α → List String} {l : List α}

theorem count_flatMap_eq_zero {name : String} (hsub : ∀ a ∈ l, uses a ⊆ produces a)
    (hname : name ∉ l.flatMap produces) : (l.flatMap uses).count name = 0 := by
  refine List.count_eq_zero_of_not_mem fun hmem => ?_
  obtain ⟨a, ha, huse⟩ := List.mem_flatMap.mp hmem
  exact hname (List.mem_flatMap.mpr ⟨a, ha, hsub a ha huse⟩)

/-- Where no label is produced twice, the one that produces a label has all its uses. -/
theorem count_flatMap_of_nodup {a : α} {name : String} (hnodup : (l.flatMap produces).Nodup)
    (hsub : ∀ a ∈ l, uses a ⊆ produces a) (ha : a ∈ l) (hname : name ∈ produces a) :
    (l.flatMap uses).count name = (uses a).count name := by
  induction l with
  | nil => exact absurd ha List.not_mem_nil
  | cons first rest ih =>
    rw [List.flatMap_cons, List.nodup_append'] at hnodup
    obtain ⟨-, hrest, hapart⟩ := hnodup
    obtain ⟨hfirst, hothers⟩ := List.forall_mem_cons.mp hsub
    rw [List.flatMap_cons, List.count_append]
    rcases List.mem_cons.mp ha with rfl | ha
    · rw [count_flatMap_eq_zero hothers fun hmem => hapart hname hmem, Nat.add_zero]
    · have hnone : name ∉ uses first := fun huse =>
        hapart (hfirst huse) (List.mem_flatMap.mpr ⟨a, ha, hname⟩)
      rw [List.count_eq_zero_of_not_mem hnone, Nat.zero_add]
      exact ih hrest hothers ha

end Counting

namespace Merger

variable {m m' : Merger} {step : String} {f : Fragment}

/-- How often a label is used: by nodes, and as a main stream. -/
def uses (m : Merger) (name : String) : Nat := (m.consumed ++ m.finals).count name

theorem uses_eq (name : String) :
    m.uses name = m.consumed.count name + (m.mainLabels .video).count name +
      (m.mainLabels .audio).count name := by
  rw [uses, finals_eq, List.count_append, List.count_append, Nat.add_assoc]

/-- The labels counted as produced are the outputs of the nodes. -/
def Recorded (m : Merger) : Prop := m.produced = m.nodes.flatMap (·.outputs)

namespace Recorded

theorem link (h : m.Recorded) (nodes : List LinkedNode) : (m.link nodes).Recorded := by
  rw [Recorded, link_produced, link_nodes, List.flatMap_append, ← h]

theorem setChannel (h : m.Recorded) (medium : Medium) (c : Channel) :
    (m.setChannel medium c).Recorded := by
  rw [Recorded, setChannel_produced, setChannel_nodes, h]

theorem rerouted (h : m.Recorded) (medium : Medium) : (m.rerouted step f medium).Recorded := by
  rw [Merger.rerouted]
  split
  · apply setChannel
    split
    · exact h
    · exact h.link _
  · exact h

end Recorded

/-- What a merger has more than an earlier one: labels, and uses of labels. -/
structure Adds (m m' : Merger) (fresh used : List String) : Prop where
  recorded : m.Recorded → m'.Recorded
  produced : m'.produced.Perm (m.produced ++ fresh)
  uses : ∀ name, m'.uses name = m.uses name + used.count name

namespace Adds

theorem of_same (hnodes : m'.nodes = m.nodes) (hproduced : m'.produced = m.produced)
    (huses : ∀ name, m'.uses name = m.uses name) : m.Adds m' [] [] where
  recorded h := by rw [Recorded, hproduced, hnodes, h]
  produced := by simp [hproduced]
  uses name := by simp [huses name]

theorem refl : m.Adds m [] [] := of_same rfl rfl fun _ => rfl

theorem trans {u : Merger} {fresh used fresh' used' : List String} (h : m.Adds u fresh used)
    (hu : u.Adds m' fresh' used') : m.Adds m' (fresh ++ fresh') (used ++ used') where
  recorded hm := hu.recorded (h.recorded hm)
  produced := by
    rw [← List.append_assoc]
    exact hu.produced.trans (h.produced.append_right fresh')
  uses name := by rw [hu.uses, h.uses, List.count_append, Nat.add_assoc]

theorem of_perm {fresh used fresh' used' : List String} (h : m.Adds m' fresh used)
    (hfresh : fresh.Perm fresh') (hused : used.Perm used') : m.Adds m' fresh' used' where
  recorded := h.recorded
  produced := h.produced.trans (hfresh.append_left _)
  uses name := by rw [h.uses, hused.count_eq]

theorem foldedOnto (medium : Medium) :
    m.Adds (m.foldedOnto medium) [foldName medium (m.channel medium).folds]
      [foldName medium (m.channel medium).folds] where
  recorded h := (h.link _).setChannel ..
  produced := by simp [Merger.foldedOnto, foldNode]
  uses name := by
    have hconsumed : (m.foldedOnto medium).consumed = m.consumed ++ m.mainLabels medium := by
      simp [Merger.foldedOnto, foldNode, LinkedNode.reads_singleton, mainLabels]
    rw [uses_eq, uses_eq, hconsumed, foldedOnto_mainLabels, foldedOnto_mainLabels,
      List.count_append]
    cases medium <;> simp <;> omega

theorem folded (m : Merger) (medium : Medium) :
    ∃ folds, m.Adds (m.folded medium) folds folds := by
  rw [Merger.folded]
  split
  · exact ⟨[], refl⟩
  · exact ⟨_, foldedOnto medium⟩

theorem foldedFor (m : Merger) (f : Fragment) (medium : Medium) :
    ∃ folds, m.Adds (m.foldedFor f medium) folds folds := by
  rw [Merger.foldedFor]
  split
  · exact folded m medium
  · exact ⟨[], refl⟩

theorem entered (m : Merger) (f : Fragment) : ∃ folds, m.Adds (m.entered f) folds folds := by
  have hgraph : m.Adds { m with mode := .graph } [] [] := of_same rfl rfl fun _ => rfl
  obtain ⟨video, hvideo⟩ := foldedFor { m with mode := .graph } f .video
  obtain ⟨audio, haudio⟩ := foldedFor (Merger.foldedFor { m with mode := .graph } f .video) f .audio
  exact ⟨_, (hgraph.trans hvideo).trans haudio⟩

/-- A main stream that ends is used by its sink, as long as it is not kept beside it. -/
theorem setMain (m : Merger) (medium other : Medium) (index : Nat) :
    m.Adds ((m.sunk medium (m.channel medium).main).setMain medium (.stream index other))
      [] [] where
  recorded h := (h.link _).setChannel ..
  produced := by simp [sunk]
  uses name := by
    rw [uses_eq, uses_eq, setMain_consumed, setMain_mainLabels, setMain_mainLabels, sunk,
      link_consumed, sinks_reads, link_mainLabels, link_mainLabels, List.count_append,
      List.count_nil, Nat.add_zero]
    cases medium with
    | video => simp [mainLabels, StreamRef.label?]
    | audio =>
      simp [mainLabels, StreamRef.label?]
      omega

/-- A fragment that reads a main stream without replacing it finds that of an input. -/
theorem settles_mainLabels {medium : Medium} (h : m.Settles f medium)
    (hkept : f.replaces medium = false) (hreads : f.reads medium = true) :
    m.mainLabels medium = [] := by
  rw [Fragment.replaces, Option.isSome_eq_false_iff, Option.isNone_iff_eq_none] at hkept
  rw [Settles, hkept] at h
  rw [mainLabels, h hreads, Option.toList_none]

/-- A main stream is used as often after a fragment as before: the one that reads it or ends it
takes the place of the main stream. -/
theorem share_eq {medium : Medium} (name : String)
    (h : f.replaces medium = false → f.reads medium = true → m.mainLabels medium = [])
    (honce : f.pads.count (.main medium) * (m.mainLabels medium).count name ≤ 1) :
    f.pads.count (.main medium) * (m.mainLabels medium).count name +
        (if f.replaces medium && !f.reads medium then m.mainLabels medium else []).count name +
        (if f.replaces medium then [] else m.mainLabels medium).count name =
      (m.mainLabels medium).count name := by
  have hreads : f.reads medium = true ↔ 0 < f.pads.count (.main medium) := by
    simp [Fragment.reads, List.count_pos_iff, Fragment.pads]
  cases hr : f.reads medium with
  | false =>
    have hnone : f.pads.count (.main medium) = 0 :=
      Nat.eq_zero_of_not_pos fun hpos => by simp [hreads.mpr hpos] at hr
    cases f.replaces medium <;> simp [hnone]
  | true =>
    cases hreplaces : f.replaces medium with
    | false => simp [h hreplaces hr]
    | true =>
      -- A main stream that is a label can be read once only, by nothing else than this fragment.
      have hpos : 0 < f.pads.count (.main medium) := hreads.mp hr
      simp only [Bool.not_true, Bool.and_false, Bool.false_eq_true, ↓reduceIte, List.count_nil,
        Nat.add_zero]
      rcases Nat.eq_zero_or_pos ((m.mainLabels medium).count name) with hzero | hone
      · rw [hzero, Nat.mul_zero]
      · have hle : f.pads.count (.main medium) ≤ 1 :=
          Nat.le_trans (Nat.le_mul_of_pos_right _ hone) honce
        rw [Nat.le_antisymm hle hpos, Nat.one_mul]

theorem count_main_extended (medium : Medium) (name : String) :
    ((m.extended step f).mainLabels medium).count name =
      ((f.output? medium).toList.map (qualified step)).count name +
        (if f.replaces medium then [] else (m.entered f).mainLabels medium).count name := by
  have hmain : (m.extended step f).mainLabels medium =
      if f.replaces medium then (f.output? medium).toList.map (qualified step)
      else (m.entered f).mainLabels medium := by
    rw [Merger.extended, rerouted_mainLabels, rerouted_mainLabels, joined, link_mainLabels]
    cases medium <;> simp
  rw [hmain, Fragment.replaces]
  cases f.output? medium <;> simp

theorem rerouted_video_mainLabels_audio :
    ((m.joined step f).rerouted step f .video).mainLabels .audio =
      (m.entered f).mainLabels .audio := by
  rw [rerouted_mainLabels, if_neg (by simp), joined, link_mainLabels]

/-- What has been read after a fragment: its own labels, and the main streams that it ends. -/
theorem count_consumed_extended (name : String) :
    (m.extended step f).consumed.count name =
      (m.entered f).consumed.count name + (f.labelsRead.map (qualified step)).count name +
        (f.pads.count (.main .video) * ((m.entered f).mainLabels .video).count name +
          (if f.replaces .video && !f.reads .video then (m.entered f).mainLabels .video
            else []).count name) +
        (f.pads.count (.main .audio) * ((m.entered f).mainLabels .audio).count name +
          (if f.replaces .audio && !f.reads .audio then (m.entered f).mainLabels .audio
            else []).count name) := by
  rw [Merger.extended, rerouted_consumed, rerouted_consumed, rerouted_video_mainLabels_audio,
    joined, link_consumed, reads_linkedNodes, link_mainLabels, List.count_append,
    List.count_append, List.count_append, count_linkedPads, ← labelsRead_eq]
  omega

theorem extended (hadmits : m.Admits step f) (hsingle : (m.extended step f).Single) :
    ∃ folds, m.Adds (m.extended step f) (folds ++ f.outputs.map (qualified step))
      (folds ++ f.uses.map (qualified step)) := by
  obtain ⟨folds, hfolds⟩ := entered m f
  refine ⟨folds, hfolds.trans ⟨fun h => ?_, ?_, fun name => ?_⟩⟩
  · exact ((h.link _).rerouted .video).rerouted .audio
  · rw [Merger.extended, rerouted_produced, rerouted_produced, joined, link_produced,
      outputs_linkedNodes]
  · have honce := List.nodup_iff_count_le_one.mp hsingle.consumed name
    rw [count_consumed_extended] at honce
    have hvideo := settles_mainLabels hadmits.video_settles
    have haudio := settles_mainLabels hadmits.audio_settles
    rw [joined, link_mainLabels] at hvideo
    rw [rerouted_video_mainLabels_audio] at haudio
    -- Each medium keeps its one use, so only the labels of the fragment are left to count.
    have hkeptVideo := share_eq name hvideo (by omega)
    have hkeptAudio := share_eq name haudio (by omega)
    rw [uses_eq, uses_eq, count_consumed_extended, count_main_extended, count_main_extended,
      Fragment.uses, Fragment.finals, List.map_append, List.map_append, List.count_append,
      List.count_append]
    simp only [Fragment.output?]
    omega

theorem silenced (m : Merger) (keepAudio : Bool) : m.Adds (m.silenced keepAudio) [] [] := by
  rw [Merger.silenced]
  split
  · exact refl
  · split
    · exact setMain m .audio .audio 0
    · exact refl

theorem ended (m : Merger) (keepAudio : Bool) (hmode : m.mode = .graph) :
    ∃ folds, m.Adds (m.ended keepAudio) folds folds := by
  have hmuted : m.Adds (m.muted keepAudio) [] [] := by
    rw [muted]
    split
    · exact refl
    · exact of_same rfl rfl fun _ => rfl
  obtain ⟨video, hvideo⟩ := folded (m.muted keepAudio) .video
  obtain ⟨audio, haudio⟩ := folded ((m.muted keepAudio).folded .video) .audio
  rw [Merger.ended, if_pos hmode]
  exact ⟨_, (((hmuted.trans hvideo).trans haudio).trans (silenced _ keepAudio))⟩

end Adds

def Op.labels : Op → List String
  | .fragment step f => f.outputs.map (qualified step)
  | _ => []

/-- The labels that the fragment of an operation uses itself; one without nodes adds nothing. -/
def Op.uses : Op → List String
  | .fragment step f => if f.nodes = [] then [] else f.uses.map (qualified step)
  | _ => []

theorem Admits.uses_subset (h : m.Admits step f) : f.uses ⊆ f.outputs := by
  intro name hname
  rcases List.mem_append.mp hname with hread | hfinal
  · obtain ⟨node, hnode, hread⟩ := List.mem_flatMap.mp hread
    exact h.reads_declared node hnode name hread
  · obtain ⟨medium, hout⟩ := Fragment.mem_finals.mp hfinal
    cases medium with
    | video =>
      have hsettles := h.video_settles
      rwa [Settles, hout] at hsettles
    | audio =>
      have hsettles := h.audio_settles
      rwa [Settles, hout] at hsettles

theorem Step.adds {op : Op} (hstep : m.Step op m') :
    op.uses ⊆ op.labels ∧ ∃ folds, m.Adds m' (folds ++ op.labels) (folds ++ op.uses) := by
  cases hstep with
  | chains video audio => exact ⟨List.Subset.refl _, [], .of_same rfl rfl fun _ => rfl⟩
  | replaceAudio single => exact ⟨List.Subset.refl _, [], .setMain m .audio .audio _⟩
  | @nothing step f empty =>
    have hlabels : (Op.fragment step f).labels = [] := by simp [Op.labels, Fragment.outputs, empty]
    have huses : (Op.fragment step f).uses = [] := if_pos empty
    rw [hlabels, huses]
    exact ⟨List.Subset.refl _, [], .refl⟩
  | @fragment step f nonempty admits single =>
    have huses : (Op.fragment step f).uses = f.uses.map (qualified step) := if_neg nonempty
    rw [huses]
    exact ⟨List.map_subset _ admits.uses_subset, Adds.extended admits single⟩

theorem run_adds {ops : List Op} (h : m.Single) (hopen : ∀ op ∈ ops, op.Open)
    (hrun : m.run ops = .ok m') :
    (∀ op ∈ ops, op.uses ⊆ op.labels) ∧
      ∃ folds, m.Adds m' (folds ++ ops.flatMap Op.labels) (folds ++ ops.flatMap Op.uses) := by
  have hswap (a b c d : List String) : ((a ++ b) ++ (c ++ d)).Perm ((a ++ c) ++ (b ++ d)) := by
    refine List.perm_iff_count.mpr fun name => ?_
    simp only [List.count_append]
    omega
  -- On the operations; the labels of chains folded on the way are put first.
  induction ops generalizing m with
  | nil =>
    obtain rfl := pure_eq_ok.mp hrun
    exact ⟨by simp, [], .refl⟩
  | cons op rest ih =>
    obtain ⟨hop, hothers⟩ := List.forall_mem_cons.mp hopen
    obtain ⟨u, hu, hrest⟩ := run_cons_eq_ok.mp hrun
    obtain ⟨-, hstep⟩ := (apply_eq_ok h hop).mp hu
    obtain ⟨hfirst, folds, hadds⟩ := hstep.adds
    obtain ⟨hlater, folds', hadds'⟩ := ih (hstep.single h) hothers hrest
    exact ⟨List.forall_mem_cons.mpr ⟨hfirst, hlater⟩, folds ++ folds',
      (hadds.trans hadds').of_perm (hswap ..) (hswap ..)⟩

/-- Labels that are produced once are used twice only by the fragment that they come from. -/
theorem overused_iff {ops : List Op} {folds : List String} {name : String}
    (hnodup : (folds ++ ops.flatMap Op.labels).Nodup)
    (hsub : ∀ op ∈ ops, op.uses ⊆ op.labels) :
    1 < (folds ++ ops.flatMap Op.uses).count name ↔
      ∃ step f out, .fragment step f ∈ ops ∧ f.nodes ≠ [] ∧ 1 < f.uses.count out ∧
        name = qualified step out := by
  obtain ⟨hfolds, hlabels, hapart⟩ := List.nodup_append'.mp hnodup
  have hcount {step : String} {f : Fragment} {out : String} (hop : .fragment step f ∈ ops)
      (hf : f.nodes ≠ []) (hout : qualified step out ∈ (Op.fragment step f).labels) :
      (ops.flatMap Op.uses).count (qualified step out) = f.uses.count out := by
    have huses : (Op.fragment step f).uses = f.uses.map (qualified step) := if_neg hf
    rw [count_flatMap_of_nodup hlabels hsub hop hout, huses]
    exact List.count_map_of_injective _ _ (fun a b hab => qualified_inj.mp hab) _
  -- Names of folded chains are none of labels, so all uses come from the fragment of the label.
  rw [List.count_append]
  constructor
  · intro htwice
    have hfold := List.nodup_iff_count_le_one.mp hfolds name
    have huse : name ∈ ops.flatMap Op.uses := List.count_pos_iff.mp (by omega)
    obtain ⟨op, hop, hname⟩ := List.mem_flatMap.mp huse
    have hlabel : name ∈ ops.flatMap Op.labels := List.mem_flatMap.mpr ⟨op, hop, hsub op hop hname⟩
    rw [List.count_eq_zero_of_not_mem fun hmem => hapart hmem hlabel, Nat.zero_add] at htwice
    cases op with
    | chains video audio => exact absurd hname List.not_mem_nil
    | replaceAudio index => exact absurd hname List.not_mem_nil
    | finalize keepAudio => exact absurd hname List.not_mem_nil
    | fragment step f =>
      by_cases hf : f.nodes = []
      · rw [Op.uses, if_pos hf] at hname
        exact absurd hname List.not_mem_nil
      · obtain ⟨out, hout, rfl⟩ := List.mem_map.mp (hsub _ hop hname)
        rw [hcount hop hf (hsub _ hop hname)] at htwice
        exact ⟨step, f, out, hop, hf, htwice, rfl⟩
  · rintro ⟨step, f, out, hop, hf, htwice, rfl⟩
    have huse : qualified step out ∈ (Op.fragment step f).uses := by
      rw [Op.uses, if_neg hf]
      exact List.mem_map_of_mem (List.count_pos_iff.mp (by omega))
    rw [hcount hop hf (hsub _ hop huse)]
    omega

theorem ended_adds {ops : List Op} (hopen : ∀ op ∈ ops, op.Open)
    (hrun : ({} : Merger).run ops = .ok m) (hmode : m.mode = .graph) (keepAudio : Bool) :
    (∀ op ∈ ops, op.uses ⊆ op.labels) ∧
      ∃ folds, ({} : Merger).Adds (m.ended keepAudio) (folds ++ ops.flatMap Op.labels)
        (folds ++ ops.flatMap Op.uses) := by
  obtain ⟨hsub, before, hbefore⟩ := run_adds ⟨List.nodup_nil, List.nodup_nil⟩ hopen hrun
  obtain ⟨last, hlast⟩ := Adds.ended m keepAudio hmode
  have hfront (l : List String) : ((before ++ l) ++ last).Perm ((last ++ before) ++ l) := by
    rw [List.append_assoc last]
    exact List.perm_append_comm
  exact ⟨hsub, last ++ before, (hbefore.trans hlast).of_perm (hfront _) (hfront _)⟩

/-- Where operations lead to a graph without a fault, each label is produced once, no two nodes
read it, and it is used; it is used more than once exactly if the fragment that it comes from uses
it more than once. -/
theorem finalize_uses {ops : List Op} {keepAudio : Bool} {merged : Merged}
    (hrun : ({} : Merger).run ops = .ok m) (hend : m.finalize keepAudio = .ok (m', merged))
    (hgraph : merged.graphMode = true) :
    ∃ nodes, merged.clause = .graph nodes ∧ (nodes.flatMap (·.outputs)).Nodup ∧
      (nodes.flatMap (·.reads)).Nodup ∧
      (∀ name, name ∈ merged.uses nodes ↔ name ∈ nodes.flatMap (·.outputs)) ∧
      ∀ name, 1 < (merged.uses nodes).count name ↔
        ∃ step f out, .fragment step f ∈ ops ∧ f.nodes ≠ [] ∧ 1 < f.uses.count out ∧
          name = qualified step out := by
  have hopened : m.mode ≠ .finalized := by
    intro hfinalized
    apply apply_finalized hfinalized (.finalize keepAudio) m'
    rw [apply, hend]
    rfl
  have hopen := open_of_run hrun hopened
  have hstart : ({} : Merger).Single := ⟨List.nodup_nil, List.nodup_nil⟩
  obtain ⟨hgrows, hsingle, -⟩ := run_grows hstart hopen hrun
  obtain ⟨-, hdone, -, rfl⟩ := (finalize_eq_ok hsingle).mp hend
  have hmode : m.mode = .graph := eq_of_beq hgraph
  obtain ⟨hend, hspent⟩ := hdone hmode
  obtain ⟨hsub, folds, hadds⟩ := ended_adds hopen hrun hmode keepAudio
  have hconsumed := (hgrows.trans (.ended keepAudio)).consumed_eq
  have hproduced : (m.ended keepAudio).Recorded := hadds.recorded rfl
  have huses : (m.result keepAudio).uses (m.ended keepAudio).nodes =
      (m.ended keepAudio).consumed ++ (m.ended keepAudio).finals := by
    rw [hconsumed]
    rfl
  -- What is used is what the run and the end have added to an empty merger.
  have hcount (name : String) : ((m.result keepAudio).uses (m.ended keepAudio).nodes).count name =
      (folds ++ ops.flatMap Op.uses).count name := by
    rw [huses]
    exact (hadds.uses name).trans (Nat.zero_add _)
  have hlabels : (m.ended keepAudio).produced.Perm (folds ++ ops.flatMap Op.labels) :=
    hadds.produced
  refine ⟨(m.ended keepAudio).nodes, if_pos hmode, hproduced ▸ hend.produced,
    hconsumed ▸ hend.consumed, fun name => ⟨fun huse => ?_, fun hlabel => ?_⟩, fun name => ?_⟩
  · rw [← List.count_pos_iff, hcount, List.count_pos_iff, List.mem_append] at huse
    rw [← hproduced, hlabels.mem_iff, List.mem_append]
    refine huse.imp_right fun huse => ?_
    obtain ⟨op, hop, hname⟩ := List.mem_flatMap.mp huse
    exact List.mem_flatMap.mpr ⟨op, hop, hsub op hop hname⟩
  · rw [← hproduced] at hlabel
    rw [huses, List.mem_append]
    exact hspent name hlabel
  · rw [hcount]
    exact overused_iff (hlabels.nodup_iff.mp hend.produced) hsub

/-- Two nodes, the second of which reads the label that becomes the main video. -/
def echo : Fragment :=
  { nodes := [⟨[.main .video], .wording "hflip", ["o"]⟩, ⟨[.label "o"], .wording "nullsink", []⟩]
    video? := some "o" }

theorem finalize_uses_echo :
    ∃ m m' merged nodes,
      ({} : Merger).run [.chains [.wording "negate"] [], .fragment "s2" echo] = .ok m ∧
        m.finalize true = .ok (m', merged) ∧ merged.graphMode = true ∧
        merged.clause = .graph nodes ∧ (nodes.flatMap (·.outputs)).Nodup ∧
        1 < (merged.uses nodes).count "s2_o" := by
  obtain ⟨m, m', merged, hrun, hend, hgraph⟩ : ∃ m m' merged,
      ({} : Merger).run [.chains [.wording "negate"] [], .fragment "s2" echo] = .ok m ∧
        m.finalize true = .ok (m', merged) ∧ merged.graphMode = true := ⟨_, _, _, rfl, rfl, rfl⟩
  obtain ⟨nodes, hclause, hnodup, -, -, htwice⟩ := finalize_uses hrun hend hgraph
  exact ⟨m, m', merged, nodes, hrun, hend, hgraph, hclause, hnodup, (htwice "s2_o").mpr
    ⟨"s2", echo, "o", .tail _ (.head _), List.cons_ne_nil _ _, by decide, rfl⟩⟩

def twofold : Fragment :=
  { nodes := [⟨[.main .video, .main .audio], .wording "concat", ["o"]⟩]
    video? := some "o"
    audio? := some "o" }

/-- Both final streams are then the same label, and no fault is raised. -/
theorem not_used_once :
    ∃ m m' merged nodes, ({} : Merger).run [.fragment "s1" twofold] = .ok m ∧
      m.finalize true = .ok (m', merged) ∧ merged.clause = .graph nodes ∧
      "s1_o" ∈ nodes.flatMap (·.outputs) ∧ (merged.uses nodes).count "s1_o" ≠ 1 ∧
      merged.video = merged.audio :=
  ⟨_, _, _, _, rfl, rfl, rfl, .head _, by decide, rfl⟩

end Merger

end SkillPipeline
