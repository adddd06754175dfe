import SkillPipeline.Proofs.Graph.Linking

namespace SkillPipeline.Merger

open Outcome

variable {m m' : Merger}

theorem opened_eq_ok : m.opened = .ok m' ↔ m.mode ≠ .finalized ∧ m' = m := by
  rw [opened]
  by_cases h : m.mode = .finalized
  · simp [broken, h]
  · simp [h, eq_comm]

def kept (filters : List FilterText) : List FilterText := filters.filter fun f => !f.isEmpty

def chained (m : Merger) (video audio : List FilterText) : Merger :=
  { m with
    mode := if m.mode = .accumulating ∧ (kept video ≠ [] ∨ kept audio ≠ []) then .chain else m.mode
    video := { m.video with pending := m.video.pending ++ kept video }
    audio := { m.audio with pending := m.audio.pending ++ kept audio } }

theorem addChains_eq_ok {video audio : List FilterText} :
    m.addChains video audio = .ok m' ↔ m.mode ≠ .finalized ∧ m' = m.chained video audio := by
  have hrest : (if (kept video).isEmpty && (kept audio).isEmpty then m else
      { m with
        mode := if m.mode = .accumulating then .chain else m.mode
        video := { m.video with pending := m.video.pending ++ kept video }
        audio := { m.audio with pending := m.audio.pending ++ kept audio } }) =
        m.chained video audio := by
    by_cases hv : kept video = [] <;> by_cases ha : kept audio = [] <;> simp [chained, hv, ha]
  rw [addChains, bind_eq_ok, ← hrest]
  constructor
  · rintro ⟨u, hu, h⟩
    obtain ⟨hmode, rfl⟩ := opened_eq_ok.mp hu
    exact ⟨hmode, (pure_eq_ok.mp ((apply_ite pure ..).trans h)).symm⟩
  · rintro ⟨hmode, rfl⟩
    exact ⟨m, opened_eq_ok.mpr ⟨hmode, rfl⟩, (apply_ite pure ..).symm⟩

@[simp] theorem chained_single (video audio : List FilterText) :
    (m.chained video audio).Single ↔ m.Single :=
  ⟨fun h => ⟨h.produced, h.consumed⟩, fun h => ⟨h.produced, h.consumed⟩⟩

theorem folded_pending (medium : Medium) : ((m.folded medium).channel medium).pending = [] := by
  rw [folded]
  split
  · next hp => exact List.isEmpty_iff.mp hp
  · rw [foldedOnto, setChannel_channel, if_pos rfl]

theorem folded_channel_of_ne {medium other : Medium} (h : other ≠ medium) :
    (m.folded medium).channel other = m.channel other := by
  rw [folded]
  split
  · rfl
  · rw [foldedOnto, setChannel_channel, if_neg h, link_channel]

theorem foldedFor_pending (f : Fragment) (medium : Medium) :
    ((m.foldedFor f medium).channel medium).pending =
      if f.reads medium || f.replaces medium then [] else (m.channel medium).pending := by
  rw [foldedFor]
  split
  · exact folded_pending medium
  · rfl

theorem foldedFor_channel_of_ne {f : Fragment} {medium other : Medium} (h : other ≠ medium) :
    (m.foldedFor f medium).channel other = m.channel other := by
  rw [foldedFor]
  split
  · exact folded_channel_of_ne h
  · rfl

/-- Where a fragment reads or replaces a medium, no filter waits when its nodes are linked. -/
theorem entered_pending (f : Fragment) (medium : Medium) :
    ((m.entered f).channel medium).pending =
      if f.reads medium || f.replaces medium then [] else (m.channel medium).pending := by
  cases medium with
  | video =>
    rw [entered, foldedFor_channel_of_ne (by decide), foldedFor_pending]
    rfl
  | audio =>
    rw [entered, foldedFor_pending, foldedFor_channel_of_ne (by decide)]
    rfl

theorem rerouted_pending {step : String} {f : Fragment} {medium : Medium} (other : Medium) :
    ((m.rerouted step f medium).channel other).pending = (m.channel other).pending := by
  rw [rerouted]
  split
  · rw [setMain_channel]
    split
    · next hother => rw [hother]; split <;> simp [sunk]
    · split <;> simp [sunk]
  · rfl

theorem folded_main (medium : Medium) : ((m.folded medium).channel medium).main =
    if (m.channel medium).pending = [] then (m.channel medium).main
    else .label (foldName medium (m.channel medium).folds) := by
  unfold folded
  split
  · next hempty => rw [if_pos (List.isEmpty_iff.mp hempty)]
  · next hwaiting =>
    rw [foldedOnto, setChannel_channel, if_pos rfl, if_neg (mt List.isEmpty_iff.mpr hwaiting)]

theorem foldedFor_main (f : Fragment) (medium : Medium) :
    ((m.foldedFor f medium).channel medium).main =
      if (f.reads medium || f.replaces medium) = true ∧ (m.channel medium).pending ≠ [] then
        .label (foldName medium (m.channel medium).folds)
      else (m.channel medium).main := by
  unfold foldedFor
  split
  · next htouched =>
    rw [folded_main]
    by_cases hempty : (m.channel medium).pending = [] <;> simp [hempty, htouched]
  · next huntouched => simp [huntouched]

theorem entered_main (f : Fragment) (medium : Medium) : ((m.entered f).channel medium).main =
    if (f.reads medium || f.replaces medium) = true ∧ (m.channel medium).pending ≠ [] then
      .label (foldName medium (m.channel medium).folds)
    else (m.channel medium).main := by
  cases medium with
  | video =>
    rw [entered, foldedFor_channel_of_ne (by decide), foldedFor_main]
    rfl
  | audio =>
    rw [entered, foldedFor_main, foldedFor_channel_of_ne (by decide)]
    rfl

theorem rerouted_main {step : String} {f : Fragment} (medium other : Medium) :
    ((m.rerouted step f medium).channel other).main =
      if other = medium then
        ((f.output? medium).map fun out => .label (qualified step out)).getD
          (m.channel other).main
      else (m.channel other).main := by
  unfold rerouted
  cases f.output? medium with
  | none => simp
  | some out =>
    rw [setMain_channel]
    split
    · rfl
    · split
      · rfl
      · rw [sunk, link_channel]

@[simp] theorem folded_mode (medium : Medium) : (m.folded medium).mode = m.mode := by
  rw [folded]
  split
  · rfl
  · rw [foldedOnto, setChannel_mode, link_mode]

@[simp] theorem foldedFor_mode (f : Fragment) (medium : Medium) :
    (m.foldedFor f medium).mode = m.mode := by
  rw [foldedFor]
  split
  · exact folded_mode medium
  · rfl

@[simp] theorem rerouted_mode (step : String) (f : Fragment) (medium : Medium) :
    (m.rerouted step f medium).mode = m.mode := by
  rw [rerouted]
  split
  · split <;> simp [sunk]
  · rfl

def extended (m : Merger) (step : String) (f : Fragment) : Merger :=
  ((m.joined step f).rerouted step f .video).rerouted step f .audio

theorem extended_mode (step : String) (f : Fragment) : (m.extended step f).mode = .graph := by
  simp [extended, joined, entered]

theorem extended_pending (step : String) (f : Fragment) (medium : Medium) :
    ((m.extended step f).channel medium).pending =
      if f.reads medium || f.replaces medium then [] else (m.channel medium).pending := by
  rw [extended, rerouted_pending, rerouted_pending, joined, link_channel, entered_pending]

/-- A fragment leaves the main stream that it has an output for, and otherwise the one that its
nodes have found. -/
theorem extended_main_eq (step : String) (f : Fragment) (medium : Medium) :
    ((m.extended step f).channel medium).main =
      ((f.output? medium).map fun out => .label (qualified step out)).getD
        ((m.entered f).channel medium).main := by
  rw [extended, rerouted_main, rerouted_main, joined, link_channel]
  cases medium <;> simp

theorem firstRepeated_eq_none {seen l : List String} :
    firstRepeated seen l = none ↔ l.Nodup ∧ ∀ x ∈ l, x ∉ seen := by
  induction l generalizing seen with
  | nil => simp [firstRepeated]
  | cons x rest ih =>
    rw [firstRepeated]
    by_cases hx : x ∈ seen
    · simp [hx]
    · simp only [List.contains_eq_mem, hx, decide_false, Bool.false_eq_true, ↓reduceIte, ih,
        List.mem_cons, not_or, List.nodup_cons, forall_eq_or_imp, not_false_eq_true, true_and]
      grind

theorem foldMedia_eq_ok {f : Fragment} (h : m.Single) :
    Medium.all.foldlM (foldIfTouched f) { m with mode := .graph } = .ok m' ↔
      (m.entered f).Single ∧ m' = m.entered f := by
  have hgraph : ({ m with mode := .graph } : Merger).Single := ⟨h.produced, h.consumed⟩
  rw [Medium.all, foldlM_cons_eq_ok]
  simp only [foldlM_cons_eq_ok, List.foldlM_nil, pure_eq_ok]
  constructor
  · rintro ⟨u, hu, v, hv, rfl⟩
    obtain ⟨hs, rfl⟩ := (foldIfTouched_eq_ok hgraph).mp hu
    exact (foldIfTouched_eq_ok hs).mp hv
  · rintro ⟨hs, rfl⟩
    exact ⟨_, (foldIfTouched_eq_ok hgraph).mpr ⟨hs.of_foldedFor, rfl⟩, _,
      (foldIfTouched_eq_ok hs.of_foldedFor).mpr ⟨hs, rfl⟩, rfl⟩

theorem replaceMedia_eq_ok {step : String} {f : Fragment} (h : m.Single) :
    Medium.all.foldlM (fun m medium => m.replaceMain step f medium) m = .ok m' ↔
      (m.Settles f .video ∧ (m.rerouted step f .video).Settles f .audio) ∧
        ((m.rerouted step f .video).rerouted step f .audio).Single ∧
          m' = (m.rerouted step f .video).rerouted step f .audio := by
  simp only [Medium.all, foldlM_cons_eq_ok, List.foldlM_nil, pure_eq_ok]
  constructor
  · rintro ⟨u, hu, v, hv, rfl⟩
    obtain ⟨hvideo, hs, rfl⟩ := (replaceMain_eq_ok h).mp hu
    obtain ⟨haudio, hs, rfl⟩ := (replaceMain_eq_ok hs).mp hv
    exact ⟨⟨hvideo, haudio⟩, hs, rfl⟩
  · rintro ⟨⟨hvideo, haudio⟩, hs, rfl⟩
    exact ⟨_, (replaceMain_eq_ok h).mpr ⟨hvideo, hs.of_rerouted, rfl⟩, _,
      (replaceMain_eq_ok hs.of_rerouted).mpr ⟨haudio, hs, rfl⟩, rfl⟩

theorem addFragment_empty {step : String} {f : Fragment} (hf : f.nodes = []) :
    m.addFragment step f = .ok m' ↔ m.mode ≠ .finalized ∧ m' = m := by
  simp only [addFragment, hf, List.isEmpty_nil, ↓reduceIte, bind_eq_ok, pure_eq_ok]
  constructor
  · rintro ⟨u, hu, rfl⟩
    exact opened_eq_ok.mp hu
  · rintro ⟨hmode, rfl⟩
    exact ⟨m', opened_eq_ok.mpr ⟨hmode, rfl⟩, rfl⟩

/-- What a fragment has to declare for its nodes and outputs to be linked to a merger. -/
structure Admits (m : Merger) (step : String) (f : Fragment) : Prop where
  outputs_nodup : f.outputs.Nodup
  reads_declared : ∀ node ∈ f.nodes, ∀ name ∈ node.reads, name ∈ f.outputs
  video_settles : (m.joined step f).Settles f .video
  audio_settles : ((m.joined step f).rerouted step f .video).Settles f .audio

theorem addFragment_eq_ok {step : String} {f : Fragment} (h : m.Single) (hf : f.nodes ≠ []) :
    m.addFragment step f = .ok m' ↔
      m.mode ≠ .finalized ∧ m.Admits step f ∧ (m.extended step f).Single ∧
        m' = m.extended step f := by
  -- Each part of the addition has its equation; labels that are single in the end were so before.
  have hne : f.nodes.isEmpty = false := by simpa using hf
  simp only [addFragment, hne, Bool.false_eq_true, ↓reduceIte, bind_eq_ok]
  constructor
  · rintro ⟨u, hu, v, hv, hrest⟩
    obtain ⟨hmode, rfl⟩ := opened_eq_ok.mp hu
    obtain ⟨hs, rfl⟩ := (foldMedia_eq_ok h).mp hv
    cases hr : firstRepeated [] f.outputs with
    | some label => simp [hr, broken] at hrest
    | none =>
      simp only [hr, bind_eq_ok] at hrest
      obtain ⟨w, hw, hrest⟩ := hrest
      obtain ⟨hdeclared, hs, rfl⟩ := (addNodes_eq_ok hs).mp hw
      obtain ⟨⟨hvideo, haudio⟩, hs, rfl⟩ := (replaceMedia_eq_ok hs).mp hrest
      exact ⟨hmode, ⟨(firstRepeated_eq_none.mp hr).1, hdeclared, hvideo, haudio⟩, hs, rfl⟩
  · rintro ⟨hmode, hadmits, hs, rfl⟩
    have hjoined : (m.joined step f).Single := hs.of_rerouted.of_rerouted
    have hr : firstRepeated [] f.outputs = none :=
      firstRepeated_eq_none.mpr ⟨hadmits.outputs_nodup, by simp⟩
    refine ⟨m, opened_eq_ok.mpr ⟨hmode, rfl⟩, _,
      (foldMedia_eq_ok h).mpr ⟨hjoined.of_link, rfl⟩, ?_⟩
    simp only [hr, bind_eq_ok]
    exact ⟨_, (addNodes_eq_ok hjoined.of_link).mpr ⟨hadmits.reads_declared, hjoined, rfl⟩,
      (replaceMedia_eq_ok hjoined).mpr ⟨⟨hadmits.video_settles, hadmits.audio_settles⟩, hs, rfl⟩⟩

def restarted (m : Merger) (index : Nat) : Merger :=
  (m.setMain .audio (.stream index .audio)).sunk .audio m.audio.main

@[simp] theorem restarted_mode (index : Nat) : (m.restarted index).mode = m.mode := by
  simp [restarted, sunk]

theorem replaceAudioSource_eq_ok {index : Nat} {answer : Bool} (h : m.Single) :
    m.replaceAudioSource index = .ok (m', answer) ↔
      m.mode ≠ .finalized ∧ (m.restarted index).Single ∧ m' = m.restarted index ∧
        answer = m.audio.main.label?.isNone := by
  have hmain : (m.setMain .audio (.stream index .audio)).Single := (setMain_single ..).mpr h
  simp only [replaceAudioSource, bind_eq_ok, pure_eq_ok, Prod.mk.injEq]
  constructor
  · rintro ⟨u, hu, v, hv, rfl, rfl⟩
    obtain ⟨hmode, rfl⟩ := opened_eq_ok.mp hu
    obtain ⟨hs, rfl⟩ := (sink_eq_ok hmain).mp hv
    exact ⟨hmode, hs, rfl, rfl⟩
  · rintro ⟨hmode, hs, rfl, rfl⟩
    exact ⟨m, opened_eq_ok.mpr ⟨hmode, rfl⟩, _, (sink_eq_ok hmain).mpr ⟨hs, rfl⟩, rfl, rfl⟩

/-- The merger without the audio filters that wait, unless the audio is kept. -/
def muted (m : Merger) (keepAudio : Bool) : Merger :=
  if keepAudio then m else { m with audio := { m.audio with pending := [] } }

/-- Ends the audio, unless it is kept or still that of an input. -/
def endAudio (m : Merger) (keepAudio : Bool) : Except Fault Merger :=
  if keepAudio then .ok m else do
    let ended ← m.sink .audio m.audio.main
    .ok (if m.audio.main.label?.isSome then ended.setMain .audio (.stream 0 .audio) else ended)

/-- The merger, if each of its labels has a successor. -/
def spentOnly (m : Merger) : Except Fault Merger :=
  match m.produced.find? fun name => !m.consumed.contains name && !m.finals.contains name with
  | some name => broken (.neverConsumed name)
  | none => .ok m

theorem finalizeGraph_eq (keepAudio : Bool) :
    m.finalizeGraph keepAudio = (do
      let m ← m.fold .video
      let m ← m.fold .audio
      let m ← m.endAudio keepAudio
      m.spentOnly) := by
  cases keepAudio with
  | true => rfl
  | false =>
    simp only [finalizeGraph, endAudio, Bool.false_eq_true, ↓reduceIte, bind_assoc]
    rfl

/-- The merger brought to its end, which takes work in graph mode only. -/
def finish (m : Merger) (keepAudio : Bool) : Except Fault Merger :=
  if m.mode = .graph then (m.muted keepAudio).finalizeGraph keepAudio else .ok (m.muted keepAudio)

theorem finalize_eq (keepAudio : Bool) :
    m.finalize keepAudio = (do
      let m ← m.opened
      let u ← m.finish keepAudio
      .ok ({ u with mode := .finalized },
          { clause := if m.mode = .graph then .graph u.nodes else u.chainClause
            graphMode := m.mode == .graph
            video := u.video.main
            audio := u.audio.main })) := by
  rw [finalize]
  congr 1
  funext m
  obtain ⟨mode⟩ := m
  cases mode <;> cases keepAudio <;> rfl

def drained (m : Merger) : Merger := (m.folded .video).folded .audio

theorem drained_pending (medium : Medium) : (m.drained.channel medium).pending = [] := by
  cases medium with
  | video => rw [drained, folded_channel_of_ne (by decide), folded_pending]
  | audio => rw [drained, folded_pending]

/-- The merger with its audio ended, unless the audio is kept or still that of an input. -/
def silenced (m : Merger) (keepAudio : Bool) : Merger :=
  if keepAudio then m
  else if m.audio.main.label?.isSome then
    (m.sunk .audio m.audio.main).setMain .audio (.stream 0 .audio)
  else m

theorem Single.of_silenced {keepAudio : Bool} (h : (m.silenced keepAudio).Single) : m.Single := by
  rw [silenced] at h
  split at h
  · exact h
  · split at h
    · exact ((setMain_single ..).mp h).of_link
    · exact h

theorem endAudio_eq_ok {keepAudio : Bool} (h : m.Single) :
    m.endAudio keepAudio = .ok m' ↔
      (m.silenced keepAudio).Single ∧ m' = m.silenced keepAudio := by
  cases keepAudio with
  | true => simp [endAudio, silenced, h, eq_comm]
  | false =>
    simp only [endAudio, Bool.false_eq_true, ↓reduceIte, bind_eq_ok, Except.ok.injEq, silenced]
    cases hmain : m.audio.main with
    | stream index medium => simp [sink, StreamRef.label?, h, eq_comm]
    | label name =>
      simp only [StreamRef.label?, Option.isSome_some, ↓reduceIte, setMain_single]
      constructor
      · rintro ⟨u, hu, rfl⟩
        obtain ⟨hs, rfl⟩ := (sink_eq_ok h).mp hu
        exact ⟨hs, rfl⟩
      · rintro ⟨hs, rfl⟩
        exact ⟨_, (sink_eq_ok h).mpr ⟨hs, rfl⟩, rfl⟩

/-- Each label that is produced is consumed or a final stream. -/
def Spent (m : Merger) : Prop := ∀ name ∈ m.produced, name ∈ m.consumed ∨ name ∈ m.finals

theorem spentOnly_eq_ok : m.spentOnly = .ok m' ↔ m.Spent ∧ m' = m := by
  have hiff : (m.produced.find? fun name =>
      !m.consumed.contains name && !m.finals.contains name) = none ↔ m.Spent := by
    rw [List.find?_eq_none]
    refine forall₂_congr fun name _ => ?_
    simp only [List.contains_eq_mem, Bool.and_eq_true, Bool.not_eq_true', decide_eq_false_iff_not]
    grind
  rw [spentOnly, ← hiff]
  cases hfind : m.produced.find? fun name =>
      !m.consumed.contains name && !m.finals.contains name with
  | some name => simp [broken]
  | none => simp [eq_comm]

theorem finalizeGraph_eq_ok {keepAudio : Bool} (h : m.Single) :
    m.finalizeGraph keepAudio = .ok m' ↔
      (m.drained.silenced keepAudio).Single ∧ (m.drained.silenced keepAudio).Spent ∧
        m' = m.drained.silenced keepAudio := by
  simp only [finalizeGraph_eq, bind_eq_ok]
  constructor
  · rintro ⟨u, hu, v, hv, w, hw, hspent⟩
    obtain ⟨hs, rfl⟩ := (fold_eq_ok h).mp hu
    obtain ⟨hs, rfl⟩ := (fold_eq_ok hs).mp hv
    obtain ⟨hs, rfl⟩ := (endAudio_eq_ok hs).mp hw
    exact ⟨hs, spentOnly_eq_ok.mp hspent⟩
  · rintro ⟨hs, hspent⟩
    have hdrained : m.drained.Single := hs.of_silenced
    exact ⟨_, (fold_eq_ok h).mpr ⟨hdrained.of_folded, rfl⟩, _,
      (fold_eq_ok hdrained.of_folded).mpr ⟨hdrained, rfl⟩, _,
      (endAudio_eq_ok hdrained).mpr ⟨hs, rfl⟩, spentOnly_eq_ok.mpr hspent⟩

def ended (m : Merger) (keepAudio : Bool) : Merger :=
  if m.mode = .graph then (m.muted keepAudio).drained.silenced keepAudio else m.muted keepAudio

def result (m : Merger) (keepAudio : Bool) : Merged :=
  { clause := if m.mode = .graph then .graph (m.ended keepAudio).nodes
      else (m.ended keepAudio).chainClause
    graphMode := m.mode == .graph
    video := (m.ended keepAudio).video.main
    audio := (m.ended keepAudio).audio.main }

@[simp] theorem muted_single (keepAudio : Bool) : (m.muted keepAudio).Single ↔ m.Single := by
  rw [muted]
  split
  · exact Iff.rfl
  · exact ⟨fun h => ⟨h.produced, h.consumed⟩, fun h => ⟨h.produced, h.consumed⟩⟩

theorem finish_eq_ok {keepAudio : Bool} (h : m.Single) :
    m.finish keepAudio = .ok m' ↔
      (m.mode = .graph → (m.ended keepAudio).Single ∧ (m.ended keepAudio).Spent) ∧
        m' = m.ended keepAudio := by
  rw [finish, ended]
  split
  · next hgraph =>
    rw [finalizeGraph_eq_ok ((muted_single keepAudio).mpr h)]
    simp [hgraph, and_assoc]
  · next hgraph => simp [hgraph, eq_comm]

theorem finalize_eq_ok {keepAudio : Bool} {merged : Merged} (h : m.Single) :
    m.finalize keepAudio = .ok (m', merged) ↔
      m.mode ≠ .finalized ∧
        (m.mode = .graph → (m.ended keepAudio).Single ∧ (m.ended keepAudio).Spent) ∧
          m' = { m.ended keepAudio with mode := .finalized } ∧ merged = m.result keepAudio := by
  simp only [finalize_eq, bind_eq_ok, Except.ok.injEq, Prod.mk.injEq]
  constructor
  · rintro ⟨u, hu, v, hv, rfl, rfl⟩
    obtain ⟨hmode, rfl⟩ := opened_eq_ok.mp hu
    obtain ⟨hgraph, rfl⟩ := (finish_eq_ok h).mp hv
    exact ⟨hmode, hgraph, rfl, rfl⟩
  · rintro ⟨hmode, hgraph, rfl, rfl⟩
    exact ⟨m, opened_eq_ok.mpr ⟨hmode, rfl⟩, _, (finish_eq_ok h).mpr ⟨hgraph, rfl⟩, rfl, rfl⟩

def Op.Open : Op → Prop
  | .finalize _ => False
  | _ => True

/-- What an operation that does not end the merger makes of it. -/
inductive Step (m : Merger) : Op → Merger → Prop
  | chains (video audio : List FilterText) : Step m (.chains video audio) (m.chained video audio)
  | nothing {step : String} {f : Fragment} (empty : f.nodes = []) : Step m (.fragment step f) m
  | fragment {step : String} {f : Fragment} (nonempty : f.nodes ≠ []) (admits : m.Admits step f)
      (single : (m.extended step f).Single) : Step m (.fragment step f) (m.extended step f)
  | replaceAudio {index : Nat} (single : (m.restarted index).Single) :
      Step m (.replaceAudio index) (m.restarted index)

theorem Step.single {op : Op} (h : m.Single) (hstep : m.Step op m') : m'.Single := by
  cases hstep with
  | chains video audio => exact (chained_single ..).mpr h
  | nothing empty => exact h
  | fragment nonempty admits single => exact single
  | replaceAudio single => exact single

theorem apply_chains {video audio : List FilterText} :
    (m.apply (.chains video audio)).map (·.1) = m.addChains video audio := by
  rw [apply]
  cases m.addChains video audio <;> rfl

theorem apply_fragment {step : String} {f : Fragment} :
    (m.apply (.fragment step f)).map (·.1) = m.addFragment step f := by
  rw [apply]
  cases m.addFragment step f <;> rfl

theorem apply_replaceAudio {index : Nat} :
    (m.apply (.replaceAudio index)).map (·.1) = (m.replaceAudioSource index).map (·.1) := by
  rw [apply]
  cases m.replaceAudioSource index <;> rfl

theorem apply_eq_ok {op : Op} (h : m.Single) (hop : op.Open) :
    (m.apply op).map (·.1) = .ok m' ↔ m.mode ≠ .finalized ∧ m.Step op m' := by
  cases op with
  | finalize keepAudio => exact hop.elim
  | chains video audio =>
    rw [apply_chains, addChains_eq_ok]
    constructor
    · rintro ⟨hmode, rfl⟩
      exact ⟨hmode, .chains video audio⟩
    · rintro ⟨hmode, hstep⟩
      cases hstep
      exact ⟨hmode, rfl⟩
  | fragment step f =>
    rw [apply_fragment]
    -- A fragment without nodes asks nothing of the merger but that it is open.
    by_cases hf : f.nodes = []
    · rw [addFragment_empty hf]
      constructor
      · rintro ⟨hmode, rfl⟩
        exact ⟨hmode, .nothing hf⟩
      · rintro ⟨hmode, hstep⟩
        cases hstep with
        | nothing empty => exact ⟨hmode, rfl⟩
        | fragment nonempty admits single => exact absurd hf nonempty
    · rw [addFragment_eq_ok h hf]
      constructor
      · rintro ⟨hmode, hadmits, hs, rfl⟩
        exact ⟨hmode, .fragment hf hadmits hs⟩
      · rintro ⟨hmode, hstep⟩
        cases hstep with
        | nothing empty => exact absurd empty hf
        | fragment nonempty admits single => exact ⟨hmode, admits, single, rfl⟩
  | replaceAudio index =>
    rw [apply_replaceAudio, map_eq_ok]
    constructor
    · rintro ⟨⟨u, answer⟩, hu, rfl⟩
      obtain ⟨hmode, hs, rfl, -⟩ := (replaceAudioSource_eq_ok h).mp hu
      exact ⟨hmode, .replaceAudio hs⟩
    · rintro ⟨hmode, hstep⟩
      cases hstep with
      | replaceAudio single =>
        exact ⟨_, (replaceAudioSource_eq_ok h).mpr ⟨hmode, single, rfl, rfl⟩, rfl⟩

/-- The merger after a sequence of operations, whatever they answer. -/
def run (m : Merger) (ops : List Op) : Except Fault Merger :=
  ops.foldlM (fun m op => (m.apply op).map (·.1)) m

theorem run_cons_eq_ok {op : Op} {ops : List Op} :
    m.run (op :: ops) = .ok m' ↔ ∃ u, (m.apply op).map (·.1) = .ok u ∧ u.run ops = .ok m' :=
  foldlM_cons_eq_ok

end SkillPipeline.Merger
