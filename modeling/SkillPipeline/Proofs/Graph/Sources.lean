import SkillPipeline.Proofs.Graph.Closure

namespace SkillPipeline

open Merger

def primaryAudio : StreamRef := .stream 0 .audio

/-- A graph draws on a stream if one of its nodes reads it. -/
def Draws (nodes : List LinkedNode) (ref : StreamRef) : Prop := ∃ node ∈ nodes, ref ∈ node.inputs

instance (nodes : List LinkedNode) (ref : StreamRef) : Decidable (Draws nodes ref) :=
  inferInstanceAs (Decidable (∃ node ∈ nodes, ref ∈ node.inputs))

theorem draws_append {first second : List LinkedNode} {ref : StreamRef} :
    Draws (first ++ second) ref ↔ Draws first ref ∨ Draws second ref := by
  simp only [Draws, List.mem_append, or_and_right, exists_or]

theorem not_draws_nil {ref : StreamRef} : ¬Draws [] ref :=
  fun hdraws => List.not_mem_nil hdraws.choose_spec.1

theorem not_draws_sinks (medium : Medium) (ref : StreamRef) :
    ¬Draws (sinks medium ref) primaryAudio := by
  cases ref with
  | stream index other => exact not_draws_nil
  | label name => simp [Draws, sinks, primaryAudio]

inductive AudioTurn where
  | joined
  | replaced
  deriving DecidableEq

namespace Merger

variable {m m' : Merger} {step : String} {f : Fragment}

def Op.audioTurn? : Op → Option AudioTurn
  | .fragment _ f => if f.reads .audio then some .joined else none
  | .replaceAudio _ => some .replaced
  | _ => none

/-- The first thing that is done with the main audio, if anything is. -/
def firstTurn? (ops : List Op) : Option AudioTurn := ops.findSome? Op.audioTurn?

/-- An operation that comes by the audio of the first input only as the main audio, and replaces
the main audio if it reads it. -/
def Op.Indirect : Op → Prop
  | .fragment _ f =>
    f.nodes ≠ [] → f.replaces .audio = f.reads .audio ∧ .input 0 .audio ∉ f.pads
  | .replaceAudio index => index ≠ 0
  | _ => True

theorem folded_main_eq_primaryAudio (medium : Medium) :
    ((m.folded medium).channel medium).main = primaryAudio ↔
      (m.channel medium).pending = [] ∧ (m.channel medium).main = primaryAudio := by
  rw [folded_main]
  split
  · next hpending => exact (and_iff_right hpending).symm
  · next hpending => exact iff_of_false (by simp [primaryAudio]) fun h => hpending h.1

theorem draws_folded (medium : Medium) :
    Draws (m.folded medium).nodes primaryAudio ↔ Draws m.nodes primaryAudio ∨
      (m.channel medium).pending ≠ [] ∧ (m.channel medium).main = primaryAudio := by
  rw [folded]
  split
  · next hpending => simp [List.isEmpty_iff.mp hpending]
  · next hpending =>
    have hne : (m.channel medium).pending ≠ [] := fun h => hpending (List.isEmpty_iff.mpr h)
    rw [foldedOnto, setChannel_nodes, link_nodes, draws_append, and_iff_right hne]
    simp [Draws, foldNode, eq_comm]

theorem draws_foldedFor (medium : Medium) :
    Draws (m.foldedFor f medium).nodes primaryAudio ↔ Draws m.nodes primaryAudio ∨
      (f.reads medium || f.replaces medium) = true ∧ (m.channel medium).pending ≠ [] ∧
        (m.channel medium).main = primaryAudio := by
  rw [foldedFor]
  split
  · next h => rw [draws_folded, and_iff_right h]
  · next h => simp [h]

theorem draws_linked {ref : StreamRef} : Draws (f.nodes.map (m.linkedNode step)) ref ↔
    ∃ pad ∈ f.pads, m.linkedPad step pad = ref := by
  constructor
  · rintro ⟨_, hnode, href⟩
    obtain ⟨node, hfrom, rfl⟩ := List.mem_map.mp hnode
    obtain ⟨pad, hpad, rfl⟩ := List.mem_map.mp href
    exact ⟨pad, List.mem_flatMap.mpr ⟨node, hfrom, hpad⟩, rfl⟩
  · rintro ⟨pad, hpad, rfl⟩
    obtain ⟨node, hnode, hpad⟩ := List.mem_flatMap.mp hpad
    exact ⟨_, List.mem_map_of_mem hnode, List.mem_map_of_mem hpad⟩

theorem draws_linked_primaryAudio (hnamed : .input 0 .audio ∉ f.pads)
    (hvideo : m.video.main ≠ primaryAudio) :
    Draws (f.nodes.map (m.linkedNode step)) primaryAudio ↔
      f.reads .audio = true ∧ m.audio.main = primaryAudio := by
  have hpad {pad : Pad} (hmem : pad ∈ f.pads) :
      m.linkedPad step pad = primaryAudio ↔ pad = .main .audio ∧ m.audio.main = primaryAudio := by
    cases pad with
    | main medium =>
      cases medium with
      | video => exact iff_of_false hvideo (by simp)
      | audio => exact (and_iff_right rfl).symm
    | input index medium =>
      refine iff_of_false (fun h => hnamed ?_) (by simp)
      obtain ⟨rfl, rfl⟩ : index = 0 ∧ medium = .audio := by simpa [linkedPad, primaryAudio] using h
      exact hmem
    | label name => simp [linkedPad, primaryAudio]
  have hreads : f.reads .audio = true ↔ .main .audio ∈ f.pads := by
    simp [Fragment.reads, Fragment.pads]
  rw [hreads, draws_linked]
  constructor
  · rintro ⟨pad, hmem, heq⟩
    obtain ⟨rfl, hmain⟩ := (hpad hmem).mp heq
    exact ⟨hmem, hmain⟩
  · rintro ⟨hmem, hmain⟩
    exact ⟨_, hmem, (hpad hmem).mpr ⟨rfl, hmain⟩⟩

/-- The nodes of a fragment find the first input's audio where no filter that waits comes before
them. -/
theorem entered_main_eq_primaryAudio (f : Fragment) (medium : Medium) :
    ((m.entered f).channel medium).main = primaryAudio ↔
      (f.reads medium || f.replaces medium → (m.channel medium).pending = []) ∧
        (m.channel medium).main = primaryAudio := by
  rw [entered_main]
  split
  · next h => exact iff_of_false (by simp [primaryAudio]) fun hmain => h.2 (hmain.1 h.1)
  · next h =>
    exact (and_iff_right fun htouched => not_not.mp fun hwaits => h ⟨htouched, hwaits⟩).symm

theorem extended_main_eq_primaryAudio (medium : Medium) :
    ((m.extended step f).channel medium).main = primaryAudio ↔
      f.replaces medium = false ∧ ((m.entered f).channel medium).main = primaryAudio := by
  rw [extended_main_eq, Fragment.replaces]
  cases f.output? medium <;> simp [primaryAudio]

theorem draws_rerouted (medium : Medium) :
    Draws (m.rerouted step f medium).nodes primaryAudio ↔ Draws m.nodes primaryAudio := by
  rw [rerouted]
  split
  · rw [setMain_nodes]
    split
    · exact Iff.rfl
    · rw [sunk, link_nodes, draws_append]
      exact or_iff_left (not_draws_sinks medium _)
  · exact Iff.rfl

/-- What a fragment makes of the first input's audio: it stays the main audio unless the fragment
reads that, and then a node reads it. -/
theorem extended_primaryAudio (step : String) (hturn : f.replaces .audio = f.reads .audio)
    (hnamed : .input 0 .audio ∉ f.pads) (hvideo : m.video.main ≠ primaryAudio) :
    (m.extended step f).video.main ≠ primaryAudio ∧
      ((m.extended step f).audio.main = primaryAudio ↔
        f.reads .audio = false ∧ m.audio.main = primaryAudio) ∧
      (Draws (m.extended step f).nodes primaryAudio ↔ Draws m.nodes primaryAudio ∨
        f.reads .audio = true ∧ m.audio.main = primaryAudio) := by
  have htouched : (f.reads .audio || f.replaces .audio) = f.reads .audio := by
    rw [hturn, Bool.or_self]
  have hothers : (Merger.foldedFor { m with mode := .graph } f .video).channel .audio =
      m.channel .audio := foldedFor_channel_of_ne (by decide)
  have hentered : (m.entered f).video.main ≠ primaryAudio :=
    fun h => hvideo ((entered_main_eq_primaryAudio f .video).mp h).2
  have haudio : (m.entered f).audio.main = primaryAudio ↔
      (f.reads .audio = true → m.audio.pending = []) ∧ m.audio.main = primaryAudio := by
    refine (entered_main_eq_primaryAudio f .audio).trans ?_
    rw [htouched]
    rfl
  have hdraws : Draws (m.entered f).nodes primaryAudio ↔ Draws m.nodes primaryAudio ∨
      f.reads .audio = true ∧ m.audio.pending ≠ [] ∧ m.audio.main = primaryAudio := by
    rw [entered, draws_foldedFor, draws_foldedFor, htouched, hothers]
    exact or_congr_left (or_iff_left fun h => hvideo h.2.2)
  refine ⟨fun h => hentered ((extended_main_eq_primaryAudio .video).mp h).2, ?_, ?_⟩
  · refine (extended_main_eq_primaryAudio .audio).trans ?_
    rw [hturn]
    refine and_congr_right fun hreads => haudio.trans (and_iff_right ?_)
    simp [hreads]
  · rw [extended, draws_rerouted, draws_rerouted, joined, link_nodes, draws_append, hdraws,
      draws_linked_primaryAudio hnamed hentered, haudio, or_assoc]
    -- Filters that wait are folded onto the main audio, and otherwise the fragment reads it itself.
    cases f.reads .audio <;> by_cases hpending : m.audio.pending = [] <;> simp [hpending]

/-- What the operations so far have done with the audio of the first input: it is the main audio as
long as nothing is done with that, and the graph draws on it if it was joined first. -/
structure Heard (done : List Op) (m : Merger) : Prop where
  video : m.video.main ≠ primaryAudio
  main : m.audio.main = primaryAudio ↔ firstTurn? done = none
  draws : Draws m.nodes primaryAudio ↔ firstTurn? done = some .joined

theorem heard_start : ({} : Merger).Heard [] where
  video := by simp [primaryAudio]
  main := iff_of_true rfl rfl
  draws := iff_of_false not_draws_nil (by simp [firstTurn?])

theorem Heard.append {done : List Op} {op : Op} (h : m.Heard done)
    (hvideo : m'.video.main ≠ primaryAudio)
    (hmain : m'.audio.main = primaryAudio ↔ op.audioTurn? = none ∧ m.audio.main = primaryAudio)
    (hdraws : Draws m'.nodes primaryAudio ↔ Draws m.nodes primaryAudio ∨
      op.audioTurn? = some .joined ∧ m.audio.main = primaryAudio) : m'.Heard (done ++ [op]) := by
  have hfirst : firstTurn? (done ++ [op]) = (firstTurn? done).or op.audioTurn? := by
    rw [firstTurn?, List.findSome?_append, List.findSome?_singleton, firstTurn?]
  refine ⟨hvideo, ?_, ?_⟩
  · rw [hmain, h.main, hfirst, Option.or_eq_none_iff, and_comm]
  · rw [hdraws, h.draws, h.main, hfirst, Option.or_eq_some_iff, and_comm]

/-- An operation that does nothing with the main audio leaves both as they are. -/
theorem Heard.idle {done : List Op} {op : Op} (h : m.Heard done) (hop : op.audioTurn? = none)
    (hvideo : m'.video.main = m.video.main) (haudio : m'.audio.main = m.audio.main)
    (hnodes : m'.nodes = m.nodes) : m'.Heard (done ++ [op]) :=
  h.append (hvideo ▸ h.video) (by simp [haudio, hop]) (by simp [hnodes, hop])

theorem Step.heard {done : List Op} {op : Op} (hstep : m.Step op m') (hop : op.Indirect)
    (h : m.Heard done) : m'.Heard (done ++ [op]) := by
  cases hstep with
  | chains video audio => exact h.idle rfl rfl rfl rfl
  | nothing empty => exact h.idle (by simp [Op.audioTurn?, Fragment.reads, empty]) rfl rfl rfl
  | @fragment step f nonempty admits single =>
    obtain ⟨hturn, hnamed⟩ := hop nonempty
    obtain ⟨hvideo, hmain, hdraws⟩ := extended_primaryAudio step hturn hnamed h.video
    refine h.append hvideo (hmain.trans ?_) (hdraws.trans ?_)
    · cases hreads : f.reads .audio <;> simp [Op.audioTurn?, hreads]
    · cases hreads : f.reads .audio <;> simp [Op.audioTurn?, hreads]
  | @replaceAudio index single =>
    refine h.append h.video (iff_of_false (fun hmain => hop ?_) ?_) ?_
    · exact (StreamRef.stream.inj hmain).1
    · simp [Op.audioTurn?]
    · rw [restarted, sunk, link_nodes, draws_append, setMain_nodes]
      refine (or_iff_left (not_draws_sinks .audio m.audio.main)).trans (or_iff_left ?_).symm
      simp [Op.audioTurn?]

/-- What operations have done with the audio of the first input, by their whole run. -/
theorem heard_of_run {ops : List Op} (hops : ∀ op ∈ ops, op.Indirect) (hopen : ∀ op ∈ ops, op.Open)
    (hrun : ({} : Merger).run ops = .ok m) : m.Heard ops :=
  (follows_of_run (P := fun done u => u.Heard done) []
    (fun hstep hop hu => hstep.heard hop hu) heard_start ⟨List.nodup_nil, List.nodup_nil⟩ hopen hops
    hrun).1

theorem muted_main (keepAudio : Bool) (medium : Medium) :
    ((m.muted keepAudio).channel medium).main = (m.channel medium).main := by
  rw [muted]
  split
  · rfl
  · cases medium <;> rfl

theorem muted_nodes (keepAudio : Bool) : (m.muted keepAudio).nodes = m.nodes := by
  rw [muted]
  split <;> rfl

theorem draws_drained (hvideo : (m.channel .video).main ≠ primaryAudio)
    (haudio : (m.channel .audio).pending ≠ [] → (m.channel .audio).main ≠ primaryAudio) :
    Draws m.drained.nodes primaryAudio ↔ Draws m.nodes primaryAudio := by
  rw [drained, draws_folded, draws_folded, folded_channel_of_ne (by decide),
    or_iff_left fun h => haudio h.1 h.2]
  exact or_iff_left fun h => hvideo h.2

theorem drained_ne_primaryAudio {medium : Medium} (h : (m.channel medium).main ≠ primaryAudio) :
    (m.drained.channel medium).main ≠ primaryAudio := by
  cases medium with
  | video =>
    rw [drained, folded_channel_of_ne (by decide)]
    exact fun hmain => h ((folded_main_eq_primaryAudio .video).mp hmain).2
  | audio =>
    intro hmain
    obtain ⟨-, hmain⟩ := (folded_main_eq_primaryAudio .audio).mp hmain
    rw [folded_channel_of_ne (by decide)] at hmain
    exact h hmain

theorem draws_silenced (keepAudio : Bool) :
    Draws (m.silenced keepAudio).nodes primaryAudio ↔ Draws m.nodes primaryAudio := by
  rw [silenced]
  split
  · exact Iff.rfl
  · split
    · rw [setMain_nodes, sunk, link_nodes, draws_append]
      exact or_iff_left (not_draws_sinks .audio m.audio.main)
    · exact Iff.rfl

theorem silenced_video (keepAudio : Bool) :
    (m.silenced keepAudio).channel .video = m.channel .video := by
  rw [silenced]
  split
  · rfl
  · split
    · rw [setMain_channel, if_neg (by decide), sunk, link_channel]
    · rfl

/-- The end of a run draws on the audio of the first input only if that is still the main audio, and
kept. -/
theorem draws_ended {keepAudio : Bool} (hvideo : m.video.main ≠ primaryAudio)
    (hkept : keepAudio = true → m.audio.main ≠ primaryAudio) :
    Draws (m.ended keepAudio).nodes primaryAudio ↔ Draws m.nodes primaryAudio := by
  rw [ended]
  split
  · rw [draws_silenced, draws_drained (by rwa [muted_main]), muted_nodes]
    rw [muted_main]
    cases keepAudio with
    | true => exact fun _ => hkept rfl
    | false => exact fun hpending => absurd rfl hpending
  · rw [muted_nodes]

theorem ended_video_ne_primaryAudio (h : m.video.main ≠ primaryAudio) (keepAudio : Bool) :
    (m.ended keepAudio).video.main ≠ primaryAudio := by
  change ((m.ended keepAudio).channel .video).main ≠ primaryAudio
  rw [ended]
  split
  · rw [silenced_video]
    exact drained_ne_primaryAudio (by rwa [muted_main])
  · rwa [muted_main]

theorem ended_audio_ne_primaryAudio (h : m.audio.main ≠ primaryAudio) :
    (m.ended true).audio.main ≠ primaryAudio := by
  change ((m.ended true).channel .audio).main ≠ primaryAudio
  rw [ended]
  split
  · exact drained_ne_primaryAudio (by rwa [muted_main])
  · rwa [muted_main]

end Merger

end SkillPipeline
