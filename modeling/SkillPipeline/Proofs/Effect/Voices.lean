import SkillPipeline.Proofs.Effect.Contract
import SkillPipeline.Proofs.Effect.Spelling
import SkillPipeline.Proofs.Graph.Sources

namespace SkillPipeline

open Outcome

/-- What the handler of a name does with the main audio of an input that has none. -/
def AudioTurn.ofHandler? (name : String) : Option AudioTurn :=
  if name = "replace_audio" then some .replaced
  else if name = "audio_crossfade" ∨ name = "mix_audio" then some .joined
  else none

namespace Contribution

/-- A contribution that leaves the main audio alone, filters aside. -/
structure Mute (c : Contribution) : Prop where
  audioSource : c.audioSource? = none
  fragment : ∀ f, c.graph? = some f → f.audio? = none

def Turns (c : Contribution) : Option AudioTurn → Prop
  | none => c.Mute
  | some .joined => c.audioSource? = none ∧
      ∃ f, c.graph? = some f ∧ f.nodes ≠ [] ∧ f.reads .audio = true
  | some .replaced => c.graph? = none ∧ c.audioSource?.isSome = true

@[simp] theorem turns_none {c : Contribution} : c.Turns none ↔ c.Mute := Iff.rfl

@[simp] theorem turns_replaced {c : Contribution} :
    c.Turns (some .replaced) ↔ c.graph? = none ∧ c.audioSource?.isSome = true := Iff.rfl

theorem Plain.mute {c : Contribution} (h : c.Plain) : c.Mute where
  audioSource := h.audioSource
  fragment f hf := by rw [h.graph] at hf; cases hf

@[simp] theorem mute_mk {videoFilters audioFilters : List FilterText}
    {outputFlags inputFlags : List String} {graph? : Option Fragment}
    {maps? : Option (List MapTarget)} {audioSource? : Option Nat} :
    Mute ⟨videoFilters, audioFilters, outputFlags, inputFlags, graph?, maps?, audioSource?⟩ ↔
      audioSource? = none ∧ ∀ f, graph? = some f → f.audio? = none :=
  ⟨fun h => ⟨h.1, h.2⟩, fun h => ⟨h.1, h.2⟩⟩

@[simp] theorem mute_video (filters : List FilterText) : (video filters).Mute := by simp [video]

@[simp] theorem mute_audio (filters : List FilterText) : (audio filters).Mute := by simp [audio]

@[simp] theorem mute_flags (tokens : List String) : (flags tokens).Mute := by simp [flags]

@[simp] theorem mute_graph {f : Fragment} : (graph f).Mute ↔ f.audio? = none := by simp [graph]

@[simp] theorem mute_videoOf (parts : List FilterText.Part) : Gives Mute (videoOf parts) := by
  simp [videoOf]

@[simp] theorem mute_audioOf (parts : List FilterText.Part) : Gives Mute (audioOf parts) := by
  simp [audioOf]

end Contribution

/-- A handler that leaves the main audio alone if the primary input has none. -/
def Handler.Mutes (compile : Params → HandlerContext → Except Fault Contribution) : Prop :=
  ∀ p ctx, ctx.primary.hasAudio = false → Gives Contribution.Mute (compile p ctx)

theorem Handler.FiltersVideo.mutes
    {compile : Params → HandlerContext → Except Fault Contribution}
    (h : Handler.FiltersVideo compile) : Handler.Mutes compile :=
  fun p ctx _ => h.gives Contribution.mute_video p ctx

namespace Effect

open Contribution Handler

theorem trim_mutes : Mutes trim := by
  intro p ctx _
  rw [trim]
  refine gives_bind fun start? _ => gives_bind fun end? _ => gives_bind fun duration? _ => ?_
  cases start? <;> cases end? <;> cases duration? <;> simp

theorem temporal_mutes : ∀ entry ∈ temporal, Mutes entry.2.compile := by
  simp only [temporal, List.forall_mem_cons, trim_mutes, true_and]
  simp [Mutes, speed, Effect.reverse, loop, boomerang, jumpCut, beatSync, freezeFrame,
    frameInterpolation, frameBlend]

theorem spatial_mutes : ∀ entry ∈ spatial, Mutes entry.2.compile := by
  simp only [spatial, List.forall_mem_cons, kenBurns_filtersVideo.mutes,
    drift_filtersVideo.mutes, aspect_filtersVideo.mutes, wipe_filtersVideo.mutes,
    slideIn_filtersVideo.mutes, true_and]
  simp [Mutes, resize, crop, Effect.pad, rotate, Effect.flip, zoom, mirror, captionSpace,
    perspective, lensCorrection, spin, shake, pulse, bounce, irisReveal, revealMask, scroll,
    fillBorders, deshake]

theorem keyed_mute (key : FilterText) (background : String) : (keyed key background).Mute := by
  rw [keyed]
  split <;> simp

theorem branched_audio? {untouched branch treated : String} {treatment join : FilterText} :
    (branched untouched branch treated treatment join).audio? = none := rfl

theorem visual_mutes : ∀ entry ∈ visual, Mutes entry.2.compile := by
  simp [visual, Mutes, keyed_mute, branched_audio?, valued, chosen, blur, vignette, Effect.fade,
    chromakey, lumakey, selectiveColor, monochrome, colorTemperature, pixelate, posterize, glow,
    applyTable, fadePair, flash, deband, chromaticAberration, ghostTrail, maskBlur, datamosh, sepia,
    tiltShift, halftone, colorhold, despill, comicBook]

theorem previewStrip_mutes : Mutes previewStrip := by
  intro p ctx _
  rw [previewStrip]
  refine gives_bind fun frames _ => ?_
  split <;> simp

theorem encoding_mutes : ∀ entry ∈ encoding, Mutes entry.2.compile := by
  simp only [encoding, List.forall_mem_cons, previewStrip_mutes, true_and]
  simp [Mutes, compress, convert, bitrate, quality, container, audioCodec, hardwareDecoding,
    thumbnail, extractFrames, gif, extractSubtitles, spriteSheet]

theorem lettering_mutes : ∀ entry ∈ lettering, Mutes entry.2.compile := by
  simp [lettering, Mutes, textOverlay, lowerThird, countdown, scrollingText, typewriterText,
    burnSubtitles, animatedText, ticker, bounceText, fadeText, karaokeText]

theorem multiInput_mutes : ∀ entry ∈ multiInput, Mutes entry.2.compile := by
  simp +contextual [multiInput, Mutes, sequenceHandler, concat, xfade, grid, slideshow,
    overlayImages, splitScreen, pictureInPicture, blend]

theorem audioJoin_turns (source : ExtraInput) (filter : FilterText) :
    (audioJoin source filter).Turns (some .joined) :=
  ⟨rfl, _, rfl, List.cons_ne_nil _ _, rfl⟩

/-- An entry of a table does with the main audio what its name says, if the primary input has
none. -/
def Turning (entry : String × Handler) : Prop :=
  ∀ p ctx, ctx.primary.hasAudio = false →
    Gives (·.Turns (AudioTurn.ofHandler? entry.1)) (entry.2.compile p ctx)

theorem turning_of_mutes {table : HandlerTable}
    (hnames : ∀ entry ∈ table, AudioTurn.ofHandler? entry.1 = none)
    (hmutes : ∀ entry ∈ table, Mutes entry.2.compile) : ∀ entry ∈ table, Turning entry := by
  intro entry hentry p ctx hsilent
  rw [hnames entry hentry]
  exact hmutes entry hentry p ctx hsilent

theorem audio_turning : ∀ entry ∈ audio, Turning entry := by
  simp [audio, Turning, AudioTurn.ofHandler?, audioJoin_turns, volume, normalizeLoudness, fadeAudio,
    removeAudio, extractAudio, replaceAudio, audioCrossfade, mixAudio]

end Effect

/-- Whatever the parameters and the context, if the primary input has no audio, the built-in
handlers leave the main audio alone, but for two that join it and one that replaces it. -/
theorem HandlerTable.builtin_turning : ∀ entry ∈ builtin, Effect.Turning entry := by
  simp only [builtin, List.forall_mem_append]
  exact ⟨⟨⟨⟨⟨⟨Effect.turning_of_mutes (by decide) Effect.temporal_mutes,
    Effect.turning_of_mutes (by decide) Effect.spatial_mutes⟩,
    Effect.turning_of_mutes (by decide) Effect.visual_mutes⟩, Effect.audio_turning⟩,
    Effect.turning_of_mutes (by decide) Effect.encoding_mutes⟩,
    Effect.turning_of_mutes (by decide) Effect.lettering_mutes⟩,
    Effect.turning_of_mutes (by decide) Effect.multiInput_mutes⟩

end SkillPipeline
