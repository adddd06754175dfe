import SkillPipeline.Effect.Table
import SkillPipeline.Proofs.Command.Reading
import SkillPipeline.Proofs.Outcome

namespace SkillPipeline

open Outcome FlagGroup

attribute [simp] gives_error

section Gives

variable {ε α β : Type} {P : α → Prop} {Q : β → Prop} {x y : Except ε α}

@[simp] theorem gives_true : Gives (fun _ => True) x := fun _ _ => trivial

@[simp] theorem gives_ok_iff {a : α} : Gives P (.ok a : Except ε α) ↔ P a :=
  ⟨fun h => h a rfl, gives_ok⟩

@[simp] theorem gives_pure_iff {a : α} : Gives P (pure a : Except ε α) ↔ P a := gives_ok_iff

@[simp] theorem gives_bind_iff {f : α → Except ε β} :
    Gives Q (x >>= f) ↔ Gives (fun a => Gives Q (f a)) x := by
  cases x with
  | error e => exact iff_of_true gives_error gives_error
  | ok a => exact ⟨fun h => gives_ok h, fun h => h a rfl⟩

@[simp] theorem gives_fmap_iff {g : α → β} : Gives Q (g <$> x) ↔ Gives (fun a => Q (g a)) x := by
  cases x with
  | error e => exact iff_of_true gives_error gives_error
  | ok a =>
    change Gives Q (.ok (g a)) ↔ Gives (fun a => Q (g a)) (.ok a)
    rw [gives_ok_iff, gives_ok_iff]

@[simp] theorem gives_ite_iff {c : Prop} [Decidable c] :
    Gives P (if c then x else y) ↔ (c → Gives P x) ∧ (¬c → Gives P y) := by
  by_cases h : c <;> simp [h]

end Gives

/-- The flags of a contribution are spelled with their values. -/
structure Contribution.Spelled (c : Contribution) : Prop where
  inputFlags : FlagGroup.Spelled c.inputFlags
  outputFlags : FlagGroup.Spelled c.outputFlags

/-- A handler all of whose contributions have their flags spelled. -/
def Handler.Spells (compile : Params → HandlerContext → Except Fault Contribution) : Prop :=
  ∀ p ctx, Gives Contribution.Spelled (compile p ctx)

def Contribution.FiltersVideo (c : Contribution) : Prop := ∃ filters, c = video filters

/-- A handler that contributes video filters and nothing else. -/
def Handler.FiltersVideo (compile : Params → HandlerContext → Except Fault Contribution) : Prop :=
  ∀ p ctx, Gives Contribution.FiltersVideo (compile p ctx)

namespace Contribution

variable {c : Contribution}

theorem spelled_of_none (hinput : c.inputFlags = []) (houtput : c.outputFlags = []) :
    c.Spelled := ⟨hinput ▸ spelled_nil, houtput ▸ spelled_nil⟩

@[simp] theorem spelled_mk {videoFilters audioFilters : List FilterText}
    {outputFlags inputFlags : List String} {graph? : Option Fragment}
    {maps? : Option (List MapTarget)} {audioSource? : Option Nat} :
    Spelled ⟨videoFilters, audioFilters, outputFlags, inputFlags, graph?, maps?, audioSource?⟩ ↔
      FlagGroup.Spelled inputFlags ∧ FlagGroup.Spelled outputFlags :=
  ⟨fun h => ⟨h.1, h.2⟩, fun h => ⟨h.1, h.2⟩⟩

@[simp] theorem spelled_video (filters : List FilterText) : (video filters).Spelled :=
  spelled_of_none rfl rfl

@[simp] theorem spelled_audio (filters : List FilterText) : (audio filters).Spelled :=
  spelled_of_none rfl rfl

@[simp] theorem spelled_graph (f : Fragment) : (graph f).Spelled := spelled_of_none rfl rfl

@[simp] theorem spelled_flags {tokens : List String} :
    (flags tokens).Spelled ↔ FlagGroup.Spelled tokens := by simp [flags]

@[simp] theorem spelled_videoOf (parts : List FilterText.Part) :
    Gives Spelled (videoOf parts) := by simp [videoOf]

@[simp] theorem spelled_audioOf (parts : List FilterText.Part) :
    Gives Spelled (audioOf parts) := by simp [audioOf]

@[simp] theorem filtersVideo_videoOf (parts : List FilterText.Part) :
    Gives FiltersVideo (videoOf parts) :=
  gives_fmap_iff.mpr fun t _ => ⟨[t], rfl⟩

end Contribution

/-- What holds of video filters alone holds of all that such a handler contributes. -/
theorem Handler.FiltersVideo.gives {P : Contribution → Prop}
    {compile : Params → HandlerContext → Except Fault Contribution}
    (h : Handler.FiltersVideo compile) (hvideo : ∀ filters, P (.video filters)) (p : Params)
    (ctx : HandlerContext) : Gives P (compile p ctx) := by
  intro c hc
  obtain ⟨filters, rfl⟩ := h p ctx c hc
  exact hvideo filters

theorem Handler.FiltersVideo.spells
    {compile : Params → HandlerContext → Except Fault Contribution}
    (h : Handler.FiltersVideo compile) : Handler.Spells compile :=
  h.gives Contribution.spelled_video

namespace Effect

open Contribution Handler

theorem trim_spells : Spells trim := by
  intro p ctx
  rw [trim]
  refine gives_bind fun start? _ => gives_bind fun end? _ => gives_bind fun duration? _ => ?_
  cases start? <;> cases end? <;> cases duration? <;> simp (disch := decide) [spelled_value]

theorem temporal_spells : ∀ entry ∈ temporal, Spells entry.2.compile := by
  simp only [temporal, List.forall_mem_cons, trim_spells, true_and]
  simp (disch := decide) [Spells, spelled_value, spelled_alone, speed, Effect.reverse, loop,
    boomerang, jumpCut, beatSync, freezeFrame, frameInterpolation, frameBlend]

theorem kenBurns_filtersVideo : Handler.FiltersVideo kenBurns := by
  intro p ctx
  simp only [kenBurns]
  refine gives_bind fun amount _ => gives_bind fun seconds _ => gives_bind fun size _ =>
    gives_bind fun rate _ => gives_bind fun direction _ => ?_
  split <;> simp

theorem drift_filtersVideo : Handler.FiltersVideo drift := by
  intro p ctx
  simp only [drift]
  refine gives_bind fun amount _ => gives_bind fun direction _ => ?_
  split <;> simp

theorem aspect_filtersVideo : Handler.FiltersVideo aspect := by
  intro p ctx
  rw [aspect]
  refine gives_bind fun ratio _ => ?_
  split
  · simp
  · refine gives_bind fun wide _ => gives_bind fun mode _ => ?_
    split <;> simp

theorem wipe_filtersVideo : Handler.FiltersVideo wipe := by
  intro p ctx
  rw [wipe]
  refine gives_bind fun d _ => gives_bind fun progress _ => gives_bind fun direction _ => ?_
  split <;> simp [revealMask]

theorem slideIn_filtersVideo : Handler.FiltersVideo slideIn := by
  intro p ctx
  rw [slideIn]
  refine gives_bind fun d _ => gives_bind fun done _ => gives_bind fun direction _ => ?_
  split <;> simp

theorem spatial_spells : ∀ entry ∈ spatial, Spells entry.2.compile := by
  simp only [spatial, List.forall_mem_cons, kenBurns_filtersVideo.spells,
    drift_filtersVideo.spells, aspect_filtersVideo.spells, wipe_filtersVideo.spells,
    slideIn_filtersVideo.spells, true_and]
  simp [Spells, resize, crop, Effect.pad, rotate, Effect.flip, zoom, mirror, captionSpace,
    perspective, lensCorrection, spin, shake, pulse, bounce, irisReveal, revealMask, scroll,
    fillBorders, deshake]

theorem keyed_spelled (key : FilterText) (background : String) :
    (keyed key background).Spelled := by
  rw [keyed]
  split <;> simp

theorem visual_spells : ∀ entry ∈ visual, Spells entry.2.compile := by
  simp (disch := decide) [visual, Spells, spelled_value, keyed_spelled, valued, chosen, blur,
    vignette, Effect.fade, chromakey, lumakey, selectiveColor, monochrome, colorTemperature,
    pixelate, posterize, glow, applyTable, fadePair, flash, deband, chromaticAberration,
    ghostTrail, maskBlur, datamosh, sepia, tiltShift, halftone, colorhold, despill, comicBook]

theorem audio_spells : ∀ entry ∈ audio, Spells entry.2.compile := by
  simp (disch := decide) [audio, Spells, spelled_value, spelled_alone, volume, normalizeLoudness,
    fadeAudio, removeAudio, extractAudio, replaceAudio, audioCrossfade, mixAudio, audioJoin]

theorem compress_spells : Spells compress := by
  intro p ctx
  simp (disch := decide) [compress, spelled_value]

theorem convert_spells : Spells convert := by
  intro p ctx
  simp (disch := decide) [convert, spelled_value]

theorem bitrate_spells : Spells bitrate := by
  intro p ctx
  simp (disch := decide) [bitrate, spelled_value]

theorem quality_spells : Spells quality := by
  intro p ctx
  simp (disch := decide) [quality, spelled_value]

theorem container_spells : Spells container := by
  intro p ctx
  simp (disch := decide) [container, spelled_value]

theorem audioCodec_spells : Spells audioCodec := by
  intro p ctx
  simp (disch := decide) [audioCodec, spelled_value]

theorem hardwareDecoding_spells : Spells hardwareDecoding := by
  intro p ctx
  simp (disch := decide) [hardwareDecoding, spelled_value]

theorem thumbnail_spells : Spells thumbnail := by
  intro p ctx
  simp (disch := decide) [thumbnail, spelled_value, spelled_alone]

theorem extractFrames_spells : Spells extractFrames := by
  intro p ctx
  simp (disch := decide) [extractFrames, spelled_alone]

theorem gif_spells : Spells gif := by
  intro p ctx
  simp (disch := decide) [gif, spelled_alone]

theorem extractSubtitles_spells : Spells extractSubtitles := by
  intro p ctx
  simp (disch := decide) [extractSubtitles, spelled_value]

theorem spriteSheet_spells : Spells spriteSheet := by
  intro p ctx
  simp (disch := decide) [spriteSheet, spelled_value, spelled_alone]

theorem previewStrip_spells : Spells previewStrip := by
  intro p ctx
  rw [previewStrip]
  refine gives_bind fun frames _ => ?_
  split <;> simp (disch := decide) [spelled_value, spelled_alone]

theorem encoding_spells : ∀ entry ∈ encoding, Spells entry.2.compile := by
  simp only [encoding, List.forall_mem_cons]
  exact ⟨compress_spells, convert_spells, bitrate_spells, quality_spells, container_spells,
    audioCodec_spells, hardwareDecoding_spells, thumbnail_spells, extractFrames_spells, gif_spells,
    extractSubtitles_spells, spriteSheet_spells, previewStrip_spells, List.forall_mem_nil _⟩

theorem lettering_spells : ∀ entry ∈ lettering, Spells entry.2.compile := by
  simp [lettering, Spells, textOverlay, lowerThird, countdown, scrollingText, typewriterText,
    burnSubtitles, animatedText, ticker, bounceText, fadeText, karaokeText]

theorem multiInput_spells : ∀ entry ∈ multiInput, Spells entry.2.compile := by
  simp (disch := decide) [multiInput, Spells, sequenceHandler, spelled_value, concat, xfade, grid,
    slideshow, overlayImages, splitScreen, pictureInPicture, blend]

end Effect

/-- Whatever the parameters and the context, the flags that a built-in handler contributes are
spelled with their values. -/
theorem HandlerTable.builtin_spells : ∀ entry ∈ builtin, Handler.Spells entry.2.compile := by
  simp only [builtin, List.forall_mem_append]
  exact ⟨⟨⟨⟨⟨⟨Effect.temporal_spells, Effect.spatial_spells⟩, Effect.visual_spells⟩,
    Effect.audio_spells⟩, Effect.encoding_spells⟩, Effect.lettering_spells⟩,
    Effect.multiInput_spells⟩

end SkillPipeline
