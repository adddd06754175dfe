import SkillPipeline.Effect.Audio
import SkillPipeline.Proofs.Effect.Contract
import SkillPipeline.Effect.Encoding
import SkillPipeline.Effect.Temporal
import SkillPipeline.Effect.Table
import SkillPipeline.Proofs.Effect.Lettering
import SkillPipeline.Proofs.Effect.Overlay
import SkillPipeline.Proofs.Effect.Visual
import SkillPipeline.Proofs.Outcome

namespace SkillPipeline.Effect

open Contribution Handler Reliance

theorem volume_compiles : Compiles [.number "level"] volume := by
  refine compiles_of_plain fun p ctx => ?_
  simp [volume]

theorem normalizeLoudness_compiles : Compiles [.number "target"] normalizeLoudness := by
  refine compiles_of_plain fun p ctx => ?_
  simp [normalizeLoudness]

theorem fadeAudio_compiles :
    Compiles [.value "type", .number "start", .number "duration"] fadeAudio := by
  refine compiles_of_plain fun p ctx => ?_
  simp [fadeAudio, fadeDirection]

theorem removeAudio_compiles : Compiles [] removeAudio := by
  refine compiles_of_plain fun p ctx => ?_
  simp [removeAudio]

theorem extractAudio_compiles : Compiles [] extractAudio := by
  refine compiles_of_plain fun p ctx => ?_
  simp [extractAudio]

theorem claimSound_claims {skill : String} {needs : List Need}
    (h : Need.numberIfAny "input" ∈ claimNeeds needs) : Claims needs (claimSound skill) where
  meets p ctx := by
    simp only [claimSound, meets_bind, meets_pure]
    refine meets_of_forall (meets_requestedInput h) fun requested? => ?_
    exact meets_claimExtra.mono fun index hindex => ⟨by simpa using hindex, by simp⟩
  wordless p ctx :=
    (wordless_requestedInput p).bind fun _ => wordless_claimExtra.bind fun _ => wordless_ok

theorem replaceAudio_compiles :
    Compiles [.ownInput, .numberIfAny "input"] replaceAudio := by
  intro p ctx
  rw [replaceAudio, meets_bind]
  refine (meets_ownExtra (by simp)).mono fun source hsource => ?_
  refine ⟨fun f hf => (nomatch hf), fun hsome => (nomatch hsome), fun targets htargets => ?_,
    fun index hindex => ?_⟩
  · cases htargets
    trivial
  · cases hindex
    exact hsource

theorem audioJoin_wired (source : ExtraInput) (filter : FilterText) :
    Fragment.Wired {
      nodes := [⟨[.main .audio, .input source.index .audio], filter, ["out"]⟩]
      audio? := some "out" } :=
  of_decide_eq_true rfl

theorem audioJoin_sound {own : List Nat} {source : ExtraInput} (filter : FilterText)
    (h : source.index ∈ own) : (audioJoin source filter).Sound own :=
  sound_graph fun _ => (audioJoin_wired source filter).sound fun index hindex => by
    have heq : index ∈ [source.index] := hindex
    rw [List.mem_singleton.mp heq]
    exact h

theorem audioCrossfade_compiles :
    Compiles [.ownInput, .numberIfAny "input", .value "curve", .number "duration"]
      audioCrossfade := by
  intro p ctx
  simp only [audioCrossfade, meets_bind, meets_pure]
  refine (meets_ownExtra (by simp)).mono fun source hsource => ?_
  refine meets_of_forall (meets_text (by simp)) fun curve => ?_
  refine meets_of_forall (meets_paramDecimal (by simp)) fun duration => ?_
  exact meets_of_forall (meets_ofParts _) fun filter => audioJoin_sound filter hsource

theorem mixAudio_compiles :
    Compiles [.ownInput, .numberIfAny "input", .value "duration", .number "dropout_transition",
      .number "weight", .number "extra_weight"] mixAudio := by
  intro p ctx
  simp only [mixAudio, meets_bind, meets_pure]
  refine (meets_ownExtra (by simp)).mono fun source hsource => ?_
  refine meets_of_forall (meets_text (by simp)) fun duration => ?_
  refine meets_of_forall (meets_paramDecimal (by simp)) fun dropout => ?_
  refine meets_of_forall (meets_float (by simp)) fun weight => ?_
  refine meets_of_forall (meets_float (by simp)) fun extraWeight => ?_
  exact meets_of_forall (meets_ofParts _) fun filter => audioJoin_sound filter hsource

def audioNeeds : List (String × List Need) := [
  ("volume", [.number "level"]),
  ("normalize", [.number "target"]),
  ("fade_audio", [.value "type", .number "start", .number "duration"]),
  ("remove_audio", []),
  ("extract_audio", []),
  ("replace_audio", [.ownInput, .numberIfAny "input"]),
  ("audio_crossfade", [.ownInput, .numberIfAny "input", .value "curve", .number "duration"]),
  ("mix_audio", [.ownInput, .numberIfAny "input", .value "duration", .number "dropout_transition",
    .number "weight", .number "extra_weight"])]

theorem audio_keeps : List.Forall₂ Listed audio audioNeeds := by
  simp only [audio, audioNeeds, List.forall₂_cons]
  exact ⟨⟨rfl, volume_compiles.keeps rfl⟩, ⟨rfl, normalizeLoudness_compiles.keeps rfl⟩,
    ⟨rfl, fadeAudio_compiles.keeps rfl⟩, ⟨rfl, removeAudio_compiles.keeps rfl⟩,
    ⟨rfl, extractAudio_compiles.keeps rfl⟩,
    ⟨rfl, replaceAudio_compiles.keeps_claiming (claimSound_claims (by decide))⟩,
    ⟨rfl, audioCrossfade_compiles.keeps_claiming (claimSound_claims (by decide))⟩,
    ⟨rfl, mixAudio_compiles.keeps_claiming (claimSound_claims (by decide))⟩, .nil⟩

end SkillPipeline.Effect

namespace SkillPipeline.Effect

open Contribution Handler Reliance

theorem compress_compiles : Compiles [.value "preset"] compress := by
  refine compiles_of_plain fun p ctx => ?_
  simp [compress]

theorem convert_compiles : Compiles [.value "codec"] convert := by
  refine compiles_of_plain fun p ctx => ?_
  simp [convert]

theorem bitrate_compiles : Compiles [.valueIfAny "video", .valueIfAny "audio"] bitrate := by
  refine compiles_of_plain fun p ctx => ?_
  rw [bitrate]
  -- Each rate is read only where it is given, so whether it is comes first.
  cases hvideo : p.has "video" <;> cases haudio : p.has "audio" <;>
    simp [meets_stringIfAny, hvideo, haudio]

theorem quality_compiles : Compiles [.number "crf", .value "preset"] quality := by
  refine compiles_of_plain fun p ctx => ?_
  simp [quality]

theorem container_compiles : Compiles [.value "format"] container := by
  refine compiles_of_plain fun p ctx => ?_
  simp [container]

theorem audioCodec_compiles : Compiles [.value "codec", .value "bitrate"] audioCodec := by
  refine compiles_of_plain fun p ctx => ?_
  simp [audioCodec]

theorem hardwareDecoding_compiles : Compiles [.value "type"] hardwareDecoding := by
  refine compiles_of_plain fun p ctx => ?_
  simp [hardwareDecoding]

theorem thumbnail_compiles : Compiles [.number "width", .number "time"] thumbnail := by
  refine compiles_of_plain fun p ctx => ?_
  simp [thumbnail]

theorem extractFrames_compiles : Compiles [.number "rate"] extractFrames := by
  refine compiles_of_plain fun p ctx => ?_
  simp [extractFrames]

theorem gif_wired (split palette applied : FilterText) :
    Fragment.Wired {
      nodes := [⟨[.main .video], split, ["s0", "s1"]⟩, ⟨[.label "s0"], palette, ["pal"]⟩,
        ⟨[.label "s1", .label "pal"], applied, ["out"]⟩]
      video? := some "out" } :=
  of_decide_eq_true rfl

theorem gif_compiles : Compiles [.number "fps", .number "width"] gif := by
  intro p ctx
  simp only [gif, GraphNode.of, meets_bind, meets_pure]
  refine meets_of_forall (meets_int (by simp)) fun fps => ?_
  refine meets_of_forall (meets_int (by simp)) fun width => ?_
  refine meets_of_forall (meets_ofParts _) fun split => ?_
  refine meets_of_forall (meets_ofParts _) fun palette => ?_
  refine meets_of_forall (meets_ofParts _) fun applied => ?_
  exact sound_graph fun _ => (gif_wired split palette applied).sound_alone rfl

theorem extractSubtitles_compiles : Compiles [.number "track", .value "format"]
    extractSubtitles := by
  intro p ctx
  simp only [extractSubtitles, meets_bind, meets_pure]
  refine meets_of_forall (meets_int (by simp)) fun track => ?_
  refine meets_of_forall (meets_string (by simp)) fun format => ?_
  refine ⟨fun f hf => ?_, fun hsome => ?_, fun targets htargets => ?_, fun index hindex => ?_⟩
  · cases hf
  · cases hsome
  · cases htargets
    trivial
  · cases hindex

theorem spriteSheet_compiles :
    Compiles [.number "columns", .number "rows", .number "interval", .number "width"]
      spriteSheet := by
  refine compiles_of_plain fun p ctx => ?_
  simp [spriteSheet]

theorem previewStrip_compiles : Compiles [.number "frames", .number "width"] previewStrip := by
  refine compiles_of_plain fun p ctx => ?_
  rw [previewStrip, meets_bind]
  refine meets_of_forall (meets_int (by simp)) fun frames => ?_
  cases ctx.primary.duration? <;> simp

/-- What the handlers of effects on the encoding need. -/
def encodingNeeds : List (String × List Need) := [
  ("compress", [.value "preset"]),
  ("convert", [.value "codec"]),
  ("bitrate", [.valueIfAny "video", .valueIfAny "audio"]),
  ("quality", [.number "crf", .value "preset"]),
  ("container", [.value "format"]),
  ("audio_codec", [.value "codec", .value "bitrate"]),
  ("hwaccel", [.value "type"]),
  ("thumbnail", [.number "width", .number "time"]),
  ("extract_frames", [.number "rate"]),
  ("gif", [.number "fps", .number "width"]),
  ("extract_subtitles", [.number "track", .value "format"]),
  ("sprite_sheet", [.number "columns", .number "rows", .number "interval", .number "width"]),
  ("preview_strip", [.number "frames", .number "width"])]

theorem encoding_keeps : List.Forall₂ Listed encoding encodingNeeds := by
  simp only [encoding, encodingNeeds, List.forall₂_cons]
  exact ⟨⟨rfl, compress_compiles.keeps rfl⟩, ⟨rfl, convert_compiles.keeps rfl⟩,
    ⟨rfl, bitrate_compiles.keeps rfl⟩, ⟨rfl, quality_compiles.keeps rfl⟩,
    ⟨rfl, container_compiles.keeps rfl⟩, ⟨rfl, audioCodec_compiles.keeps rfl⟩,
    ⟨rfl, hardwareDecoding_compiles.keeps rfl⟩, ⟨rfl, thumbnail_compiles.keeps rfl⟩,
    ⟨rfl, extractFrames_compiles.keeps rfl⟩, ⟨rfl, gif_compiles.keeps rfl⟩,
    ⟨rfl, extractSubtitles_compiles.keeps rfl⟩, ⟨rfl, spriteSheet_compiles.keeps rfl⟩,
    ⟨rfl, previewStrip_compiles.keeps rfl⟩, .nil⟩

end SkillPipeline.Effect

namespace SkillPipeline.Effect

open Contribution Handler Reliance

theorem trim_compiles :
    Compiles [.timeIfAny "start", .timeIfAny "end", .timeIfAny "duration"] trim := by
  refine compiles_of_plain fun p ctx => ?_
  simp only [trim, meets_bind]
  refine meets_of_forall (meets_time (by simp)) fun start? => ?_
  refine meets_of_forall (meets_time (by simp)) fun end? => ?_
  refine meets_of_forall (meets_time (by simp)) fun duration? => ?_
  -- An end wins over a duration, so a duration is looked at only where there is no end.
  cases end? with
  | some stop => simp
  | none => cases duration? <;> simp

theorem speed_compiles : Compiles [.number "factor"] speed := by
  refine compiles_of_plain fun p ctx => ?_
  simp [speed, tempoChain]

theorem reverse_compiles : Compiles [] reverse := by
  refine compiles_of_plain fun p ctx => ?_
  simp [reverse]

theorem loop_compiles : Compiles [.number "count"] loop := by
  refine compiles_of_plain fun p ctx => ?_
  simp [loop]

theorem boomerang_wired (split back joined : FilterText) :
    Fragment.Wired {
      nodes := [⟨[.main .video], split, ["fwd", "rev"]⟩, ⟨[.label "rev"], back, ["r"]⟩,
        ⟨[.label "fwd", .label "r"], joined, ["out"]⟩]
      video? := some "out" } :=
  of_decide_eq_true rfl

theorem boomerang_compiles : Compiles [.number "loops"] boomerang := by
  intro p ctx
  simp only [boomerang, GraphNode.of, meets_bind, meets_pure]
  refine meets_of_forall (meets_int (by simp)) fun loops => ?_
  refine meets_of_forall (meets_ofParts _) fun split => ?_
  refine meets_of_forall (meets_ofParts _) fun back => ?_
  refine meets_of_forall (meets_ofParts _) fun joined => ?_
  exact sound_graph fun _ => (boomerang_wired split back joined).sound_alone rfl

theorem jumpCut_compiles : Compiles [.number "threshold"] jumpCut := by
  refine compiles_of_plain fun p ctx => ?_
  simp [jumpCut]

theorem beatSync_compiles : Compiles [.number "threshold"] beatSync := by
  refine compiles_of_plain fun p ctx => ?_
  simp [beatSync]

theorem freezeFrame_compiles :
    Compiles [.timeIfAny "time", .timeIfAny "duration"] freezeFrame := by
  refine compiles_of_plain fun p ctx => ?_
  simp [freezeFrame]

theorem frameInterpolation_compiles :
    Compiles [.number "fps", .value "mode"] frameInterpolation := by
  refine compiles_of_plain fun p ctx => ?_
  simp [frameInterpolation]

theorem frameBlend_compiles : Compiles [.number "frames"] frameBlend := by
  refine compiles_of_plain fun p ctx => ?_
  simp [frameBlend]

def temporalNeeds : List (String × List Need) := [
  ("trim", [.timeIfAny "start", .timeIfAny "end", .timeIfAny "duration"]),
  ("speed", [.number "factor"]),
  ("reverse", []),
  ("loop", [.number "count"]),
  ("boomerang", [.number "loops"]),
  ("jump_cut", [.number "threshold"]),
  ("beat_sync", [.number "threshold"]),
  ("freeze_frame", [.timeIfAny "time", .timeIfAny "duration"]),
  ("frame_interpolation", [.number "fps", .value "mode"]),
  ("frame_blend", [.number "frames"])]

theorem temporal_keeps : List.Forall₂ Listed temporal temporalNeeds := by
  simp only [temporal, temporalNeeds, List.forall₂_cons]
  exact ⟨⟨rfl, trim_compiles.keeps rfl⟩, ⟨rfl, speed_compiles.keeps rfl⟩,
    ⟨rfl, reverse_compiles.keeps rfl⟩, ⟨rfl, loop_compiles.keeps rfl⟩,
    ⟨rfl, boomerang_compiles.keeps rfl⟩, ⟨rfl, jumpCut_compiles.keeps rfl⟩,
    ⟨rfl, beatSync_compiles.keeps rfl⟩, ⟨rfl, freezeFrame_compiles.keeps rfl⟩,
    ⟨rfl, frameInterpolation_compiles.keeps rfl⟩, ⟨rfl, frameBlend_compiles.keeps rfl⟩, .nil⟩

end SkillPipeline.Effect

namespace SkillPipeline.HandlerTable

open Effect

def builtinNeeds : List (String × List Need) :=
  temporalNeeds ++ spatialNeeds ++ visualNeeds ++ audioNeeds ++ encodingNeeds ++ letteringNeeds
    ++ multiInputNeeds

theorem builtin_listed : List.Forall₂ Handler.Listed builtin builtinNeeds :=
  List.rel_append (List.rel_append (List.rel_append (List.rel_append (List.rel_append
    (List.rel_append temporal_keeps spatial_keeps) visual_keeps) audio_keeps) encoding_keeps)
      lettering_keeps) multiInput_keeps

theorem builtin_keeps : ∀ entry ∈ builtin, ∃ needs, entry.2.Keeps needs := by
  intro entry hentry
  obtain ⟨needed, -, -, hkeeps⟩ := Outcome.exists_of_mem_left builtin_listed hentry
  exact ⟨needed.2, hkeeps⟩

/-- Whatever the parameters and the context, a built-in handler gives a contribution that fits the
merger, if it gives one. -/
theorem builtin_sound {entry : String × Handler} (hentry : entry ∈ builtin) {p : Params}
    {ctx : HandlerContext} {c : Contribution} (hc : entry.2.compile p ctx = .ok c) :
    c.Sound ctx.ownInputs := by
  obtain ⟨needs, hkeeps⟩ := builtin_keeps entry hentry
  exact (hkeeps.compiles p ctx).of_eq_ok hc

/-- Whatever the parameters and the context, the inputs that a built-in handler claims are there. -/
theorem builtin_claims {entry : String × Handler} (hentry : entry ∈ builtin)
    {claim : Params → HandlerContext → Except Fault (List Nat)}
    (hclaim : entry.2.reserve? = some claim) {p : Params} {ctx : HandlerContext}
    {claimed : List Nat} (hc : claim p ctx = .ok claimed) :
    ∀ index ∈ claimed, ∃ e ∈ ctx.extras, e.index = index := by
  obtain ⟨needs, hkeeps⟩ := builtin_keeps entry hentry
  exact (((hkeeps.claims claim hclaim).meets p ctx).of_eq_ok hc).1

end SkillPipeline.HandlerTable
