import SkillPipeline.Effect.Audio
import SkillPipeline.Effect.Encoding
import SkillPipeline.Effect.Temporal
import SkillPipeline.Proofs.Legibility.Contract

namespace SkillPipeline.Effect

open Contribution FilterText Handler Outcome

theorem closed_tempoChain (factor : Float) :
    Gives (fun ts => ∀ t ∈ ts, Closed t) (tempoChain factor) :=
  gives_mapM fun _ _ => gives_bind fun _ hf =>
    gives_ofParts (.lit rfl rfl <| .number hf hf <| .nil _)

theorem trim_legible : Legible trim := by
  intro p ctx
  refine gives_bind fun start? _ => gives_bind fun end? _ => gives_bind fun duration? _ => ?_
  cases end? with
  | some stop =>
    dsimp only
    split
    · exact gives_error
    · exact gives_bind fun length _ => gives_ok legible_flags
  | none => cases duration? <;> exact gives_ok legible_flags

theorem speed_legible : Legible speed := by
  intro p ctx
  refine gives_bind fun factor _ => gives_bind fun stretch hstretch => ?_
  refine (gives_ofParts (.lit rfl rfl <| .number hstretch hstretch <| .lit rfl rfl <|
    .nil _)).bind fun video hvideo => ?_
  exact (closed_tempoChain factor).bind fun audio haudio =>
    gives_ok (legible_filters (List.forall_mem_singleton.mpr hvideo) haudio)

theorem reverse_legible : Legible reverse := fun _ _ => gives_ok <|
  legible_filters (List.forall_mem_singleton.mpr (closed_wording rfl rfl))
    (List.forall_mem_singleton.mpr (closed_wording rfl rfl))

theorem loop_legible : Legible loop := fun _ _ => gives_bind fun _ _ => gives_ok legible_flags

theorem boomerang_legible : Legible boomerang := by
  intro p ctx
  refine gives_bind fun loops _ => ?_
  refine (GraphNode.gives_of (.lit rfl rfl <| .nil _) (by decide)).bind fun split hsplit => ?_
  refine (GraphNode.gives_of (.lit rfl rfl <| .nil _) (by decide)).bind fun back hback => ?_
  refine (GraphNode.gives_of (.lit rfl rfl <| .num <| .lit rfl rfl <| .nil _) (by decide)).bind
    fun joined hjoined => ?_
  exact gives_ok (legible_graph (by simp [Fragment.Legible, hsplit, hback, hjoined]))

theorem jumpCut_legible : Legible jumpCut := by
  intro p ctx
  refine gives_bind fun threshold _ => ?_
  refine (gives_ofParts (.opens rfl rfl <| .num <| .closes rfl rfl <| .nil _)).bind
    fun select hselect => ?_
  exact gives_ok (legible_video (List.forall_mem_singleton.mpr hselect))

theorem beatSync_legible : Legible beatSync := by
  intro p ctx
  refine gives_bind fun threshold _ => ?_
  refine (gives_ofParts (.opens rfl rfl <| .num <| .closes rfl rfl <| .nil _)).bind
    fun select hselect => ?_
  exact gives_ok (legible_video (List.forall_mem_singleton.mpr hselect))

theorem freezeFrame_legible : Legible freezeFrame := fun _ _ =>
  gives_bind fun _ _ => gives_bind fun _ _ =>
    legible_videoOf (.lit rfl rfl <| .num <| .lit rfl rfl <| .num <| .lit rfl rfl <| .nil _)

theorem frameInterpolation_legible : Legible frameInterpolation := fun _ _ =>
  gives_bind fun _ _ => gives_bind fun _ hmode =>
    legible_videoOf (.lit rfl rfl <| .num <| .lit rfl rfl <| .text hmode hmode <| .nil _)

theorem forall_mem_intercalate {α : Type} {P : α → Prop} {separator : List α} {l : List (List α)}
    (hs : ∀ a ∈ separator, P a) (hl : ∀ s ∈ l, ∀ a ∈ s, P a) :
    ∀ a ∈ separator.intercalate l, P a := by
  induction l with
  | nil => simp
  | cons first rest ih =>
    obtain ⟨hfirst, hrest⟩ := List.forall_mem_cons.mp hl
    cases rest with
    | nil => simpa using hfirst
    | cons next rest =>
      rw [List.intercalate_cons_cons]
      exact List.forall_mem_append.mpr ⟨List.forall_mem_append.mpr ⟨hfirst, hs⟩, ih hrest⟩

/-- There is nothing to escape in a row of ones, so it may stand in a section. -/
theorem inert_ones (n : Nat) : (escaped (Text.join " " (List.replicate n "1"))).Inert := by
  refine inert_escaped ?_
  rw [Text.join, String.toList_intercalate, List.map_replicate, List.all_eq_true]
  refine forall_mem_intercalate (List.all_eq_true.mp (by decide)) fun s hs => ?_
  rw [List.eq_of_mem_replicate hs]
  exact List.all_eq_true.mp (by decide)

theorem frameBlend_legible : Legible frameBlend := fun _ _ =>
  gives_bind fun _ _ => legible_videoOf (.lit rfl rfl <| .num <| .opens rfl rfl <|
    .inert (inert_ones _) (inert_ones _) <| .closes rfl rfl <| .nil _)

theorem temporal_legible : ∀ entry ∈ temporal, Legible entry.2.compile := by
  simp only [temporal, List.forall_mem_cons]
  exact ⟨trim_legible, speed_legible, reverse_legible, loop_legible, boomerang_legible,
    jumpCut_legible, beatSync_legible, freezeFrame_legible, frameInterpolation_legible,
    frameBlend_legible, by simp⟩

theorem volume_legible : Legible volume := fun _ _ =>
  gives_bind fun _ hlevel => legible_audioOf (.lit rfl rfl <| .decimal hlevel hlevel <| .nil _)

theorem normalizeLoudness_legible : Legible normalizeLoudness := fun _ _ =>
  gives_bind fun _ htarget =>
    legible_audioOf (.lit rfl rfl <| .decimal htarget htarget <| .lit rfl rfl <| .nil _)

theorem fadeAudio_legible : Legible fadeAudio := by
  intro p ctx
  refine gives_bind fun direction hdirection => ?_
  refine gives_bind fun start hstart => gives_bind fun duration hduration => ?_
  obtain ⟨type, -, hchoice⟩ := bind_eq_ok.mp hdirection
  obtain rfl := pure_eq_ok.mp hchoice
  split <;> exact legible_audioOf (.lit rfl rfl <| .lit rfl rfl <| .lit rfl rfl <|
    .decimal hstart hstart <| .lit rfl rfl <| .decimal hduration hduration <| .nil _)

theorem removeAudio_legible : Legible removeAudio := fun _ _ => gives_ok legible_flags

theorem extractAudio_legible : Legible extractAudio := fun _ _ => gives_ok legible_flags

theorem replaceAudio_legible : Legible replaceAudio := fun _ _ =>
  gives_bind fun _ _ => gives_ok legible_flags

theorem audioJoin_legible (source : ExtraInput) {filter : FilterText} (h : filter.Closed) :
    (audioJoin source filter).Legible :=
  legible_graph (List.forall_mem_singleton.mpr (GraphNode.legible_mk h (by decide)))

theorem audioCrossfade_legible : Legible audioCrossfade := by
  intro p ctx
  refine gives_bind fun source _ => gives_bind fun curve hcurve => ?_
  refine gives_bind fun duration hduration => ?_
  refine (gives_ofParts (.lit rfl rfl <| .decimal hduration hduration <| .lit rfl rfl <|
    .text hcurve hcurve <| .lit rfl rfl <| .text hcurve hcurve <| .nil _)).bind fun filter h => ?_
  exact gives_ok (audioJoin_legible source h)

theorem mixAudio_legible : Legible mixAudio := by
  intro p ctx
  refine gives_bind fun source _ => gives_bind fun duration hduration => ?_
  refine gives_bind fun dropout hdropout => gives_bind fun weight _ => ?_
  refine gives_bind fun extraWeight _ => ?_
  refine (gives_ofParts (.lit rfl rfl <| .text hduration hduration <| .lit rfl rfl <|
    .decimal hdropout hdropout <| .opens rfl rfl <| .num <| .within rfl rfl <| .num <|
    .closes rfl rfl <| .nil _)).bind fun filter h => ?_
  exact gives_ok (audioJoin_legible source h)

theorem audio_legible : ∀ entry ∈ audio, Legible entry.2.compile := by
  simp only [audio, List.forall_mem_cons]
  exact ⟨volume_legible, normalizeLoudness_legible, fadeAudio_legible, removeAudio_legible,
    extractAudio_legible, replaceAudio_legible, audioCrossfade_legible, mixAudio_legible, by simp⟩

theorem compress_legible : Legible compress := fun _ _ =>
  gives_bind fun _ _ => gives_ok legible_flags

theorem convert_legible : Legible convert := fun _ _ =>
  gives_bind fun _ _ => gives_ok legible_flags

theorem bitrate_legible : Legible bitrate := by
  intro p ctx
  rw [bitrate]
  dsimp only
  -- Each of the two rates is read and put among the flags, or left out.
  split <;> split <;> repeat refine gives_bind fun _ _ => ?_
  all_goals exact gives_ok legible_flags

theorem quality_legible : Legible quality := fun _ _ =>
  gives_bind fun _ _ => gives_bind fun _ _ => gives_ok legible_flags

theorem container_legible : Legible container := fun _ _ =>
  gives_bind fun _ _ => gives_ok legible_flags

theorem audioCodec_legible : Legible audioCodec := by
  intro p ctx
  refine gives_bind fun codec _ => ?_
  split
  · exact gives_ok legible_flags
  · exact gives_bind fun rate _ => gives_ok legible_flags

theorem hardwareDecoding_legible : Legible hardwareDecoding := fun _ _ =>
  gives_bind fun _ _ => gives_ok legible_flags

/-- Whether it is scaled or not, a thumbnail is taken at a time or chosen by a filter. -/
theorem thumbnail_legible : Legible thumbnail := by
  intro p ctx
  refine gives_bind fun width _ => gives_bind fun time _ => ?_
  dsimp only
  have hchosen {scale : List FilterText} (h : ∀ t ∈ scale, Closed t) :
      ∀ t ∈ wording "thumbnail" :: scale, Closed t :=
    List.forall_mem_cons.mpr ⟨closed_wording rfl rfl, h⟩
  split
  · refine (gives_ofParts (.lit rfl rfl <| .num <| .lit rfl rfl <| .nil _)).bind fun t ht => ?_
    have hscale : ∀ t' ∈ [t], Closed t' := List.forall_mem_singleton.mpr ht
    refine gives_bind fun scale heq => ?_
    cases heq
    split
    · exact gives_ok (legible_video hscale)
    · exact gives_ok (legible_video (hchosen hscale))
  · refine gives_bind fun scale heq => ?_
    cases heq
    split
    · exact gives_ok legible_flags
    · exact gives_ok (legible_video (hchosen (by simp)))

theorem extractFrames_legible : Legible extractFrames := by
  intro p ctx
  refine gives_bind fun rate hrate => ?_
  refine (gives_ofParts (.lit rfl rfl <| .decimal hrate hrate <| .nil _)).bind fun fps hfps => ?_
  exact gives_ok (legible_video (List.forall_mem_singleton.mpr hfps))

theorem gif_legible : Legible gif := by
  intro p ctx
  refine gives_bind fun fps _ => gives_bind fun width _ => ?_
  refine (GraphNode.gives_of (.lit rfl rfl <| .num <| .lit rfl rfl <| .num <| .lit rfl rfl <|
    .nil _) (by decide)).bind fun split hsplit => ?_
  refine (GraphNode.gives_of (.lit rfl rfl <| .nil _) (by decide)).bind fun palette hpalette => ?_
  refine (GraphNode.gives_of (.lit rfl rfl <| .nil _) (by decide)).bind fun applied happlied => ?_
  exact gives_ok (legible_graph (by simp [Fragment.Legible, hsplit, hpalette, happlied]))

theorem extractSubtitles_legible : Legible extractSubtitles := fun _ _ =>
  gives_bind fun _ _ => gives_bind fun _ _ => gives_ok legible_flags

theorem spriteSheet_legible : Legible spriteSheet := by
  intro p ctx
  refine gives_bind fun columns _ => gives_bind fun rows _ => ?_
  refine (gives_ofParts (.lit rfl rfl <| .num <| .lit rfl rfl <| .num <| .nil _)).bind
    fun tile htile => ?_
  refine gives_bind fun interval hinterval => gives_bind fun width _ => ?_
  refine (gives_ofParts (.lit rfl rfl <| .decimal hinterval hinterval <| .lit rfl rfl <| .num <|
    .lit rfl rfl <| .kept htile <| .nil _)).bind fun sheet hsheet => ?_
  exact gives_ok (legible_video (List.forall_mem_singleton.mpr hsheet))

theorem previewStrip_legible : Legible previewStrip := by
  intro p ctx
  refine gives_bind fun frames _ => ?_
  split
  · exact gives_error
  · refine gives_bind fun rate hrate => gives_bind fun width _ => ?_
    refine (gives_ofParts (.lit rfl rfl <| .number hrate hrate <| .lit rfl rfl <| .num <|
      .lit rfl rfl <| .num <| .lit rfl rfl <| .nil _)).bind fun strip hstrip => ?_
    exact gives_ok (legible_video (List.forall_mem_singleton.mpr hstrip))

theorem encoding_legible : ∀ entry ∈ encoding, Legible entry.2.compile := by
  simp only [encoding, List.forall_mem_cons]
  exact ⟨compress_legible, convert_legible, bitrate_legible, quality_legible, container_legible,
    audioCodec_legible, hardwareDecoding_legible, thumbnail_legible, extractFrames_legible,
    gif_legible, extractSubtitles_legible, spriteSheet_legible, previewStrip_legible, by simp⟩

end SkillPipeline.Effect
