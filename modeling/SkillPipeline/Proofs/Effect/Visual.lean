import SkillPipeline.Effect.Visual
import SkillPipeline.Proofs.Effect.Contract
import SkillPipeline.Effect.Spatial

namespace SkillPipeline.Effect

open Contribution Handler Reliance

theorem chosen_compiles (table : List (String × String)) (param fallback : String) :
    Compiles [.value param] (chosen table param fallback) := by
  refine compiles_of_plain fun p ctx => ?_
  simp [chosen]

theorem valued_compiles (start param ending : String) :
    Compiles [.number param] (valued start param ending) := by
  refine compiles_of_plain fun p ctx => ?_
  simp [valued]

theorem keyed_wired (split key solid overlay : FilterText) :
    Fragment.Wired {
      nodes := [⟨[.main .video], split, ["fg", "bg"]⟩, ⟨[.label "fg"], key, ["keyed"]⟩,
        ⟨[.label "bg"], solid, ["solid"]⟩,
        ⟨[.label "solid", .label "keyed"], overlay, ["out"]⟩]
      video? := some "out" } :=
  of_decide_eq_true rfl

theorem keyed_sound (key : FilterText) (background : String) (own : List Nat) :
    (keyed key background).Sound own := by
  rw [keyed]
  split
  · exact (plain_video [key]).sound
  · exact sound_graph fun _ => (keyed_wired _ key _ _).sound_alone rfl

theorem branched_wired {untouched branch treated : String} (treatment joining : FilterText)
    (h : [untouched, branch, treated, "out"].Nodup) :
    (branched untouched branch treated treatment joining).Wired := by
  refine ⟨?_, ?_, fun medium _ => ?_, ?_⟩
  · simpa [branched, Fragment.outputs] using h
  · simp only [branched, Fragment.outputs, Fragment.labelsRead, Fragment.finals, GraphNode.reads,
      Pad.label?, List.flatMap_cons, List.flatMap_nil, List.filterMap_cons, List.filterMap_nil,
      Option.toList_some, Option.toList_none, List.append_nil, List.cons_append, List.nil_append]
    exact .swap branch untouched [treated, "out"]
  · cases medium <;> simp [branched, Fragment.pads, Fragment.reads, Fragment.replaces,
      Fragment.output?]
  · simp [branched, Fragment.Ordered, Fragment.OrderedFrom, GraphNode.reads, Pad.label?]

theorem branched_sound {untouched branch treated : String} {own : List Nat}
    (treatment joining : FilterText) (h : [untouched, branch, treated, "out"].Nodup) :
    (graph (branched untouched branch treated treatment joining)).Sound own :=
  sound_graph fun _ => (branched_wired treatment joining h).sound_alone rfl

theorem meets_fadeOutStart {r : Reliance} (skill : String) (ctx : HandlerContext)
    (length : Float) : r.Meets (fadeOutStart skill ctx length) fun _ => True := by
  rw [fadeOutStart]
  split <;> trivial

theorem vignette_compiles : Compiles [.number "intensity"] vignette := by
  refine compiles_of_plain fun p ctx => ?_
  simp [vignette]

theorem blur_compiles : Compiles [.number "radius"] blur := by
  refine compiles_of_plain fun p ctx => ?_
  simp [blur]

theorem fade_compiles : Compiles [.number "duration", .value "type", .number "start"] fade := by
  refine compiles_of_plain fun p ctx => ?_
  simp [fade, meets_fadeOutStart]

theorem chromakey_compiles :
    Compiles [.value "color", .number "similarity", .number "blend", .value "background"]
      chromakey := by
  intro p ctx
  simp [chromakey, keyed_sound]

theorem lumakey_compiles :
    Compiles [.number "threshold", .number "tolerance", .number "softness", .value "background"]
      lumakey := by
  intro p ctx
  simp [lumakey, keyed_sound]

theorem selectiveColor_compiles :
    Compiles [.number "cyan", .number "magenta", .number "yellow", .number "black",
      .value "color_range"] selectiveColor := by
  refine compiles_of_plain fun p ctx => ?_
  simp [selectiveColor]

theorem monochrome_compiles : Compiles [.value "preset", .number "size"] monochrome := by
  refine compiles_of_plain fun p ctx => ?_
  simp [monochrome]

theorem colorTemperature_compiles :
    Compiles [.number "temperature", .number "mix"] colorTemperature := by
  refine compiles_of_plain fun p ctx => ?_
  simp [colorTemperature]

theorem pixelate_compiles : Compiles [.number "factor"] pixelate := by
  refine compiles_of_plain fun p ctx => ?_
  simp [pixelate]

theorem posterize_compiles : Compiles [.number "levels"] posterize := by
  refine compiles_of_plain fun p ctx => ?_
  simp [posterize, quantised]

theorem glow_compiles : Compiles [.number "strength", .number "radius"] glow := by
  intro p ctx
  simp [glow, branched_sound]

theorem applyTable_compiles : Compiles [.number "intensity", .value "path"] applyTable := by
  intro p ctx
  simp only [applyTable, meets_bind]
  refine meets_of_forall (meets_float (by simp)) fun intensity => ?_
  refine meets_of_forall (meets_string (by simp)) fun path => ?_
  refine meets_of_forall (meets_accept _ _ _) fun resolved => ?_
  -- Only a table at part of its strength takes a fragment.
  simp [branched_sound, (plain_video _).sound, (plain_mk _ _ _ _).sound]

theorem fadePair_compiles (suffix : String) :
    Compiles [.number "in_duration", .number "out_duration"] (fadePair suffix) := by
  refine compiles_of_plain fun p ctx => ?_
  simp [fadePair, meets_fadeOutStart]

theorem flash_compiles : Compiles [.number "time", .number "duration"] flash := by
  refine compiles_of_plain fun p ctx => ?_
  simp [flash]

theorem deband_compiles : Compiles [.number "threshold", .number "range", .flag "blur"] deband := by
  refine compiles_of_plain fun p ctx => ?_
  simp [deband]

theorem chromaticAberration_compiles : Compiles [.number "amount"] chromaticAberration := by
  refine compiles_of_plain fun p ctx => ?_
  simp [chromaticAberration]

theorem ghostTrail_compiles : Compiles [.number "decay"] ghostTrail := by
  refine compiles_of_plain fun p ctx => ?_
  simp [ghostTrail]

theorem maskBlur_compiles :
    Compiles [.number "x", .number "y", .number "w", .number "h", .number "strength"]
      maskBlur := by
  intro p ctx
  simp [maskBlur, branched_sound]

theorem datamosh_compiles : Compiles [.value "mode"] datamosh := by
  refine compiles_of_plain fun p ctx => ?_
  simp [datamosh]

theorem sepia_compiles : Compiles [.number "intensity"] sepia := by
  refine compiles_of_plain fun p ctx => ?_
  simp [sepia, sepiaCell]

theorem tiltShift_compiles :
    Compiles [.number "focus_position", .number "blur_amount"] tiltShift := by
  intro p ctx
  simp [tiltShift, branched_sound]

theorem halftone_compiles : Compiles [.number "dot_size"] halftone := by
  refine compiles_of_plain fun p ctx => ?_
  simp [halftone]

theorem colorhold_compiles :
    Compiles [.value "color", .number "similarity", .number "blend"] colorhold := by
  refine compiles_of_plain fun p ctx => ?_
  simp [colorhold]

theorem despill_compiles :
    Compiles [.value "type", .number "mix", .number "expand", .number "brightness"] despill := by
  refine compiles_of_plain fun p ctx => ?_
  simp [despill]

theorem comicBook_wired (split ink flat blend : FilterText) :
    Fragment.Wired {
      nodes := [⟨[.main .video], split, ["base", "lines"]⟩, ⟨[.label "lines"], ink, ["ink"]⟩,
        ⟨[.label "base"], flat, ["flat"]⟩, ⟨[.label "flat", .label "ink"], blend, ["out"]⟩]
      video? := some "out" } :=
  of_decide_eq_true rfl

theorem comicBook_compiles : Compiles [.value "style"] comicBook := by
  intro p ctx
  simp only [comicBook, quantised, meets_bind, meets_pure]
  refine meets_of_forall (meets_string (by simp)) fun style => ?_
  refine meets_of_forall (meets_ofParts _) fun expr => ?_
  refine meets_of_forall (meets_ofParts _) fun flat => ?_
  exact sound_graph fun _ => (comicBook_wired _ _ flat _).sound_alone rfl

def visualNeeds : List (String × List Need) := [
  ("brightness", [.number "value"]),
  ("contrast", [.number "value"]),
  ("saturation", [.number "value"]),
  ("hue", [.number "value"]),
  ("sharpen", [.number "amount"]),
  ("blur", [.number "radius"]),
  ("denoise", [.value "strength"]),
  ("vignette", [.number "intensity"]),
  ("fade", [.number "duration", .value "type", .number "start"]),
  ("color_grade", [.value "style"]),
  ("chromakey", [.value "color", .number "similarity", .number "blend", .value "background"]),
  ("lumakey", [.number "threshold", .number "tolerance", .number "softness", .value "background"]),
  ("selective_color", [.number "cyan", .number "magenta", .number "yellow", .number "black",
    .value "color_range"]),
  ("monochrome", [.value "preset", .number "size"]),
  ("color_temperature", [.number "temperature", .number "mix"]),
  ("pixelate", [.number "factor"]),
  ("posterize", [.number "levels"]),
  ("glow", [.number "strength", .number "radius"]),
  ("lut_apply", [.number "intensity", .value "path"]),
  ("fade_to_black", [.number "in_duration", .number "out_duration"]),
  ("fade_to_white", [.number "in_duration", .number "out_duration"]),
  ("flash", [.number "time", .number "duration"]),
  ("deband", [.number "threshold", .number "range", .flag "blur"]),
  ("chromatic_aberration", [.number "amount"]),
  ("sketch", [.value "mode"]),
  ("ghost_trail", [.number "decay"]),
  ("mask_blur", [.number "x", .number "y", .number "w", .number "h", .number "strength"]),
  ("datamosh", [.value "mode"]),
  ("sepia", [.number "intensity"]),
  ("tilt_shift", [.number "focus_position", .number "blur_amount"]),
  ("halftone", [.number "dot_size"]),
  ("false_color", [.value "palette"]),
  ("color_channel_swap", [.value "preset"]),
  ("colorhold", [.value "color", .number "similarity", .number "blend"]),
  ("despill", [.value "type", .number "mix", .number "expand", .number "brightness"]),
  ("comic_book", [.value "style"])]

theorem visual_keeps : List.Forall₂ Listed visual visualNeeds := by
  simp only [visual, visualNeeds, List.forall₂_cons]
  exact ⟨⟨rfl, (valued_compiles _ _ _).keeps rfl⟩, ⟨rfl, (valued_compiles _ _ _).keeps rfl⟩,
    ⟨rfl, (valued_compiles _ _ _).keeps rfl⟩, ⟨rfl, (valued_compiles _ _ _).keeps rfl⟩,
    ⟨rfl, (valued_compiles _ _ _).keeps rfl⟩, ⟨rfl, blur_compiles.keeps rfl⟩,
    ⟨rfl, (chosen_compiles _ _ _).keeps rfl⟩, ⟨rfl, vignette_compiles.keeps rfl⟩,
    ⟨rfl, fade_compiles.keeps rfl⟩, ⟨rfl, (chosen_compiles _ _ _).keeps rfl⟩,
    ⟨rfl, chromakey_compiles.keeps rfl⟩, ⟨rfl, lumakey_compiles.keeps rfl⟩,
    ⟨rfl, selectiveColor_compiles.keeps rfl⟩, ⟨rfl, monochrome_compiles.keeps rfl⟩,
    ⟨rfl, colorTemperature_compiles.keeps rfl⟩, ⟨rfl, pixelate_compiles.keeps rfl⟩,
    ⟨rfl, posterize_compiles.keeps rfl⟩, ⟨rfl, glow_compiles.keeps rfl⟩,
    ⟨rfl, applyTable_compiles.keeps rfl⟩, ⟨rfl, (fadePair_compiles _).keeps rfl⟩,
    ⟨rfl, (fadePair_compiles _).keeps rfl⟩, ⟨rfl, flash_compiles.keeps rfl⟩,
    ⟨rfl, deband_compiles.keeps rfl⟩, ⟨rfl, chromaticAberration_compiles.keeps rfl⟩,
    ⟨rfl, (chosen_compiles _ _ _).keeps rfl⟩, ⟨rfl, ghostTrail_compiles.keeps rfl⟩,
    ⟨rfl, maskBlur_compiles.keeps rfl⟩, ⟨rfl, datamosh_compiles.keeps rfl⟩,
    ⟨rfl, sepia_compiles.keeps rfl⟩, ⟨rfl, tiltShift_compiles.keeps rfl⟩,
    ⟨rfl, halftone_compiles.keeps rfl⟩, ⟨rfl, (chosen_compiles _ _ _).keeps rfl⟩,
    ⟨rfl, (chosen_compiles _ _ _).keeps rfl⟩, ⟨rfl, colorhold_compiles.keeps rfl⟩,
    ⟨rfl, despill_compiles.keeps rfl⟩, ⟨rfl, comicBook_compiles.keeps rfl⟩, .nil⟩

end SkillPipeline.Effect

namespace SkillPipeline.Effect

open Contribution Handler Reliance

theorem resize_compiles : Compiles [.number "width", .number "height"] resize := by
  refine compiles_of_plain fun p ctx => ?_
  simp [resize]

theorem crop_compiles :
    Compiles [.value "width", .value "height", .value "x", .value "y"] crop := by
  refine compiles_of_plain fun p ctx => ?_
  simp [crop]

theorem pad_compiles :
    Compiles [.value "width", .value "height", .value "x", .value "y", .value "color"]
      Effect.pad := by
  refine compiles_of_plain fun p ctx => ?_
  simp [Effect.pad]

theorem rotate_compiles : Compiles [.number "angle", .value "fill"] rotate := by
  refine compiles_of_plain fun p ctx => ?_
  simp [rotate]

theorem flip_compiles : Compiles [.value "direction"] Effect.flip := by
  refine compiles_of_plain fun p ctx => ?_
  simp [Effect.flip]

theorem meets_zoomOffset {needs : List Need} {p : Params} {ctx : HandlerContext}
    {name size : String} {factor : Float} (h : Need.numberIfAny name ∈ needs) :
    Reliance.Meets ⟨needs, p, ctx⟩ (zoomOffset p name size factor) fun _ => True := by
  rw [zoomOffset, meets_ite, meets_bind]
  constructor
  · intro hhas
    exact meets_of_forall (meets_floatIfAny hhas h) fun middle => meets_ofParts _
  · intro _
    exact meets_ofParts _

theorem zoom_compiles :
    Compiles [.number "factor", .numberIfAny "x", .numberIfAny "y"] zoom := by
  refine compiles_of_plain fun p ctx => ?_
  simp [zoom, meets_zoomOffset]

theorem kenBurns_compiles :
    Compiles [.number "amount", .number "duration", .value "direction"] kenBurns := by
  refine compiles_of_plain fun p ctx => ?_
  simp only [kenBurns, meets_bind]
  refine meets_of_forall (meets_float (by simp)) fun amount => ?_
  refine meets_of_forall (meets_float (by simp)) fun seconds => ?_
  refine meets_of_forall (meets_ofParts _) fun size => ?_
  refine meets_of_forall (meets_places _ _) fun rate => ?_
  refine meets_of_forall (meets_string (by simp)) fun direction => ?_
  split <;> simp

theorem drift_compiles : Compiles [.number "amount", .value "direction"] drift := by
  refine compiles_of_plain fun p ctx => ?_
  simp only [drift, meets_bind]
  refine meets_of_forall (meets_int (by simp)) fun amount => ?_
  refine meets_of_forall (meets_string (by simp)) fun direction => ?_
  split <;> simp

theorem aspect_compiles : Compiles [.value "ratio", .value "mode", .value "color"] aspect := by
  refine compiles_of_plain fun p ctx => ?_
  rw [aspect, meets_bind]
  refine meets_of_forall (meets_string (by simp)) fun ratio => ?_
  cases parseRatio ratio with
  | none => simp
  | some r =>
    simp only [meets_bind]
    refine meets_of_forall (meets_ofParts _) fun wide => ?_
    refine meets_of_forall (meets_string (by simp)) fun mode => ?_
    split <;> simp

theorem mirror_wired (mode : String) :
    Fragment.Wired { nodes := mirrorNodes mode, video? := some "out" } := by
  unfold mirrorNodes
  split <;> exact of_decide_eq_true rfl

theorem mirror_indices (mode : String) :
    Fragment.indices { nodes := mirrorNodes mode, video? := some "out" } = [] := by
  unfold mirrorNodes
  split <;> rfl

theorem mirror_compiles : Compiles [.value "mode"] mirror := by
  intro p ctx
  rw [mirror, meets_bind]
  refine meets_of_forall (meets_string (by simp)) fun mode => ?_
  exact sound_graph fun _ => (mirror_wired mode).sound_alone (mirror_indices mode)

theorem captionSpace_compiles :
    Compiles [.number "height", .value "position", .value "color"] captionSpace := by
  refine compiles_of_plain fun p ctx => ?_
  simp [captionSpace]

theorem meets_corners {r : Reliance} (preset : String) (s : FilterText) :
    r.Meets (corners preset s) fun _ => True := by
  unfold corners
  split <;> exact meets_ofParts _

theorem perspective_compiles : Compiles [.value "preset", .number "strength"] perspective := by
  refine compiles_of_plain fun p ctx => ?_
  simp [perspective, meets_corners]

theorem lensCorrection_compiles : Compiles [.number "k1", .number "k2"] lensCorrection := by
  refine compiles_of_plain fun p ctx => ?_
  simp [lensCorrection]

theorem spin_compiles : Compiles [.number "speed", .value "direction", .value "fill"] spin := by
  refine compiles_of_plain fun p ctx => ?_
  simp [spin]

theorem shake_compiles : Compiles [.value "intensity"] shake := by
  refine compiles_of_plain fun p ctx => ?_
  simp [shake]

theorem pulse_compiles : Compiles [.number "amount", .number "rate"] pulse := by
  refine compiles_of_plain fun p ctx => ?_
  simp [pulse]

theorem bounce_compiles : Compiles [.number "height", .number "speed"] bounce := by
  refine compiles_of_plain fun p ctx => ?_
  simp [bounce]

theorem irisReveal_compiles : Compiles [.number "duration"] irisReveal := by
  refine compiles_of_plain fun p ctx => ?_
  simp [irisReveal, revealMask]

theorem wipe_compiles : Compiles [.number "duration", .value "direction"] wipe := by
  refine compiles_of_plain fun p ctx => ?_
  simp only [wipe, meets_bind]
  refine meets_of_forall (meets_paramDecimal (by simp)) fun d => ?_
  refine meets_of_forall (meets_ofParts _) fun progress => ?_
  refine meets_of_forall (meets_string (by simp)) fun direction => ?_
  split <;> simp [revealMask]

theorem slideIn_compiles : Compiles [.number "duration", .value "direction"] slideIn := by
  refine compiles_of_plain fun p ctx => ?_
  simp only [slideIn, meets_bind]
  refine meets_of_forall (meets_paramDecimal (by simp)) fun d => ?_
  refine meets_of_forall (meets_ofParts _) fun done => ?_
  refine meets_of_forall (meets_string (by simp)) fun direction => ?_
  split <;> simp

theorem scroll_compiles : Compiles [.number "speed", .value "direction"] scroll := by
  refine compiles_of_plain fun p ctx => ?_
  simp [scroll]

theorem fillBorders_compiles :
    Compiles [.number "left", .number "right", .number "top", .number "bottom", .value "mode"]
      fillBorders := by
  refine compiles_of_plain fun p ctx => ?_
  simp [fillBorders]

theorem deshake_compiles : Compiles [.number "rx", .number "ry", .value "edge"] deshake := by
  refine compiles_of_plain fun p ctx => ?_
  simp [deshake]

def spatialNeeds : List (String × List Need) := [
  ("resize", [.number "width", .number "height"]),
  ("crop", [.value "width", .value "height", .value "x", .value "y"]),
  ("pad", [.value "width", .value "height", .value "x", .value "y", .value "color"]),
  ("rotate", [.number "angle", .value "fill"]),
  ("flip", [.value "direction"]),
  ("zoom", [.number "factor", .numberIfAny "x", .numberIfAny "y"]),
  ("ken_burns", [.number "amount", .number "duration", .value "direction"]),
  ("drift", [.number "amount", .value "direction"]),
  ("aspect", [.value "ratio", .value "mode", .value "color"]),
  ("mirror", [.value "mode"]),
  ("caption_space", [.number "height", .value "position", .value "color"]),
  ("perspective", [.value "preset", .number "strength"]),
  ("lens_correction", [.number "k1", .number "k2"]),
  ("spin", [.number "speed", .value "direction", .value "fill"]),
  ("shake", [.value "intensity"]),
  ("pulse", [.number "amount", .number "rate"]),
  ("bounce", [.number "height", .number "speed"]),
  ("iris_reveal", [.number "duration"]),
  ("wipe", [.number "duration", .value "direction"]),
  ("slide_in", [.number "duration", .value "direction"]),
  ("scroll", [.number "speed", .value "direction"]),
  ("fill_borders", [.number "left", .number "right", .number "top", .number "bottom",
    .value "mode"]),
  ("deshake", [.number "rx", .number "ry", .value "edge"])]

theorem spatial_keeps : List.Forall₂ Listed spatial spatialNeeds := by
  simp only [spatial, spatialNeeds, List.forall₂_cons]
  exact ⟨⟨rfl, resize_compiles.keeps rfl⟩, ⟨rfl, crop_compiles.keeps rfl⟩,
    ⟨rfl, pad_compiles.keeps rfl⟩, ⟨rfl, rotate_compiles.keeps rfl⟩, ⟨rfl, flip_compiles.keeps rfl⟩,
    ⟨rfl, zoom_compiles.keeps rfl⟩, ⟨rfl, kenBurns_compiles.keeps rfl⟩,
    ⟨rfl, drift_compiles.keeps rfl⟩, ⟨rfl, aspect_compiles.keeps rfl⟩,
    ⟨rfl, mirror_compiles.keeps rfl⟩, ⟨rfl, captionSpace_compiles.keeps rfl⟩,
    ⟨rfl, perspective_compiles.keeps rfl⟩, ⟨rfl, lensCorrection_compiles.keeps rfl⟩,
    ⟨rfl, spin_compiles.keeps rfl⟩, ⟨rfl, shake_compiles.keeps rfl⟩,
    ⟨rfl, pulse_compiles.keeps rfl⟩, ⟨rfl, bounce_compiles.keeps rfl⟩,
    ⟨rfl, irisReveal_compiles.keeps rfl⟩, ⟨rfl, wipe_compiles.keeps rfl⟩,
    ⟨rfl, slideIn_compiles.keeps rfl⟩, ⟨rfl, scroll_compiles.keeps rfl⟩,
    ⟨rfl, fillBorders_compiles.keeps rfl⟩, ⟨rfl, deshake_compiles.keeps rfl⟩, .nil⟩

end SkillPipeline.Effect
