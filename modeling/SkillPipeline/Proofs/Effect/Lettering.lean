import SkillPipeline.Effect.Lettering
import SkillPipeline.Proofs.Document.Members
import SkillPipeline.Proofs.Effect.Contract

namespace SkillPipeline.Effect

open Contribution Handler Reliance

@[simp] theorem meets_placement {r : Reliance} (position : String) (margin : Float) :
    r.Meets (placement position margin) fun _ => True := by
  simp [placement]

@[simp] theorem meets_fontOption {needs : List Need} {p : Params} {ctx : HandlerContext}
    (font : String) : Reliance.Meets ⟨needs, p, ctx⟩ (fontOption ctx.files font) fun _ => True := by
  simp [fontOption]

@[simp] theorem meets_enableBetween {r : Reliance} (start stop : Float) :
    r.Meets (enableBetween start stop) fun _ => True := meets_ofParts _

theorem meets_overlayStyle {needs : List Need} {p : Params} {ctx : HandlerContext}
    (h : [.value "text", .number "size", .value "color", .value "position", .number "start",
      .number "duration"] ⊆ needs) :
    Reliance.Meets ⟨needs, p, ctx⟩ (OverlayStyle.ofParams p) fun _ => True := by
  simp only [List.cons_subset, List.nil_subset, and_true] at h
  obtain ⟨htext, hsize, hcolor, hposition, hstart, hduration⟩ := h
  simp [OverlayStyle.ofParams, htext, hsize, hcolor, hposition, hstart, hduration]

@[simp] theorem meets_overlayEnable {r : Reliance} (blink : Float) (window : TextWindow Float) :
    r.Meets (overlayEnable blink window) fun _ => True := by
  rw [overlayEnable]
  split
  · exact meets_ofParts _
  · cases window.visible with
    | always => trivial
    | since start => exact meets_ofParts _
    | between start stop => exact meets_enableBetween start stop

theorem textOverlay_compiles :
    Compiles [.value "text", .number "size", .value "color", .value "position", .number "start",
      .number "duration", .number "margin", .flag "border", .number "blink", .value "font",
      .value "border_color", .valueIfAny "background"] textOverlay := by
  refine compiles_of_plain fun p ctx => ?_
  rw [textOverlay]
  -- The box is drawn only where a background is given.
  cases hbackground : p.has "background" <;>
    simp [meets_overlayStyle, meets_textIfAny, hbackground]

theorem lowerThird_compiles :
    Compiles [.number "fontsize", .value "fontcolor", .value "background", .number "start",
      .number "duration", .value "text", .value "subtext"] lowerThird := by
  refine compiles_of_plain fun p ctx => ?_
  simp [lowerThird]

theorem countdown_compiles :
    Compiles [.number "start_from", .number "fontsize", .value "fontcolor"] countdown := by
  refine compiles_of_plain fun p ctx => ?_
  simp [countdown]

theorem scrollingText_compiles :
    Compiles [.value "text", .number "fontsize", .value "fontcolor", .number "speed"]
      scrollingText := by
  refine compiles_of_plain fun p ctx => ?_
  simp [scrollingText]

@[simp] theorem meets_typingLayer {r : Reliance} (style : TypingStyle) (chars : List Char)
    (shown : Nat) : r.Meets (typingLayer style chars shown) fun _ => True := by
  simp [typingLayer]

theorem typewriterText_compiles :
    Compiles [.value "text", .number "size", .value "color", .value "font", .value "position",
      .number "speed", .number "start"] typewriterText := by
  refine compiles_of_plain fun p ctx => ?_
  simp [typewriterText, typingLayers]

theorem meets_subtitleColor {needs : List Need} {p : Params} {ctx : HandlerContext} {s : String}
    (hs : ∃ v, p.raw? "fontcolor" = some v ∧ s = v.shown) :
    Reliance.Meets ⟨needs, p, ctx⟩ (subtitleColor s) fun _ => True := by
  obtain ⟨v, hv, rfl⟩ := hs
  rw [subtitleColor]
  split
  · trivial
  · trivial
  · next m hfind => exact .inl ⟨m, ⟨v, hv, Members.inherited_of_find hfind⟩, rfl⟩

theorem burnSubtitles_compiles :
    Compiles [.value "path", .value "fontcolor", .number "fontsize"] burnSubtitles := by
  refine compiles_of_plain fun p ctx => ?_
  simp only [burnSubtitles, meets_bind]
  refine meets_of_forall (meets_string (by simp)) fun path => ?_
  refine meets_of_forall (meets_accept path _ _) fun resolved => ?_
  refine (meets_shown (by simp)).mono fun color hcolor => ?_
  exact meets_of_forall (meets_subtitleColor hcolor) fun color => by simp

theorem meets_textMotion {needs : List Need} {p : Params} {ctx : HandlerContext}
    (hanimation : .value "animation" ∈ needs) (hspeed : .number "speed" ∈ needs)
    (since : FilterText) :
    Reliance.Meets ⟨needs, p, ctx⟩ (textMotion p since) fun _ => True := by
  rw [textMotion, meets_bind]
  refine meets_of_forall (meets_string hanimation) fun animation => ?_
  split <;> simp [hspeed]

theorem animatedText_compiles :
    Compiles [.number "start", .value "animation", .number "speed", .value "text",
      .number "fontsize", .value "fontcolor", .number "duration"] animatedText := by
  refine compiles_of_plain fun p ctx => ?_
  simp [animatedText, meets_textMotion]

theorem ticker_compiles :
    Compiles [.number "fontsize", .value "position", .value "text", .value "fontcolor",
      .value "background", .number "speed"] ticker := by
  refine compiles_of_plain fun p ctx => ?_
  simp [ticker]

theorem bounceText_compiles :
    Compiles [.number "start", .number "height", .value "text", .number "fontsize",
      .value "fontcolor", .number "duration"] bounceText := by
  refine compiles_of_plain fun p ctx => ?_
  simp [bounceText]

theorem fadeText_compiles :
    Compiles [.number "start", .number "duration", .number "fade", .value "position",
      .value "text", .number "fontsize", .value "fontcolor"] fadeText := by
  refine compiles_of_plain fun p ctx => ?_
  simp [fadeText]

theorem meets_karaokeLayer {needs : List Need} {p : Params} {ctx : HandlerContext}
    (h : .value "fill_color" ∈ needs) (head : FilterText) (words : List (List Char))
    (start step stop : Float) (index : Nat) :
    Reliance.Meets ⟨needs, p, ctx⟩ (karaokeLayer p head words start step stop index)
      fun _ => True := by
  simp [karaokeLayer, h]

theorem karaokeText_compiles :
    Compiles [.value "text", .number "fontsize", .number "start", .number "duration",
      .number "x", .number "margin", .value "base_color", .value "fill_color"] karaokeText := by
  refine compiles_of_plain fun p ctx => ?_
  simp [karaokeText, meets_karaokeLayer]

def letteringNeeds : List (String × List Need) := [
  ("text_overlay", [.value "text", .number "size", .value "color", .value "position",
    .number "start", .number "duration", .number "margin", .flag "border", .number "blink",
    .value "font", .value "border_color", .valueIfAny "background"]),
  ("lower_third", [.number "fontsize", .value "fontcolor", .value "background", .number "start",
    .number "duration", .value "text", .value "subtext"]),
  ("countdown", [.number "start_from", .number "fontsize", .value "fontcolor"]),
  ("scrolling_text", [.value "text", .number "fontsize", .value "fontcolor", .number "speed"]),
  ("typewriter_text", [.value "text", .number "size", .value "color", .value "font",
    .value "position", .number "speed", .number "start"]),
  ("burn_subtitles", [.value "path", .value "fontcolor", .number "fontsize"]),
  ("animated_text", [.number "start", .value "animation", .number "speed", .value "text",
    .number "fontsize", .value "fontcolor", .number "duration"]),
  ("ticker", [.number "fontsize", .value "position", .value "text", .value "fontcolor",
    .value "background", .number "speed"]),
  ("bounce_text", [.number "start", .number "height", .value "text", .number "fontsize",
    .value "fontcolor", .number "duration"]),
  ("fade_text", [.number "start", .number "duration", .number "fade", .value "position",
    .value "text", .number "fontsize", .value "fontcolor"]),
  ("karaoke_text", [.value "text", .number "fontsize", .number "start", .number "duration",
    .number "x", .number "margin", .value "base_color", .value "fill_color"])]

theorem lettering_keeps : List.Forall₂ Listed lettering letteringNeeds := by
  simp only [lettering, letteringNeeds, List.forall₂_cons]
  exact ⟨⟨rfl, textOverlay_compiles.keeps rfl⟩, ⟨rfl, lowerThird_compiles.keeps rfl⟩,
    ⟨rfl, countdown_compiles.keeps rfl⟩, ⟨rfl, scrollingText_compiles.keeps rfl⟩,
    ⟨rfl, typewriterText_compiles.keeps rfl⟩, ⟨rfl, burnSubtitles_compiles.keeps rfl⟩,
    ⟨rfl, animatedText_compiles.keeps rfl⟩, ⟨rfl, ticker_compiles.keeps rfl⟩,
    ⟨rfl, bounceText_compiles.keeps rfl⟩, ⟨rfl, fadeText_compiles.keeps rfl⟩,
    ⟨rfl, karaokeText_compiles.keeps rfl⟩, .nil⟩

end SkillPipeline.Effect
