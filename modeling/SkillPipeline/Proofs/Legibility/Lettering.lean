import SkillPipeline.Effect.Lettering
import SkillPipeline.Proofs.Document.Members
import SkillPipeline.Proofs.Legibility.Contract

namespace SkillPipeline.Effect

open Contribution FilterText Handler Outcome

structure Placement.Closed (position : Placement) : Prop where
  x : position.x.Closed
  y : position.y.Closed

theorem closed_placement (position : String) (margin : Float) :
    Gives Placement.Closed (placement position margin) := by
  refine (gives_ofParts (r := .outside) (.num <| .nil _)).bind fun near hnear => ?_
  refine (gives_ofParts (.lit rfl rfl <| .num <| .nil _)).bind fun right hright => ?_
  refine (gives_ofParts (.lit rfl rfl <| .num <| .nil _)).bind fun bottom hbottom => gives_ok ?_
  have hmiddleX : (wording "(w-text_w)/2").Closed := closed_wording rfl rfl
  have hmiddleY : (wording "(h-text_h)/2").Closed := closed_wording rfl rfl
  split
  · exact ⟨hmiddleX, hnear⟩
  · exact ⟨hmiddleX, hbottom⟩
  · exact ⟨hnear, hnear⟩
  · exact ⟨hright, hnear⟩
  · exact ⟨hnear, hbottom⟩
  · exact ⟨hright, hbottom⟩
  · exact ⟨hmiddleX, hmiddleY⟩

theorem closed_enableBetween (start stop : Float) : Gives Closed (enableBetween start stop) :=
  gives_ofParts (.opens rfl rfl <| .num <| .within rfl rfl <| .num <| .closes rfl rfl <| .nil _)

theorem linked_enableBetween {start stop start' stop' : Float} :
    Linked FilterText.Alike (enableBetween start stop) (enableBetween start' stop') :=
  linked_ofParts (.opens rfl rfl <| .num <| .within rfl rfl <| .num <| .closes rfl rfl <| .nil _)
    (by decide)

theorem closed_overlayEnable (blink : Float) (window : TextWindow Float) :
    Gives Closed (overlayEnable blink window) := by
  rw [overlayEnable]
  split
  · exact gives_ofParts (.opens rfl rfl <| .num <| .within rfl rfl <| .num <| .closes rfl rfl <|
      .nil _)
  · split
    · exact gives_ok rfl
    · exact gives_ofParts (.opens rfl rfl <| .num <| .closes rfl rfl <| .nil _)
    · exact closed_enableBetween _ _

theorem neutral_fontOption (files : FileSystem) (font : String) :
    Gives (fun t => Filter.Neutral t.chars) (fontOption files font) := by
  have hoption {s : String} (h : Filter.Neutral s.toList) (raw : String) :
      Filter.Neutral (wording s ++ escaped raw).chars := by
    rw [chars_append, chars_wording, chars_escaped]
    exact h.append (Filter.neutral_escapeChars _)
  rw [fontOption]
  split
  · exact gives_bind fun path _ => gives_ok (hoption (by decide) path)
  · exact gives_ok (hoption (by decide) font)

variable {ρ : Renaming} {free : List (String × Freedom)} {p q : Params} {ctx : HandlerContext}

theorem linked_fontOption {files : FileSystem} {font font' : String} :
    Linked (fun t u => Filter.ReadAlike .outside t.chars u.chars .outside) (fontOption files font)
      (fontOption files font') :=
  fun t u ht hu =>
    (neutral_fontOption files font t ht).readAlike (neutral_fontOption files font' u hu)

theorem countdown_legible : Legible countdown := fun _ _ =>
  gives_bind fun _ _ => gives_bind fun _ _ => gives_bind fun _ hcolor =>
    legible_videoOf (.opens rfl rfl <| .num <| .closes rfl rfl <| .num <| .lit rfl rfl <|
      .text hcolor hcolor <| .opens rfl rfl <| .num <| .closes rfl rfl <| .nil _)

namespace OverlayStyle

def SameButText (a b : OverlayStyle) : Prop := ∃ text, b = { a with text }

theorem SameButText.override {a b : OverlayStyle} (h : a.SameButText b)
    (payload : Option TextPayload) : (a.override payload).SameButText (b.override payload) := by
  obtain ⟨text, rfl⟩ := h
  cases payload with
  | none => exact ⟨text, rfl⟩
  | some payload => cases payload <;> exact ⟨_, rfl⟩

theorem linked_ofParams (h : Params.Vary [("text", .any), ("font", .any)] p q) :
    Linked SameButText (ofParams p) (ofParams q) := by
  refine linked_bind fun text text' _ _ => ?_
  refine linked_same (h.int_eq (by decide) none) fun size _ => ?_
  refine linked_same (h.string_eq (by decide) none) fun color _ => ?_
  refine linked_same (h.string_eq (by decide) none) fun position _ => ?_
  refine linked_same (h.float_eq (by decide) none) fun start _ => ?_
  refine linked_same (h.float_eq (by decide) none) fun duration _ => ?_
  exact linked_ok ⟨text', rfl⟩

end OverlayStyle

theorem textOverlay_reads : Reads [("text", .any), ("font", .any)] textOverlay := by
  intro ρ p q ctx h
  refine (OverlayStyle.linked_ofParams h).bind fun given given' hgiven => ?_
  have hstyle := hgiven.override (TextPayload.first? ctx.textInputs)
  generalize given.override (TextPayload.first? ctx.textInputs) = style,
    given'.override (TextPayload.first? ctx.textInputs) = style' at hstyle
  obtain ⟨text, rfl⟩ := hstyle
  refine linked_same (h.int_eq (by decide) none) fun margin _ => ?_
  refine linked_same rfl fun position hposition => ?_
  obtain ⟨hx, hy⟩ := closed_placement _ _ position hposition
  refine linked_same (h.bool_eq (by decide) none) fun border _ => ?_
  have htext := readAlike_escaped style.text text
  -- With a box or without one, the same options follow.
  dsimp only
  rw [h.has_eq "background"]
  split
  · refine linked_same (h.text_eq (by decide) none) fun background hbackground => ?_
    refine linked_same rfl fun box hbox => ?_
    have hbox : box.Closed := gives_ofParts (.lit rfl rfl <| .text hbackground hbackground <|
      .lit rfl rfl <| .nil _) box hbox
    refine linked_same (h.float_eq (by decide) none) fun blink _ => ?_
    refine linked_same rfl fun enable henable => ?_
    have henable := closed_overlayEnable _ _ enable henable
    refine linked_bind fun _ _ _ _ => linked_fontOption.bind fun font font' hfont => ?_
    refine linked_same (h.text_eq (by decide) none) fun borderColor hborder => ?_
    exact linked_videoOf (.lit rfl rfl <| .sub htext <| .lit rfl rfl <| .sub hfont <|
      .lit rfl rfl <| .num <| .lit rfl rfl <| .kept (closed_escaped _) <| .lit rfl rfl <| .num <|
      .lit rfl rfl <| .text hborder hborder <| .lit rfl rfl <| .kept hx <| .lit rfl rfl <|
      .kept hy <| .kept hbox <| .kept henable <| .nil _) (by decide)
  · refine linked_same rfl fun box hbox => ?_
    cases hbox
    refine linked_same (h.float_eq (by decide) none) fun blink _ => ?_
    refine linked_same rfl fun enable henable => ?_
    have henable := closed_overlayEnable _ _ enable henable
    refine linked_bind fun _ _ _ _ => linked_fontOption.bind fun font font' hfont => ?_
    refine linked_same (h.text_eq (by decide) none) fun borderColor hborder => ?_
    exact linked_videoOf (.lit rfl rfl <| .sub htext <| .lit rfl rfl <| .sub hfont <|
      .lit rfl rfl <| .num <| .lit rfl rfl <| .kept (closed_escaped _) <| .lit rfl rfl <| .num <|
      .lit rfl rfl <| .text hborder hborder <| .lit rfl rfl <| .kept hx <| .lit rfl rfl <|
      .kept hy <| .kept (t := .empty) rfl <| .kept henable <| .nil _) (by decide)

/-- With no text below it a title stands alone, and a text below is free otherwise. -/
theorem lowerThird_reads : Reads [("text", .any), ("subtext", .any)] lowerThird := by
  intro ρ p q ctx h
  refine linked_same (h.int_eq (by decide) none) fun size _ => ?_
  refine linked_same (h.text_eq (by decide) none) fun color hcolor => ?_
  refine linked_same (h.text_eq (by decide) none) fun background hbackground => ?_
  refine linked_same (h.float_eq (by decide) none) fun start _ => ?_
  refine linked_same (h.float_eq (by decide) none) fun duration _ => ?_
  refine linked_same rfl fun enable henable => ?_
  have henable := closed_enableBetween _ _ enable henable
  refine linked_bind fun text text' htext htext' => ?_
  refine (linked_ofParts (.lit rfl rfl <| .text htext htext' <| .lit rfl rfl <| .num <|
    .lit rfl rfl <| .text hcolor hcolor <| .lit rfl rfl <| .text hbackground hbackground <|
    .lit rfl rfl <| .kept henable <| .nil _) (by decide)).bind fun title title' htitle => ?_
  refine (h.linked_isEmpty "subtext").bind fun subtext subtext' hempty => ?_
  by_cases hsubtext : subtext' = ""
  · rw [if_pos hsubtext, if_pos (hempty.mpr hsubtext)]
    exact linked_ok (contributions_video (.cons htitle .nil))
  · rw [if_neg hsubtext, if_neg (mt hempty.mp hsubtext)]
    refine (linked_ofParts (.lit rfl rfl <| .sub (readAlike_escaped subtext subtext') <|
      .lit rfl rfl <| .num <| .lit rfl rfl <| .text hcolor hcolor <| .lit rfl rfl <| .num <|
      .lit rfl rfl <| .text hbackground hbackground <| .lit rfl rfl <| .kept henable <|
      .nil _) (by decide)).bind fun subtitle subtitle' hsubtitle => ?_
    exact linked_ok (contributions_video (.cons htitle (.cons hsubtitle .nil)))

theorem scrollingText_reads : Reads free scrollingText := by
  intro ρ p q ctx _
  refine linked_bind fun text text' htext htext' => linked_bind fun _ _ _ _ => ?_
  refine linked_bind fun color color' hcolor hcolor' => linked_bind fun _ _ _ _ => ?_
  exact linked_videoOf (.lit rfl rfl <| .text htext htext' <| .lit rfl rfl <| .num <|
    .lit rfl rfl <| .text hcolor hcolor' <| .lit rfl rfl <| .num <| .nil _) (by decide)

/-- Styles that are read alike, in layers of one length. -/
structure TypingStyle.Alike (style style' : TypingStyle) : Prop where
  color : Filter.ReadAlike .outside style.color.chars style'.color.chars .outside
  font : Filter.ReadAlike .outside style.font.chars style'.font.chars .outside
  x : Filter.ReadAlike .outside style.position.x.chars style'.position.x.chars .outside
  y : Filter.ReadAlike .outside style.position.y.chars style'.position.y.chars .outside

theorem linked_typingLayer {style style' : TypingStyle} (h : style.Alike style')
    {chars chars' : List Char} (hlength : chars.length = chars'.length) (shown : Nat) :
    Linked FilterText.Alike (typingLayer style chars shown) (typingLayer style' chars' shown) := by
  refine linked_bind fun opening opening' hopening hopening' => ?_
  dsimp only
  rw [hlength]
  split
  · refine linked_bind fun closing closing' hclosing hclosing' => ?_
    refine (linked_ofParts (.opens rfl rfl <| .number hopening hopening' <| .within rfl rfl <|
      .number hclosing hclosing' <| .closes rfl rfl <| .nil _) (by decide)).bind
        fun enable enable' henable => ?_
    exact linked_ofParts (.lit rfl rfl <| .sub (readAlike_escaped _ _) <| .lit rfl rfl <|
      .sub h.font <| .lit rfl rfl <| .num <| .lit rfl rfl <| .sub h.color <| .lit rfl rfl <|
      .sub h.x <| .lit rfl rfl <| .sub h.y <| .sub henable.read <| .nil _) (by decide)
  · refine (linked_ofParts (.opens rfl rfl <| .number hopening hopening' <| .closes rfl rfl <|
      .nil _) (by decide)).bind fun enable enable' henable => ?_
    exact linked_ofParts (.lit rfl rfl <| .sub (readAlike_escaped _ _) <| .lit rfl rfl <|
      .sub h.font <| .lit rfl rfl <| .num <| .lit rfl rfl <| .sub h.color <| .lit rfl rfl <|
      .sub h.x <| .lit rfl rfl <| .sub h.y <| .sub henable.read <| .nil _) (by decide)

theorem linked_typingLayers {style style' : TypingStyle} (h : style.Alike style')
    {chars chars' : List Char} (hlength : chars.length = chars'.length) :
    Linked (List.Forall₂ FilterText.Alike) (typingLayers style chars)
      (typingLayers style' chars') := by
  rw [typingLayers, typingLayers, ← hlength]
  refine linked_mapM (List.forall₂_same.mpr fun n _ => Eq.refl n) fun n m hnm => ?_
  subst hnm
  exact linked_typingLayer h hlength (n + 1)

theorem typewriterText_reads : Reads [("text", .length), ("font", .any)] typewriterText := by
  intro ρ p q ctx h
  refine (h.linked_string "text").bind fun text text' htext => ?_
  have hlength : text.toList.length = text'.toList.length := by
    obtain rfl | ⟨freedom, hmem, hallows⟩ := htext
    · rfl
    · obtain rfl : freedom = .length := by simpa using hmem
      exact hallows.2
  refine linked_bind fun _ _ _ _ => linked_bind fun color color' hcolor hcolor' => ?_
  refine linked_bind fun _ _ _ _ => linked_fontOption.bind fun font font' hfont => ?_
  refine linked_same (h.string_eq (by decide) none) fun position _ => ?_
  refine linked_same rfl fun position hposition => ?_
  obtain ⟨hx, hy⟩ := closed_placement _ _ position hposition
  refine linked_bind fun _ _ _ _ => linked_bind fun _ _ _ _ => ?_
  refine (linked_typingLayers ?_ hlength).bind fun layers layers' hlayers =>
    linked_ok (contributions_video hlayers)
  exact ⟨readAlike_paramText hcolor hcolor', hfont, Filter.readAlike_refl hx,
    Filter.readAlike_refl hy⟩

/-- There is nothing to escape in a colour of subtitles, so it may stand in a section. -/
theorem inert_subtitleColor {name color : String} (h : subtitleColor name = .ok color) :
    (escaped color).Inert := by
  refine inert_escaped ?_
  have hcolors : ∀ entry ∈ subtitleColors, entry.2.toList.all Filter.isPlain = true := by decide
  rw [subtitleColor, Members.find] at h
  cases hname : Members.get? subtitleColors (Text.lower name) with
  | some found =>
    rw [hname] at h
    obtain rfl := Except.ok.inj h
    exact hcolors (_, found) (Members.mem_of_get? hname)
  | none =>
    rw [hname] at h
    cases hfind : Inherited.find? (Text.lower name) with
    | some m =>
      rw [hfind] at h
      cases h
    | none =>
      rw [hfind] at h
      obtain rfl := Except.ok.inj h
      exact hcolors ("white", "&H00FFFFFF") List.mem_cons_self

theorem burnSubtitles_reads : Reads free burnSubtitles := by
  intro ρ p q ctx _
  refine linked_bind fun _ _ _ _ => linked_bind fun path path' _ _ => ?_
  refine linked_bind fun _ _ _ _ => linked_bind fun color color' hcolor hcolor' => ?_
  refine linked_bind fun _ _ _ _ => ?_
  exact linked_videoOf (.lit rfl rfl <| .sub (readAlike_escaped path path') <| .opens rfl rfl <|
    .num <| .within rfl rfl <| .inert (inert_subtitleColor hcolor) (inert_subtitleColor hcolor') <|
    .closes rfl rfl <| .nil _) (by decide)

theorem closed_textMotion {since : FilterText}
    (h : Filter.Reading.quoted.after since.chars = .quoted) :
    Gives Closed (textMotion p since) := by
  refine gives_bind fun animation _ => ?_
  split
  · exact gives_ofParts (.opens rfl rfl <| .kept h <| .closes rfl rfl <| .nil _)
  · exact gives_bind fun speed _ => gives_ofParts (.opens rfl rfl <| .kept h <| .within rfl rfl <|
      .num <| .closes rfl rfl <| .nil _)
  · exact gives_bind fun speed _ => gives_ofParts (.opens rfl rfl <| .kept h <| .within rfl rfl <|
      .num <| .closes rfl rfl <| .nil _)
  · exact gives_ok (closed_wording rfl rfl)

theorem textMotion_eq (h : Params.Vary [("text", .any)] p q) (since : FilterText) :
    textMotion p since = textMotion q since := by
  unfold textMotion
  rw [h.string_eq (by decide), h.int_eq (by decide)]

theorem after_since (start : Float) :
    Gives (fun t => Filter.Reading.quoted.after t.chars = .quoted)
      (ofParts [.lit "(t-", .num start, .lit ")"]) :=
  gives_ofParts (.within rfl rfl <| .num <| .within rfl rfl <| .nil _)

theorem animatedText_reads : Reads [("text", .any)] animatedText := by
  intro ρ p q ctx h
  refine linked_same (h.float_eq (by decide) none) fun start _ => ?_
  refine linked_same rfl fun since hsince => ?_
  refine linked_same (textMotion_eq h since) fun motion hmotion => ?_
  have hmotion := closed_textMotion (after_since start since hsince) motion hmotion
  refine linked_bind fun text text' htext htext' => linked_bind fun _ _ _ _ => ?_
  refine linked_bind fun color color' hcolor hcolor' => ?_
  refine linked_same (h.float_eq (by decide) none) fun duration _ => ?_
  refine linked_same rfl fun enable henable => ?_
  have henable := closed_enableBetween _ _ enable henable
  exact linked_videoOf (.lit rfl rfl <| .text htext htext' <| .lit rfl rfl <| .num <|
    .lit rfl rfl <| .text hcolor hcolor' <| .lit rfl rfl <| .kept hmotion <| .kept henable <|
    .nil _) (by decide)

theorem ticker_reads : Reads [("text", .any)] ticker := by
  intro ρ p q ctx h
  refine linked_bind fun _ _ _ _ => ?_
  refine linked_same (h.string_eq (by decide) none) fun position _ => ?_
  refine linked_bind fun text text' htext htext' => ?_
  refine linked_bind fun color color' hcolor hcolor' => ?_
  refine linked_bind fun background background' hbackground hbackground' => ?_
  refine linked_bind fun _ _ _ _ => ?_
  have hplace : (wording (if position = "top" then "12" else "h-text_h-12")).Closed := by
    split <;> exact closed_wording rfl rfl
  exact linked_videoOf (.lit rfl rfl <| .text htext htext' <| .lit rfl rfl <| .num <|
    .lit rfl rfl <| .text hcolor hcolor' <| .lit rfl rfl <| .text hbackground hbackground' <|
    .lit rfl rfl <| .num <| .lit rfl rfl <| .wording hplace <| .nil _) (by decide)

theorem bounceText_reads : Reads [("text", .any)] bounceText := by
  intro ρ p q ctx h
  refine linked_same (h.float_eq (by decide) none) fun start _ => ?_
  refine linked_same rfl fun since hsince => ?_
  have hsince := after_since start since hsince
  refine linked_same (h.int_eq (by decide) none) fun height _ => ?_
  refine linked_same rfl fun y hy => ?_
  have hy : Filter.Reading.quoted.after y.chars = .quoted := gives_ofParts (.within rfl rfl <|
    .kept hsince <| .within rfl rfl <| .num <| .within rfl rfl <| .kept hsince <|
    .within rfl rfl <| .nil _) y hy
  refine linked_bind fun text text' htext htext' => linked_bind fun _ _ _ _ => ?_
  refine linked_bind fun color color' hcolor hcolor' => ?_
  refine linked_same (h.float_eq (by decide) none) fun duration _ => ?_
  refine linked_same rfl fun enable henable => ?_
  have henable := closed_enableBetween _ _ enable henable
  exact linked_videoOf (.lit rfl rfl <| .text htext htext' <| .lit rfl rfl <| .num <|
    .lit rfl rfl <| .text hcolor hcolor' <| .opens rfl rfl <| .kept hy <| .closes rfl rfl <|
    .kept henable <| .nil _) (by decide)

theorem fadeText_reads : Reads [("text", .any)] fadeText := by
  intro ρ p q ctx h
  refine linked_same (h.float_eq (by decide) none) fun start _ => ?_
  refine linked_same (h.float_eq (by decide) none) fun duration _ => ?_
  refine linked_same (h.float_eq (by decide) none) fun fade _ => ?_
  split
  · exact linked_error
  · refine linked_same rfl fun alpha halpha => ?_
    have halpha : Filter.Reading.quoted.after alpha.chars = .quoted := gives_ofParts
      (.within rfl rfl <| .num <| .within rfl rfl <| .num <| .within rfl rfl <| .num <|
        .within rfl rfl <| .num <| .within rfl rfl <| .num <| .within rfl rfl <| .num <|
        .within rfl rfl <| .nil _) alpha halpha
    refine linked_same (h.string_eq (by decide) none) fun place _ => ?_
    refine linked_same rfl fun position hposition => ?_
    obtain ⟨hx, hy⟩ := closed_placement _ _ position hposition
    refine linked_bind fun text text' htext htext' => linked_bind fun _ _ _ _ => ?_
    refine linked_bind fun color color' hcolor hcolor' => linked_same rfl fun enable henable => ?_
    have henable := closed_enableBetween _ _ enable henable
    exact linked_videoOf (.lit rfl rfl <| .text htext htext' <| .lit rfl rfl <| .num <|
      .lit rfl rfl <| .text hcolor hcolor' <| .lit rfl rfl <| .kept hx <| .lit rfl rfl <|
      .kept hy <| .opens rfl rfl <| .kept halpha <| .closes rfl rfl <| .kept henable <| .nil _)
      (by decide)

theorem linked_karaokeLayer {head head' : FilterText}
    (hhead : Filter.ReadAlike .outside head.chars head'.chars .outside)
    {words words' : List (List Char)} {start start' step step' stop stop' : Float} (index : Nat) :
    Linked FilterText.Alike (karaokeLayer p head words start step stop index)
      (karaokeLayer q head' words' start' step' stop' index) := by
  refine linked_bind fun opening opening' hopening hopening' => ?_
  refine linked_bind fun color color' hcolor hcolor' => ?_
  exact linked_ofParts (.lit rfl rfl <| .sub (readAlike_escaped _ _) <| .lit rfl rfl <|
    .sub hhead <| .lit rfl rfl <| .text hcolor hcolor' <| .opens rfl rfl <|
    .number hopening hopening' <| .within rfl rfl <| .num <| .closes rfl rfl <| .nil _) (by decide)

theorem karaokeText_reads : Reads [("text", .words)] karaokeText := by
  intro ρ p q ctx h
  refine (h.linked_string "text").bind fun text text' htext => ?_
  -- There is a layer for every word, so only the number of words counts.
  have hwords : (Text.words text.toList).length = (Text.words text'.toList).length := by
    obtain rfl | ⟨freedom, hmem, hallows⟩ := htext
    · rfl
    · obtain rfl : freedom = .words := by simpa using hmem
      exact hallows.2
  dsimp only
  generalize Text.words text.toList = words, Text.words text'.toList = words' at hwords
  refine linked_bind fun _ _ _ _ => linked_bind fun start start' _ _ => ?_
  refine linked_bind fun duration duration' _ _ => linked_bind fun _ _ _ _ => ?_
  refine linked_bind fun _ _ _ _ => ?_
  refine (linked_ofParts (.lit rfl rfl <| .num <| .lit rfl rfl <| .num <| .lit rfl rfl <| .num <|
    .lit rfl rfl <| .num <| .nil _) (by decide)).bind fun head head' hhead => ?_
  have hhead := hhead.read
  refine linked_bind fun color color' hcolor hcolor' => ?_
  refine linked_enableBetween.bind fun enable enable' henable => ?_
  refine (linked_ofParts (.lit rfl rfl <| .sub (readAlike_escaped _ _) <| .lit rfl rfl <|
    .sub hhead <| .lit rfl rfl <| .text hcolor hcolor' <| .sub henable.read <| .nil _)
    (by decide)).bind fun base base' hbase => ?_
  have hrange : List.Forall₂ Eq (List.range words.length) (List.range words'.length) := by
    rw [hwords]
    exact List.forall₂_same.mpr fun n _ => rfl
  refine (linked_mapM hrange fun n m hnm => ?_).bind fun layers layers' hlayers =>
    linked_ok (contributions_video (.cons hbase hlayers))
  subst hnm
  exact linked_karaokeLayer hhead n

theorem lettering_reads : ∀ entry ∈ lettering, Reads (freeTexts entry.1) entry.2.compile := by
  simp only [lettering, List.forall_mem_cons, freeTexts]
  exact ⟨textOverlay_reads, lowerThird_reads, countdown_legible.reads, scrollingText_reads,
    typewriterText_reads, burnSubtitles_reads, animatedText_reads, ticker_reads, bounceText_reads,
    fadeText_reads, karaokeText_reads, by simp⟩

end SkillPipeline.Effect
