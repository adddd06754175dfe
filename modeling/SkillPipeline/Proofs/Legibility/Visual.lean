import SkillPipeline.Effect.Visual
import SkillPipeline.Proofs.Legibility.Contract

namespace SkillPipeline.Effect

open Contribution FilterText Handler Outcome

theorem closed_lookup {table : List (String × String)} {fallback : String}
    (htable : ∀ entry ∈ table, (wording entry.2).Closed) (hfallback : (wording fallback).Closed)
    (name : String) : (wording ((table.lookup name).getD fallback)).Closed := by
  cases hname : table.lookup name with
  | none => exact hfallback
  | some value =>
    obtain ⟨before, after, heq, -⟩ := List.lookup_eq_some_iff.mp hname
    exact htable (name, value) (heq ▸ List.mem_append_right _ List.mem_cons_self)

theorem closed_denoiseStrengths : ∀ entry ∈ denoiseStrengths, (wording entry.2).Closed := by
  simp only [denoiseStrengths, List.forall_mem_cons]
  exact ⟨closed_wording rfl rfl, closed_wording rfl rfl, closed_wording rfl rfl, by simp⟩

theorem closed_grades : ∀ entry ∈ grades, (wording entry.2).Closed := by
  simp only [grades, List.forall_mem_cons]
  exact ⟨closed_wording rfl rfl, closed_wording rfl rfl, closed_wording rfl rfl,
    closed_wording rfl rfl, closed_wording rfl rfl, by simp⟩

theorem closed_sketches : ∀ entry ∈ sketches, (wording entry.2).Closed := by
  simp only [sketches, List.forall_mem_cons]
  exact ⟨closed_wording rfl rfl, closed_wording rfl rfl, closed_wording rfl rfl, by simp⟩

theorem closed_palettes : ∀ entry ∈ palettes, (wording entry.2).Closed := by
  have hthree {a b c : String} (ha : (wording a).Closed) (hb : (wording b).Closed)
      (hc : (wording c).Closed) : (wording (a ++ b ++ c)).Closed :=
    closed_wording_append (closed_wording_append ha hb) hc
  simp only [palettes, List.forall_mem_cons]
  exact ⟨hthree (closed_wording rfl rfl) (closed_wording rfl rfl) (closed_wording rfl rfl),
    hthree (closed_wording rfl rfl) (closed_wording rfl rfl) (closed_wording rfl rfl),
    closed_wording rfl rfl, closed_wording rfl rfl, closed_wording rfl rfl, by simp⟩

theorem closed_channelSwaps : ∀ entry ∈ channelSwaps, (wording entry.2).Closed := by
  simp only [channelSwaps, List.forall_mem_cons]
  exact ⟨closed_wording rfl rfl, closed_wording rfl rfl, closed_wording rfl rfl,
    closed_wording_append (closed_wording rfl rfl) (closed_wording rfl rfl),
    closed_wording rfl rfl, by simp⟩

theorem chosen_legible {table : List (String × String)} {param fallback : String}
    (htable : ∀ entry ∈ table, (wording entry.2).Closed) (hfallback : (wording fallback).Closed) :
    Legible (chosen table param fallback) := fun _ _ =>
  gives_bind fun name _ => gives_ok <| legible_video <|
    List.forall_mem_singleton.mpr (closed_lookup htable hfallback name)

theorem valued_legible {start param ending : String} (hstart : (wording start).Closed)
    (hending : (wording ending).Closed) : Legible (valued start param ending) := fun _ _ =>
  gives_bind fun _ _ =>
    legible_videoOf (.wording hstart <| .num <| .wording hending <| .nil _)

theorem keyed_legible {key : FilterText} (h : key.Closed) (background : String) :
    (keyed key background).Legible := by
  have hsolid : (wording "drawbox=c=" ++ escaped background ++ wording ":t=fill").Closed :=
    ((closed_wording rfl rfl).append (closed_escaped background)).append (closed_wording rfl rfl)
  rw [keyed]
  split
  · exact legible_video (List.forall_mem_singleton.mpr h)
  · refine legible_graph ?_
    simp only [Fragment.Legible, List.forall_mem_cons]
    exact ⟨GraphNode.legible_mk (closed_wording rfl rfl) (by decide),
      GraphNode.legible_mk h (by decide), GraphNode.legible_mk hsolid (by decide),
      GraphNode.legible_mk (closed_wording rfl rfl) (by decide), by simp⟩

section Branched

variable {untouched branch treated : String} {treatment joining : FilterText}

theorem branched_legible (htreatment : treatment.Closed) (hjoining : joining.Closed)
    (hnames : ∀ name ∈ [untouched, branch, treated], Filter.Neutral name.toList) :
    (graph (branched untouched branch treated treatment joining)).Legible := by
  simp only [List.forall_mem_cons] at hnames
  obtain ⟨huntouched, hbranch, htreated, -⟩ := hnames
  refine legible_graph ?_
  simp only [branched, Fragment.Legible, List.forall_mem_cons]
  refine ⟨⟨closed_wording rfl rfl, ?_⟩, ⟨htreatment, ?_⟩,
    GraphNode.legible_mk hjoining (by decide), by simp⟩
  · exact List.forall_mem_cons.mpr ⟨huntouched, List.forall_mem_singleton.mpr hbranch⟩
  · exact List.forall_mem_singleton.mpr htreated

end Branched

theorem vignette_legible : Legible vignette := fun _ _ =>
  gives_bind fun _ _ => gives_bind fun _ hangle =>
    legible_videoOf (.lit rfl rfl <| .number hangle hangle <| .nil _)

theorem blur_legible : Legible blur := fun _ _ =>
  gives_bind fun _ _ => legible_videoOf (.lit rfl rfl <| .num <| .lit rfl rfl <| .num <| .nil _)

theorem fade_legible : Legible fade := by
  intro p ctx
  refine gives_bind fun d hd => gives_bind fun type _ => ?_
  split
  · refine gives_bind fun length _ => gives_bind fun start _ => ?_
    refine (gives_ofParts (.lit rfl rfl <| .decimal hd hd <| .nil _)).bind fun fadeIn hfadeIn => ?_
    refine gives_bind fun place hplace => ?_
    refine (gives_ofParts (.lit rfl rfl <| .number hplace hplace <| .lit rfl rfl <|
      .decimal hd hd <| .nil _)).bind fun fadeOut hfadeOut => ?_
    exact gives_ok (legible_video
      (List.forall_mem_cons.mpr ⟨hfadeIn, List.forall_mem_singleton.mpr hfadeOut⟩))
  · refine gives_bind fun start hstart => ?_
    split <;> exact legible_videoOf (.lit rfl rfl <| .lit rfl rfl <| .lit rfl rfl <|
      .decimal hstart hstart <| .lit rfl rfl <| .decimal hd hd <| .nil _)

theorem chromakey_legible : Legible chromakey := by
  intro p ctx
  refine gives_bind fun color hcolor => gives_bind fun similarity hsimilarity => ?_
  refine gives_bind fun blend hblend => ?_
  refine (gives_ofParts (.lit rfl rfl <| .text hcolor hcolor <| .lit rfl rfl <|
    .decimal hsimilarity hsimilarity <| .lit rfl rfl <| .decimal hblend hblend <| .nil _)).bind
    fun key hkey => ?_
  exact gives_bind fun background _ => gives_ok (keyed_legible hkey background)

theorem lumakey_legible : Legible lumakey := by
  intro p ctx
  refine gives_bind fun threshold hthreshold => gives_bind fun tolerance htolerance => ?_
  refine gives_bind fun softness hsoftness => ?_
  refine (gives_ofParts (.lit rfl rfl <| .decimal hthreshold hthreshold <| .lit rfl rfl <|
    .decimal htolerance htolerance <| .lit rfl rfl <| .decimal hsoftness hsoftness <|
    .nil _)).bind fun key hkey => ?_
  exact gives_bind fun background _ => gives_ok (keyed_legible hkey background)

theorem monochrome_legible : Legible monochrome := by
  intro p ctx
  refine gives_bind fun preset _ => ?_
  split
  refine gives_bind fun cb hcb => gives_bind fun cr hcr => gives_bind fun size hsize => ?_
  exact legible_videoOf (.lit rfl rfl <| .number hcb hcb <| .lit rfl rfl <| .number hcr hcr <|
    .lit rfl rfl <| .decimal hsize hsize <| .nil _)

theorem colorTemperature_legible : Legible colorTemperature := fun _ _ =>
  gives_bind fun _ _ => gives_bind fun _ hmix =>
    legible_videoOf (.lit rfl rfl <| .num <| .lit rfl rfl <| .decimal hmix hmix <| .nil _)

theorem pixelate_legible : Legible pixelate := fun _ _ =>
  gives_bind fun _ _ => legible_videoOf (.lit rfl rfl <| .num <| .lit rfl rfl <| .num <|
    .lit rfl rfl <| .num <| .lit rfl rfl <| .num <| .lit rfl rfl <| .nil _)

theorem after_quantised (step : Float) :
    Gives (fun t => Filter.Reading.quoted.after t.chars = .quoted) (quantised step) :=
  gives_ofParts (.within rfl rfl <| .num <| .within rfl rfl <| .num <| .nil _)

theorem posterize_legible : Legible posterize := fun _ _ =>
  gives_bind fun _ _ => (after_quantised _).bind fun _ hexpr =>
    legible_videoOf (.opens rfl rfl <| .kept hexpr <| .within rfl rfl <| .kept hexpr <|
      .within rfl rfl <| .kept hexpr <| .closes rfl rfl <| .nil _)

theorem glow_legible : Legible glow := by
  intro p ctx
  refine gives_bind fun strength _ => gives_bind fun radius hradius => ?_
  refine (gives_ofParts (.lit rfl rfl <| .decimal hradius hradius <| .nil _)).bind
    fun soft hsoft => gives_bind fun opacity hopacity => ?_
  refine (gives_ofParts (.lit rfl rfl <| .number hopacity hopacity <| .nil _)).bind
    fun joined hjoined => ?_
  exact gives_ok (branched_legible hsoft hjoined (by decide))

theorem fadePair_legible {suffix : String} (h : (wording suffix).Closed) :
    Legible (fadePair suffix) := by
  have hstart {length : Float} {d : FilterText} (hd : decimal length = .ok d) :
      Gives Closed (ofParts [.lit "fade=t=in:st=0:d=", .sub d, .lit suffix]) :=
    gives_ofParts (.lit rfl rfl <| .number hd hd <| .wording h <| .nil _)
  have hend {start length : Float} {s d : FilterText} (hs : decimal start = .ok s)
      (hd : decimal length = .ok d) :
      Gives Closed (ofParts [.lit "fade=t=out:st=", .sub s, .lit ":d=", .sub d, .lit suffix]) :=
    gives_ofParts (.lit rfl rfl <| .number hs hs <| .lit rfl rfl <| .number hd hd <| .wording h <|
      .nil _)
  -- By which of the two lengths is zero.
  intro p ctx
  refine gives_bind fun fadeIn _ => gives_bind fun fadeOut _ => ?_
  dsimp only
  split
  · refine gives_bind fun d hd => (hstart hd).bind fun first hfirst => gives_bind fun _ heq => ?_
    cases heq
    split
    · refine gives_bind fun _ _ => gives_bind fun s hs => gives_bind fun d hd => ?_
      refine (hend hs hd).bind fun last hlast => gives_bind fun _ heq => ?_
      cases heq
      exact gives_ok (legible_video
        (List.forall_mem_cons.mpr ⟨hfirst, List.forall_mem_singleton.mpr hlast⟩))
    · exact gives_ok (legible_video (List.forall_mem_singleton.mpr hfirst))
  · split
    · refine gives_bind fun _ heq => gives_bind fun _ _ => ?_
      cases heq
      refine gives_bind fun s hs => gives_bind fun d hd => ?_
      refine (hend hs hd).bind fun last hlast => gives_bind fun _ heq => ?_
      cases heq
      exact gives_ok (legible_video (List.forall_mem_singleton.mpr hlast))
    · exact gives_ok legible_flags

theorem flash_legible : Legible flash := by
  intro p ctx
  refine gives_bind fun t _ => gives_bind fun duration _ => gives_bind fun start hstart => ?_
  refine gives_bind fun length hlength => gives_bind fun turn hturn => ?_
  exact legible_videoOf (.lit rfl rfl <| .number hstart hstart <| .lit rfl rfl <|
    .number hlength hlength <| .lit rfl rfl <| .number hturn hturn <| .lit rfl rfl <|
    .number hlength hlength <| .lit rfl rfl <| .nil _)

theorem deband_legible : Legible deband := by
  intro p ctx
  refine gives_bind fun t ht => gives_bind fun range _ => gives_bind fun blur _ => ?_
  exact legible_videoOf (.lit rfl rfl <| .decimal ht ht <| .lit rfl rfl <| .decimal ht ht <|
    .lit rfl rfl <| .decimal ht ht <| .lit rfl rfl <| .decimal ht ht <| .lit rfl rfl <| .num <|
    .lit rfl rfl <| .num <| .nil _)

theorem chromaticAberration_legible : Legible chromaticAberration := fun _ _ =>
  gives_bind fun _ _ => legible_videoOf (.lit rfl rfl <| .num <| .lit rfl rfl <| .num <|
    .lit rfl rfl <| .num <| .lit rfl rfl <| .num <| .nil _)

theorem ghostTrail_legible : Legible ghostTrail := fun _ _ =>
  gives_bind fun _ _ => legible_videoOf (.lit rfl rfl <| .num <| .nil _)

theorem maskBlur_legible : Legible maskBlur := by
  intro p ctx
  refine gives_bind fun x _ => gives_bind fun y _ => gives_bind fun w _ => ?_
  refine gives_bind fun h _ => gives_bind fun strength _ => ?_
  refine (gives_ofParts (.lit rfl rfl <| .num <| .lit rfl rfl <| .num <| .lit rfl rfl <| .num <|
    .lit rfl rfl <| .num <| .lit rfl rfl <| .num <| .nil _)).bind fun blurred hblurred => ?_
  refine (gives_ofParts (.lit rfl rfl <| .num <| .lit rfl rfl <| .num <| .lit rfl rfl <|
    .nil _)).bind fun joined hjoined => ?_
  exact gives_ok (branched_legible hblurred hjoined (by decide))

theorem sepia_legible : Legible sepia := by
  intro p ctx
  refine gives_bind fun i _ => ?_
  refine gives_bind fun rr hrr => gives_bind fun rg hrg => gives_bind fun rb hrb => ?_
  refine gives_bind fun gr hgr => gives_bind fun gg hgg => gives_bind fun gb hgb => ?_
  refine gives_bind fun br hbr => gives_bind fun bg hbg => gives_bind fun bb hbb => ?_
  exact legible_videoOf (.lit rfl rfl <| .number hrr hrr <| .lit rfl rfl <| .number hrg hrg <|
    .lit rfl rfl <| .number hrb hrb <| .lit rfl rfl <| .number hgr hgr <| .lit rfl rfl <|
    .number hgg hgg <| .lit rfl rfl <| .number hgb hgb <| .lit rfl rfl <| .number hbr hbr <|
    .lit rfl rfl <| .number hbg hbg <| .lit rfl rfl <| .number hbb hbb <| .nil _)

theorem tiltShift_legible : Legible tiltShift := by
  intro p ctx
  refine gives_bind fun focus _ => gives_bind fun low hlow => gives_bind fun high hhigh => ?_
  refine gives_bind fun amount hamount => ?_
  refine (gives_ofParts (.lit rfl rfl <| .decimal hamount hamount <| .nil _)).bind
    fun blurred hblurred => ?_
  refine (gives_ofParts (.opens rfl rfl <| .number hlow hlow <| .within rfl rfl <|
    .number hhigh hhigh <| .closes rfl rfl <| .nil _)).bind fun joined hjoined => ?_
  exact gives_ok (branched_legible hblurred hjoined (by decide))

theorem halftone_legible : Legible halftone := fun _ _ =>
  gives_bind fun _ _ => gives_bind fun _ hf => legible_videoOf (.opens rfl rfl <|
    .number hf hf <| .within rfl rfl <| .number hf hf <| .closes rfl rfl <| .nil _)

theorem colorhold_legible : Legible colorhold := by
  intro p ctx
  refine gives_bind fun color hcolor => gives_bind fun similarity hsimilarity => ?_
  exact gives_bind fun blend hblend => legible_videoOf (.lit rfl rfl <| .text hcolor hcolor <|
    .lit rfl rfl <| .decimal hsimilarity hsimilarity <| .lit rfl rfl <| .decimal hblend hblend <|
    .nil _)

theorem despill_legible : Legible despill := by
  intro p ctx
  refine gives_bind fun type htype => gives_bind fun mix hmix => gives_bind fun expand hexpand => ?_
  exact gives_bind fun brightness hbrightness => legible_videoOf (.lit rfl rfl <|
    .text htype htype <| .lit rfl rfl <| .decimal hmix hmix <| .lit rfl rfl <|
    .decimal hexpand hexpand <| .lit rfl rfl <| .decimal hbrightness hbrightness <| .nil _)

theorem comicStyle_closed (name : String) :
    let style := (comicStyles.lookup name).getD classicComic
    (wording style.edges).Closed ∧ (wording style.finish).Closed := by
  have hstyles : ∀ entry ∈ comicStyles,
      (wording entry.2.edges).Closed ∧ (wording entry.2.finish).Closed := by
    simp only [comicStyles, classicComic, List.forall_mem_cons]
    exact ⟨⟨closed_wording rfl rfl, closed_wording rfl rfl⟩,
      ⟨closed_wording rfl rfl, closed_wording rfl rfl⟩,
      ⟨closed_wording rfl rfl, closed_wording rfl rfl⟩, by simp⟩
  cases hname : comicStyles.lookup name with
  | none => exact hstyles ("classic", classicComic) List.mem_cons_self
  | some style =>
    obtain ⟨before, after, heq, -⟩ := List.lookup_eq_some_iff.mp hname
    exact hstyles (name, style) (heq ▸ List.mem_append_right _ List.mem_cons_self)

theorem comicBook_legible : Legible comicBook := by
  intro p ctx
  refine gives_bind fun name _ => ?_
  obtain ⟨hedges, hfinish⟩ := comicStyle_closed name
  refine (after_quantised _).bind fun expr hexpr => ?_
  refine (gives_ofParts (.opens rfl rfl <| .kept hexpr <| .within rfl rfl <| .kept hexpr <|
    .within rfl rfl <| .kept hexpr <| .closes rfl rfl <| .wording hfinish <| .nil _)).bind
    fun flat hflat => ?_
  refine gives_ok (legible_graph ?_)
  simp only [Fragment.Legible, List.forall_mem_cons]
  exact ⟨GraphNode.legible_mk (closed_wording rfl rfl) (by decide),
    GraphNode.legible_mk (hedges.append (closed_wording rfl rfl)) (by decide),
    GraphNode.legible_mk hflat (by decide),
    GraphNode.legible_mk (closed_wording rfl rfl) (by decide), by simp⟩

theorem selectiveColor_reads {free : List (String × Freedom)} : Reads free selectiveColor := by
  intro ρ p q ctx _
  refine linked_bind fun _ _ _ _ => linked_bind fun _ _ _ _ => linked_bind fun _ _ _ _ => ?_
  refine linked_bind fun _ _ _ _ => linked_bind fun shares shares' hshares hshares' => ?_
  -- The shares stand in a section, after the range.
  have hread := readAlike_ofParts (r := .quoted) hshares hshares' (.num <| .within rfl rfl <|
    .num <| .within rfl rfl <| .num <| .within rfl rfl <| .num <| .nil _)
  exact linked_bind fun range range' hrange hrange' => linked_videoOf (.lit rfl rfl <|
    .text hrange hrange' <| .opens rfl rfl <| .sub hread <| .closes rfl rfl <| .nil _) (by decide)

theorem datamosh_reads {free : List (String × Freedom)} : Reads free datamosh := by
  intro ρ p q ctx _
  refine linked_bind fun mode mode' hmode hmode' => linked_ok (contributions_video ?_)
  exact .cons (alike_option (closed_wording rfl rfl) (by decide) (readAlike_paramText hmode hmode'))
    .nil

theorem branched_fragments {ρ : Renaming} {untouched branch treated : String}
    {treatment treatment' joining joining' : FilterText} (htreatment : treatment.Alike treatment')
    (hjoining : joining.Alike joining')
    (hnames : ∀ name ∈ [untouched, branch, treated], Filter.Neutral name.toList) :
    ρ.reading.Fragments (branched untouched branch treated treatment joining)
      (branched untouched branch treated treatment' joining') where
  nodes := .cons ⟨rfl, (closed_wording rfl rfl).alike, rfl⟩ <| .cons ⟨rfl, htreatment, rfl⟩ <|
    .cons ⟨rfl, hjoining, rfl⟩ .nil
  video := rfl
  audio := rfl
  named name hname := by
    have hmem : name ∈ [untouched, branch, treated] ++ ["out"] := hname
    obtain hearlier | hlast := List.mem_append.mp hmem
    · exact hnames name hearlier
    · have hout : Filter.Neutral "out".toList := by decide
      exact List.mem_singleton.mp hlast ▸ hout

theorem applyTable_reads : Reads [("path", .any)] applyTable := by
  intro ρ p q ctx h
  refine linked_same (h.float_eq (by decide) none) fun intensity _ => ?_
  refine linked_bind fun given given' _ _ => linked_bind fun path path' _ _ => ?_
  have hlut : (wording "lut3d=file=" ++ escaped path).Alike
      (wording "lut3d=file=" ++ escaped path') :=
    alike_option (closed_wording rfl rfl) (by decide) (readAlike_escaped path path')
  split
  · exact linked_ok (legible_flags.contributions ρ)
  · split
    · exact linked_ok (contributions_video (.cons hlut .nil))
    · refine linked_bind fun opacity opacity' hopacity hopacity' => ?_
      refine (linked_ofParts (.lit rfl rfl <| .number hopacity hopacity' <| .nil _)
        (by decide)).bind fun joined joined' hjoined => ?_
      exact linked_ok (contributions_graph (branched_fragments hlut hjoined (by decide)))

theorem visual_reads : ∀ entry ∈ visual, Reads (freeTexts entry.1) entry.2.compile := by
  have hvalued {start param ending : String} (hstart : (wording start).Closed)
      (hending : (wording ending).Closed) : Reads [] (valued start param ending) :=
    (valued_legible hstart hending).reads
  simp only [visual, List.forall_mem_cons, freeTexts]
  exact ⟨hvalued (closed_wording rfl rfl) (closed_wording rfl rfl),
    hvalued (closed_wording rfl rfl) (closed_wording rfl rfl),
    hvalued (closed_wording rfl rfl) (closed_wording rfl rfl),
    hvalued (closed_wording rfl rfl) (closed_wording rfl rfl),
    hvalued (closed_wording rfl rfl) (closed_wording rfl rfl), blur_legible.reads,
    (chosen_legible closed_denoiseStrengths (closed_wording rfl rfl)).reads,
    vignette_legible.reads, fade_legible.reads,
    (chosen_legible closed_grades (closed_wording rfl rfl)).reads, chromakey_legible.reads,
    lumakey_legible.reads, selectiveColor_reads, monochrome_legible.reads,
    colorTemperature_legible.reads, pixelate_legible.reads, posterize_legible.reads,
    glow_legible.reads, applyTable_reads, (fadePair_legible (closed_wording rfl rfl)).reads,
    (fadePair_legible (closed_wording rfl rfl)).reads, flash_legible.reads, deband_legible.reads,
    chromaticAberration_legible.reads,
    (chosen_legible closed_sketches (closed_wording rfl rfl)).reads, ghostTrail_legible.reads,
    maskBlur_legible.reads, datamosh_reads, sepia_legible.reads, tiltShift_legible.reads,
    halftone_legible.reads, (chosen_legible closed_palettes (closed_wording rfl rfl)).reads,
    (chosen_legible closed_channelSwaps (closed_wording rfl rfl)).reads, colorhold_legible.reads,
    despill_legible.reads, comicBook_legible.reads, by simp⟩

end SkillPipeline.Effect
