import SkillPipeline.Effect.Spatial
import SkillPipeline.Proofs.Legibility.Contract

namespace SkillPipeline.Effect

open Contribution FilterText Handler Outcome

theorem resize_legible : Legible resize := fun _ _ =>
  gives_bind fun _ _ => gives_bind fun _ _ =>
    legible_videoOf (.lit rfl rfl <| .num <| .lit rfl rfl <| .num <| .nil _)

theorem rotate_legible : Legible rotate := by
  intro p ctx
  refine gives_bind fun angle _ => ?_
  split
  · exact legible_videoOf (.lit rfl rfl <| .nil _)
  · split
    · exact legible_videoOf (.lit rfl rfl <| .nil _)
    · split
      · exact legible_videoOf (.lit rfl rfl <| .nil _)
      · exact gives_bind fun radians hradians => gives_bind fun fill hfill =>
          legible_videoOf (.lit rfl rfl <| .number hradians hradians <| .lit rfl rfl <|
            .text hfill hfill <| .nil _)

theorem flip_legible : Legible flip := by
  refine fun p ctx => gives_bind fun direction _ => gives_ok (legible_video ?_)
  rw [List.forall_mem_singleton]
  split
  · exact closed_wording rfl rfl
  · exact closed_wording rfl rfl

theorem closed_zoomOffset {p : Params} {name size : String} {factor : Float} {l : List Char}
    (hs : size = String.ofList l) (h : Filter.Reading.outside.after l = .outside) :
    Gives Closed (zoomOffset p name size factor) := by
  rw [zoomOffset]
  split
  · exact gives_bind fun middle _ => gives_ofParts (.lit hs h <| .lit rfl rfl <| .num <|
      .lit rfl rfl <| .lit hs h <| .lit rfl rfl <| .num <| .lit rfl rfl <| .nil _)
  · exact gives_ofParts (.lit rfl rfl <| .lit hs h <| .lit rfl rfl <| .lit hs h <| .lit rfl rfl <|
      .num <| .lit rfl rfl <| .nil _)

theorem zoom_legible : Legible zoom := by
  intro p ctx
  refine gives_bind fun f _ => ?_
  refine (closed_zoomOffset rfl rfl).bind fun x hx => ?_
  refine (closed_zoomOffset rfl rfl).bind fun y hy => ?_
  exact legible_videoOf (.lit rfl rfl <| .num <| .lit rfl rfl <| .num <| .lit rfl rfl <|
    .kept hx <| .lit rfl rfl <| .kept hy <| .lit rfl rfl <| .num <| .lit rfl rfl <| .num <| .nil _)

theorem kenBurns_legible : Legible kenBurns := by
  intro p ctx
  refine gives_bind fun amount _ => gives_bind fun seconds _ => ?_
  refine (gives_ofParts (.lit rfl rfl <| .num <| .lit rfl rfl <| .num <| .lit rfl rfl <| .num <|
    .nil _)).bind fun size hsize => ?_
  refine gives_bind fun rate hrate => gives_bind fun direction _ => ?_
  split
  · exact legible_videoOf (.lit rfl rfl <| .opens rfl rfl <| .num <| .within rfl rfl <|
      .number hrate hrate <| .closes rfl rfl <| .lit rfl rfl <| .lit rfl rfl <| .kept hsize <|
      .nil _)
  · refine gives_bind fun drift hdrift => ?_
    exact legible_videoOf (.lit rfl rfl <| .opens rfl rfl <| .num <| .within rfl rfl <|
      .number hdrift hdrift <| .within rfl rfl <| .num <| .within rfl rfl <| .num <|
      .within rfl rfl <| .num <| .closes rfl rfl <| .lit rfl rfl <| .lit rfl rfl <| .kept hsize <|
      .nil _)
  · refine gives_bind fun drift hdrift => ?_
    exact legible_videoOf (.lit rfl rfl <| .opens rfl rfl <| .num <| .within rfl rfl <| .num <|
      .within rfl rfl <| .number hdrift hdrift <| .within rfl rfl <| .num <| .within rfl rfl <|
      .num <| .closes rfl rfl <| .lit rfl rfl <| .lit rfl rfl <| .kept hsize <| .nil _)
  · exact legible_videoOf (.lit rfl rfl <| .opens rfl rfl <| .number hrate hrate <|
      .within rfl rfl <| .num <| .closes rfl rfl <| .lit rfl rfl <| .lit rfl rfl <| .kept hsize <|
      .nil _)

theorem drift_legible : Legible drift := by
  intro p ctx
  refine gives_bind fun amount _ => gives_bind fun direction _ => ?_
  split
  · exact legible_videoOf (.lit rfl rfl <| .num <| .lit rfl rfl <| .num <| .lit rfl rfl <| .num <|
      .lit rfl rfl <| .num <| .lit rfl rfl <| .num <| .lit rfl rfl <| .nil _)
  · exact legible_videoOf (.lit rfl rfl <| .num <| .lit rfl rfl <| .num <| .lit rfl rfl <| .num <|
      .lit rfl rfl <| .num <| .lit rfl rfl <| .nil _)
  · exact legible_videoOf (.lit rfl rfl <| .num <| .lit rfl rfl <| .num <| .lit rfl rfl <| .num <|
      .lit rfl rfl <| .num <| .lit rfl rfl <| .num <| .lit rfl rfl <| .nil _)
  · exact legible_videoOf (.lit rfl rfl <| .num <| .lit rfl rfl <| .num <| .lit rfl rfl <| .num <|
      .lit rfl rfl <| .num <| .lit rfl rfl <| .nil _)

theorem fixedNode_legible {inputs : List Pad} {filter : String} {outputs : List String}
    {l : List Char} (hs : filter = String.ofList l)
    (h : Filter.Reading.outside.after l = .outside)
    (hnamed : ∀ name ∈ outputs, Filter.Neutral name.toList) :
    (fixedNode inputs filter outputs).Legible :=
  ⟨closed_wording hs h, hnamed⟩

theorem mirrorNodes_legible (mode : String) : ∀ n ∈ mirrorNodes mode, n.Legible := by
  unfold mirrorNodes
  split
  · simp only [List.forall_mem_cons]
    refine ⟨fixedNode_legible rfl rfl ?_, fixedNode_legible rfl rfl ?_,
      fixedNode_legible rfl rfl ?_, by simp⟩ <;> decide
  · simp only [List.forall_mem_cons]
    refine ⟨fixedNode_legible rfl rfl ?_, fixedNode_legible rfl rfl ?_,
      fixedNode_legible rfl rfl ?_, fixedNode_legible rfl rfl ?_, fixedNode_legible rfl rfl ?_,
      fixedNode_legible rfl rfl ?_, fixedNode_legible rfl rfl ?_, by simp⟩ <;> decide
  · simp only [List.forall_mem_cons]
    refine ⟨fixedNode_legible rfl rfl ?_, fixedNode_legible rfl rfl ?_,
      fixedNode_legible rfl rfl ?_, by simp⟩ <;> decide

theorem mirror_legible : Legible mirror := fun _ _ =>
  gives_bind fun mode _ => gives_ok (legible_graph (mirrorNodes_legible mode))

theorem captionSpace_legible : Legible captionSpace := fun _ _ =>
  gives_bind fun _ _ => gives_bind fun _ _ => gives_bind fun _ hcolor =>
    legible_videoOf (.lit rfl rfl <| .num <| .lit rfl rfl <| .num <| .lit rfl rfl <|
      .text hcolor hcolor <| .nil _)

theorem closed_corners (preset : String) {s : FilterText} (h : s.Closed) :
    Gives Closed (corners preset s) := by
  unfold corners
  split
  · exact gives_ofParts (.lit rfl rfl <| .kept h <| .lit rfl rfl <| .kept h <| .lit rfl rfl <|
      .nil _)
  · exact gives_ofParts (.lit rfl rfl <| .kept h <| .lit rfl rfl <| .kept h <| .nil _)
  · exact gives_ofParts (.lit rfl rfl <| .kept h <| .lit rfl rfl <| .kept h <| .lit rfl rfl <|
      .nil _)
  · exact gives_ofParts (.lit rfl rfl <| .kept h <| .lit rfl rfl <| .kept h <| .lit rfl rfl <|
      .nil _)

theorem perspective_legible : Legible perspective := by
  intro p ctx
  refine gives_bind fun preset _ => gives_bind fun strength _ => ?_
  refine (gives_ofParts (.lit rfl rfl <| .num <| .lit rfl rfl <| .nil _)).bind fun offset h => ?_
  exact (closed_corners preset h).bind fun expr hexpr =>
    legible_videoOf (.lit rfl rfl <| .kept hexpr <| .lit rfl rfl <| .nil _)

theorem lensCorrection_legible : Legible lensCorrection := fun _ _ =>
  gives_bind fun _ hk1 => gives_bind fun _ hk2 => legible_videoOf (.lit rfl rfl <|
    .decimal hk1 hk1 <| .lit rfl rfl <| .decimal hk2 hk2 <| .lit rfl rfl <| .nil _)

theorem spin_legible : Legible spin := by
  intro p ctx
  refine gives_bind fun speed _ => gives_bind fun direction _ => gives_bind fun rate hrate => ?_
  exact gives_bind fun fill hfill => legible_videoOf (.lit rfl rfl <| .number hrate hrate <|
    .lit rfl rfl <| .text hfill hfill <| .nil _)

theorem shake_legible : Legible shake := fun _ _ =>
  gives_bind fun _ _ => legible_videoOf (.lit rfl rfl <| .num <| .lit rfl rfl <| .num <|
    .lit rfl rfl <| .num <| .lit rfl rfl <| .num <| .lit rfl rfl <| .num <| .lit rfl rfl <| .num <|
    .lit rfl rfl <| .num <| .lit rfl rfl <| .num <| .nil _)

theorem pulse_legible : Legible pulse := by
  intro p ctx
  refine gives_bind fun share _ => gives_bind fun amount hamount => gives_bind fun rate hrate => ?_
  -- The zoom stands in a section.
  refine (gives_ofParts (.within rfl rfl <| .number hamount hamount <| .within rfl rfl <|
    .decimal hrate hrate <| .within rfl rfl <| .num <| .within rfl rfl <| .nil _)).bind
      fun z hz => ?_
  exact legible_videoOf (.opens rfl rfl <| .kept hz <| .closes rfl rfl <| .num <| .lit rfl rfl <|
    .num <| .lit rfl rfl <| .num <| .nil _)

theorem bounce_legible : Legible bounce := fun _ _ =>
  gives_bind fun _ _ => gives_bind fun _ hspeed => legible_videoOf (.lit rfl rfl <| .num <|
    .lit rfl rfl <| .num <| .lit rfl rfl <| .num <| .lit rfl rfl <| .num <| .lit rfl rfl <|
    .decimal hspeed hspeed <| .lit rfl rfl <| .nil _)

theorem legible_revealMask {cond : FilterText}
    (h : Filter.Reading.quoted.after cond.chars = .quoted) :
    Gives Contribution.Legible (revealMask cond) :=
  legible_videoOf (.opens rfl rfl <| .kept h <| .within rfl rfl <| .kept h <| .within rfl rfl <|
    .kept h <| .closes rfl rfl <| .nil _)

theorem irisReveal_legible : Legible irisReveal := by
  intro p ctx
  refine gives_bind fun d hd => ?_
  exact (gives_ofParts (.within rfl rfl <| .decimal hd hd <| .within rfl rfl <| .nil _)).bind
    fun cond hcond => legible_revealMask hcond

theorem wipe_legible : Legible wipe := by
  intro p ctx
  refine gives_bind fun d hd => ?_
  refine (gives_ofParts (.within rfl rfl <| .decimal hd hd <| .within rfl rfl <| .nil _)).bind
    fun progress hprogress => gives_bind fun direction _ => ?_
  split
  · exact (gives_ofParts (.within rfl rfl <| .kept hprogress <| .within rfl rfl <| .nil _)).bind
      fun cond hcond => legible_revealMask hcond
  · exact (gives_ofParts (.within rfl rfl <| .kept hprogress <| .within rfl rfl <| .nil _)).bind
      fun cond hcond => legible_revealMask hcond
  · exact (gives_ofParts (.within rfl rfl <| .kept hprogress <| .within rfl rfl <| .nil _)).bind
      fun cond hcond => legible_revealMask hcond
  · exact (gives_ofParts (.within rfl rfl <| .kept hprogress <| .within rfl rfl <| .nil _)).bind
      fun cond hcond => legible_revealMask hcond

theorem slideIn_legible : Legible slideIn := by
  intro p ctx
  refine gives_bind fun d hd => ?_
  refine (gives_ofParts (.lit rfl rfl <| .decimal hd hd <| .lit rfl rfl <| .nil _)).bind
    fun done hdone => gives_bind fun direction _ => ?_
  split
  · exact legible_videoOf (.lit rfl rfl <| .kept hdone <| .lit rfl rfl <| .nil _)
  · exact legible_videoOf (.lit rfl rfl <| .kept hdone <| .lit rfl rfl <| .nil _)
  · exact legible_videoOf (.lit rfl rfl <| .kept hdone <| .nil _)
  · exact legible_videoOf (.lit rfl rfl <| .kept hdone <| .lit rfl rfl <| .nil _)

theorem scroll_legible : Legible scroll := by
  intro p ctx
  refine gives_bind fun s _ => gives_bind fun direction _ => ?_
  split
  next axis signed hchoice =>
    have haxis : axis = "vertical" ∨ axis = "horizontal" := by
      split at hchoice <;> cases hchoice <;> simp
    refine gives_bind fun speed hspeed => ?_
    obtain rfl | rfl := haxis
    · exact legible_videoOf (.lit rfl rfl <| .lit rfl rfl <| .lit rfl rfl <|
        .number hspeed hspeed <| .nil _)
    · exact legible_videoOf (.lit rfl rfl <| .lit rfl rfl <| .lit rfl rfl <|
        .number hspeed hspeed <| .nil _)

theorem fillBorders_legible : Legible fillBorders := by
  intro p ctx
  refine gives_bind fun left _ => gives_bind fun right _ => gives_bind fun top _ => ?_
  refine gives_bind fun bottom _ => gives_bind fun mode _ => ?_
  exact legible_videoOf (.lit rfl rfl <| .num <| .lit rfl rfl <| .num <| .lit rfl rfl <| .num <|
    .lit rfl rfl <| .num <| .lit rfl rfl <| .num <| .nil _)

theorem deshake_legible : Legible deshake := fun _ _ =>
  gives_bind fun _ _ => gives_bind fun _ _ => gives_bind fun _ _ => legible_videoOf (.lit rfl rfl <|
    .num <| .lit rfl rfl <| .num <| .lit rfl rfl <| .num <| .nil _)

theorem crop_reads {free : List (String × Freedom)} : Reads free crop := by
  intro ρ p q ctx _
  refine linked_bind fun width width' hwidth hwidth' => ?_
  refine linked_bind fun height height' hheight hheight' => ?_
  refine linked_bind fun x x' hx hx' => linked_bind fun y y' hy hy' => ?_
  exact linked_videoOf (.lit rfl rfl <| .text hwidth hwidth' <| .lit rfl rfl <|
    .text hheight hheight' <| .lit rfl rfl <| .text hx hx' <| .lit rfl rfl <| .text hy hy' <|
    .nil _) (by decide)

theorem pad_reads {free : List (String × Freedom)} : Reads free pad := by
  intro ρ p q ctx _
  refine linked_bind fun width width' hwidth hwidth' => ?_
  refine linked_bind fun height height' hheight hheight' => ?_
  refine linked_bind fun x x' hx hx' => linked_bind fun y y' hy hy' => ?_
  refine linked_bind fun color color' hcolor hcolor' => ?_
  exact linked_videoOf (.lit rfl rfl <| .text hwidth hwidth' <| .lit rfl rfl <|
    .text hheight hheight' <| .lit rfl rfl <| .text hx hx' <| .lit rfl rfl <| .text hy hy' <|
    .lit rfl rfl <| .text hcolor hcolor' <| .nil _) (by decide)

theorem aspect_reads : Reads [("ratio", .any)] aspect := by
  intro ρ p q ctx h
  refine linked_bind fun ratio ratio' _ _ => ?_
  cases parseRatio ratio with
  | none => exact linked_error
  | some r =>
    cases parseRatio ratio' with
    | none => exact linked_error_right
    | some r' =>
      refine (linked_ofParts (.lit rfl rfl <| .num <| .lit rfl rfl <| .nil _) (by decide)).bind
        fun wide wide' hwide => ?_
      have hwide := hwide.read
      refine linked_same (h.string_eq (by decide) none) fun mode _ => ?_
      split
      · exact linked_videoOf (.lit rfl rfl <| .sub hwide <| .lit rfl rfl <| .num <| .lit rfl rfl <|
          .sub hwide <| .lit rfl rfl <| .num <| .lit rfl rfl <| .nil _) (by decide)
      · exact linked_videoOf (.lit rfl rfl <| .sub hwide <| .lit rfl rfl <| .num <| .lit rfl rfl <|
          .sub hwide <| .lit rfl rfl <| .num <| .lit rfl rfl <| .nil _) (by decide)
      · exact linked_bind fun color color' hcolor hcolor' => linked_videoOf (.lit rfl rfl <|
          .sub hwide <| .lit rfl rfl <| .num <| .lit rfl rfl <| .sub hwide <| .lit rfl rfl <|
          .num <| .lit rfl rfl <| .text hcolor hcolor' <| .nil _) (by decide)

theorem spatial_reads : ∀ entry ∈ spatial, Reads (freeTexts entry.1) entry.2.compile := by
  simp only [spatial, List.forall_mem_cons, freeTexts]
  exact ⟨resize_legible.reads, crop_reads, pad_reads, rotate_legible.reads, flip_legible.reads,
    zoom_legible.reads, kenBurns_legible.reads, drift_legible.reads, aspect_reads,
    mirror_legible.reads, captionSpace_legible.reads, perspective_legible.reads,
    lensCorrection_legible.reads, spin_legible.reads, shake_legible.reads, pulse_legible.reads,
    bounce_legible.reads, irisReveal_legible.reads, wipe_legible.reads, slideIn_legible.reads,
    scroll_legible.reads, fillBorders_legible.reads, deshake_legible.reads, by simp⟩

end SkillPipeline.Effect
