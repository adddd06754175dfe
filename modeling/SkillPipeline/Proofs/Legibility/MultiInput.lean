import SkillPipeline.Effect.Overlay
import SkillPipeline.Proofs.Legibility.Contract

namespace SkillPipeline.Effect

open Contribution FilterText Handler Outcome

theorem neutral_numberedName {name : String} (i : Nat)
    (h : Filter.Neutral name.toList) :
    ∀ label ∈ [numbered name i], Filter.Neutral label.toList :=
  List.forall_mem_singleton.mpr (neutral_numbered h i)

theorem closed_canvasOf {p : Params} {ctx : HandlerContext} {width height : String} :
    Gives (fun c => c.background.Closed) (canvasOf p ctx width height) := by
  refine gives_bind fun w _ => gives_bind fun h _ => ?_
  dsimp only
  split
  · refine gives_bind fun background hbackground => gives_ok ?_
    exact (readAlike_paramText hbackground hbackground).left
  · refine gives_bind fun background hbackground => gives_ok ?_
    cases hbackground
    exact closed_wording rfl rfl

variable {c : Canvas}

theorem Canvas.closed_fit (h : c.background.Closed) : Gives Closed c.fit :=
  gives_ofParts (.lit rfl rfl <| .num <| .lit rfl rfl <| .num <| .lit rfl rfl <| .num <|
    .lit rfl rfl <| .num <| .lit rfl rfl <| .kept h <| .lit rfl rfl <| .nil _)

theorem closed_prepareSegment (h : c.background.Closed) {seconds : Float} {retime : FilterText}
    (hretime : retime.Closed) (s : SequenceSegment) :
    Gives Closed (prepareSegment c seconds retime s) := by
  refine (Canvas.closed_fit h).bind fun fit hfit => ?_
  split
  · exact gives_ofParts (.lit rfl rfl <| .num <| .lit rfl rfl <| .num <| .lit rfl rfl <|
      .kept hfit <| .nil _)
  · exact gives_ok (hfit.append hretime)

theorem closed_restart (c : Canvas) : Gives Closed (restart c) :=
  gives_ofParts (.lit rfl rfl <| .num <| .nil _)

theorem closed_sameRate (c : Canvas) : Gives Closed (sameRate c) :=
  gives_ofParts (.lit rfl rfl <| .num <| .nil _)

theorem segmentAudio_legible (s : SequenceSegment) (seconds : Float) {output : String}
    (h : Filter.Neutral output.toList) :
    Gives GraphNode.Legible (segmentAudio s seconds output) := by
  rw [segmentAudio]
  split
  · exact gives_bind fun length hlength => GraphNode.gives_of (.lit rfl rfl <|
      .number hlength hlength <| .lit rfl rfl <| .nil _) (List.forall_mem_singleton.mpr h)
  · exact GraphNode.gives_of (.lit rfl rfl <| .nil _) (List.forall_mem_singleton.mpr h)

theorem concatSegment_legible (h : c.background.Closed) (still : Float) (withAudio : Bool)
    (indexed : SequenceSegment × Nat) :
    Gives (fun nodes => ∀ n ∈ nodes, n.Legible) (concatSegment c still withAudio indexed) := by
  obtain ⟨s, i⟩ := indexed
  refine (closed_restart c).bind fun retime hretime => ?_
  refine (closed_prepareSegment h hretime s).bind fun filter hfilter => ?_
  have hvideo : GraphNode.Legible ⟨[s.pad], filter, [numbered "v" i]⟩ :=
    ⟨hfilter, neutral_numberedName i (by decide)⟩
  dsimp only
  split
  · refine (segmentAudio_legible s still (neutral_numbered (by decide) i)).bind fun n hn => ?_
    refine gives_ok ?_
    exact List.forall_mem_cons.mpr ⟨hvideo, List.forall_mem_singleton.mpr hn⟩
  · exact gives_ok (List.forall_mem_singleton.mpr hvideo)

theorem concat_legible : Legible concat := by
  intro p ctx
  refine gives_bind fun _ _ => closed_canvasOf.bind fun c hc => gives_bind fun still _ => ?_
  refine (gives_mapM fun indexed _ => concatSegment_legible hc _ _ indexed).bind
    fun nodes hnodes => ?_
  refine (GraphNode.gives_of (.lit rfl rfl <| .num <| .lit rfl rfl <| .num <| .nil _) ?_).bind
    fun joined hjoined => gives_ok (legible_graph ?_)
  · split <;> decide
  · refine List.forall_mem_append.mpr ⟨fun n hn => ?_, List.forall_mem_singleton.mpr hjoined⟩
    obtain ⟨part, hpart, hn⟩ := List.mem_flatten.mp hn
    exact hnodes part hpart n hn

theorem crossfadeNode_legible {transition : FilterText} (h : transition.Closed) (length : Float)
    (indexed : Float × Nat) :
    Gives GraphNode.Legible (crossfadeNode transition length indexed) := by
  obtain ⟨offset, k⟩ := indexed
  exact gives_bind fun duration hduration => gives_bind fun offset hoffset =>
    GraphNode.gives_of (.lit rfl rfl <| .kept h <| .lit rfl rfl <| .number hduration hduration <|
      .lit rfl rfl <| .number hoffset hoffset <| .nil _) (neutral_numberedName (k + 1) (by decide))

theorem audioCrossfadeNode_legible (length : Float) (k : Nat) :
    Gives GraphNode.Legible (audioCrossfadeNode length k) :=
  gives_bind fun _ hduration => GraphNode.gives_of (.lit rfl rfl <|
    .number hduration hduration <| .lit rfl rfl <| .nil _)
    (neutral_numberedName (k + 1) (by decide))

theorem xfade_legible : Legible xfade := by
  intro p ctx
  refine gives_bind fun _ _ => closed_canvasOf.bind fun c hc => gives_bind fun length _ => ?_
  refine gives_bind fun still _ => gives_bind fun transition htransition => ?_
  have htransition : transition.Closed := (readAlike_paramText htransition htransition).left
  have hsegment (indexed : SequenceSegment × Nat) : Gives GraphNode.Legible (do
      let filter ← prepareSegment c still (← sameRate c) indexed.1
      return (⟨[indexed.1.pad], filter, [numbered "v" indexed.2]⟩ : GraphNode)) :=
    (closed_sameRate c).bind fun retime hretime => (closed_prepareSegment hc hretime _).bind
      fun filter hfilter => gives_ok ⟨hfilter, neutral_numberedName indexed.2 (by decide)⟩
  refine (gives_mapM fun indexed _ => hsegment indexed).bind fun video hvideo => ?_
  refine (gives_mapM fun indexed _ => crossfadeNode_legible htransition length indexed).bind
    fun fades hfades => ?_
  have hpicture : ∀ n ∈ video ++ fades, n.Legible := List.forall_mem_append.mpr ⟨hvideo, hfades⟩
  dsimp only
  split
  · exact gives_ok (legible_graph hpicture)
  · refine (gives_mapM fun indexed _ => segmentAudio_legible indexed.1 still
      (neutral_numbered (by decide) indexed.2)).bind fun audio haudio => ?_
    refine (gives_mapM fun k _ => audioCrossfadeNode_legible length k).bind
      fun audioFades haudioFades => ?_
    exact gives_ok (legible_graph (List.forall_mem_append.mpr
      ⟨List.forall_mem_append.mpr ⟨hpicture, haudio⟩, haudioFades⟩))

theorem gridCell_legible (h : c.background.Closed) (layout : GridLayout Float) (seconds : Float)
    (indexed : SequenceSegment × Nat) :
    Gives (fun cell => cell.1.Legible ∧ cell.2.Closed) (gridCell c layout seconds indexed) := by
  obtain ⟨s, i⟩ := indexed
  refine (closed_sameRate c).bind fun retime hretime => ?_
  refine (closed_prepareSegment h hretime s).bind fun filter hfilter => ?_
  refine (gives_ofParts (r := .outside) (.num <| .lit rfl rfl <| .num <| .nil _)).bind
    fun place hplace => gives_ok ?_
  exact ⟨⟨hfilter, neutral_numberedName i (by decide)⟩, hplace⟩

theorem grid_legible : Legible grid := by
  intro p ctx
  refine gives_bind fun _ _ => gives_bind fun _ _ => gives_bind fun columns _ => ?_
  refine gives_bind fun gap _ => gives_bind fun seconds _ => closed_canvasOf.bind fun c hc => ?_
  refine (gives_mapM fun indexed _ => gridCell_legible hc _ seconds indexed).bind
    fun cells hcells => ?_
  have hplaces : (FilterText.join "|" (cells.map (·.2))).Closed := by
    refine (readAlike_join (s := "|") rfl (List.forall₂_same.mpr fun t ht => ?_)).left
    obtain ⟨cell, hcell, rfl⟩ := List.mem_map.mp ht
    exact (hcells cell hcell).2.alike
  refine (GraphNode.gives_of (.lit rfl rfl <| .num <| .lit rfl rfl <| .kept hplaces <|
    .lit rfl rfl <| .kept hc <| .nil _) (by decide)).bind fun stacked hstacked => ?_
  refine gives_bind fun length _ => ?_
  refine gives_ok (legible_graph (List.forall_mem_append.mpr
    ⟨fun n hn => ?_, List.forall_mem_singleton.mpr hstacked⟩))
  obtain ⟨cell, hcell, rfl⟩ := List.mem_map.mp hn
  exact (hcells cell hcell).1

theorem slide_legible (h : c.background.Closed) (hold : Float) (fade? : Option Float) (count : Nat)
    (indexed : SequenceSegment × Nat) :
    Gives GraphNode.Legible (slide c hold fade? count indexed) := by
  obtain ⟨s, i⟩ := indexed
  refine (closed_restart c).bind fun retime hretime => ?_
  refine (closed_prepareSegment h hretime s).bind fun chain hchain => ?_
  have hnode {chain : FilterText} (h : chain.Closed) :
      GraphNode.Legible ⟨[s.pad], chain, [numbered "s" i]⟩ :=
    ⟨h, neutral_numberedName i (by decide)⟩
  -- Whether it fades in or not, a slide may fade out.
  have hend {length : Float} {chain : FilterText} (h : chain.Closed) :
      Gives GraphNode.Legible (do
        let chain ← if i + 1 < count && s.still then do
            let start ← decimal (hold - length)
            ofParts [.sub chain, .lit ",fade=t=out:st=", .sub start, .lit ":d=",
              .sub (← decimal length)]
          else pure chain
        return ⟨[s.pad], chain, [numbered "s" i]⟩) := by
    dsimp only
    split
    · refine gives_bind fun start hstart => gives_bind fun d hd => ?_
      exact (gives_ofParts (.kept h <| .lit rfl rfl <| .number hstart hstart <| .lit rfl rfl <|
        .number hd hd <| .nil _)).bind fun chain hchain => gives_ok (hnode hchain)
    · exact gives_ok (hnode h)
  cases fade? with
  | none => exact gives_ok (hnode hchain)
  | some length =>
    dsimp only
    split
    · refine gives_bind fun d hd => ?_
      exact (gives_ofParts (.kept hchain <| .lit rfl rfl <| .number hd hd <| .nil _)).bind
        fun chain hchain => hend hchain
    · exact hend hchain

theorem slideshow_legible : Legible slideshow := by
  intro p ctx
  refine gives_bind fun _ _ => gives_bind fun _ _ => closed_canvasOf.bind fun c hc => ?_
  refine gives_bind fun hold _ => gives_bind fun _ _ => gives_bind fun length _ => ?_
  split
  · exact gives_error
  · refine (gives_mapM fun indexed _ => slide_legible hc hold _ _ indexed).bind
      fun slides hslides => ?_
    refine (GraphNode.gives_of (.lit rfl rfl <| .num <| .lit rfl rfl <| .nil _) (by decide)).bind
      fun joined hjoined => gives_ok (legible_graph ?_)
    exact List.forall_mem_append.mpr ⟨hslides, List.forall_mem_singleton.mpr hjoined⟩

theorem splitScreen_legible : Legible splitScreen := by
  intro p ctx
  refine gives_bind fun _ _ => gives_bind fun seconds _ => closed_canvasOf.bind fun c hc => ?_
  have hempty : FilterText.empty.Closed := rfl
  have hpart (hold : Float) (indexed : SequenceSegment × Nat) : Gives GraphNode.Legible (do
      return (⟨[indexed.1.pad], ← prepareSegment c hold .empty indexed.1,
        [numbered "c" indexed.2]⟩ : GraphNode)) :=
    (closed_prepareSegment hc hempty _).bind fun filter hfilter =>
      gives_ok ⟨hfilter, neutral_numberedName indexed.2 (by decide)⟩
  refine (gives_mapM fun indexed _ => hpart _ indexed).bind fun parts hparts => ?_
  refine gives_bind fun layout _ => ?_
  have hstack : (wording (if layout = "vertical" then "vstack" else "hstack")).Closed := by
    split <;> exact closed_wording rfl rfl
  refine (GraphNode.gives_of (.wording hstack <| .lit rfl rfl <| .num <| .nil _) (by decide)).bind
    fun stacked hstacked => ?_
  have hnodes : ∀ n ∈ parts ++ [stacked], n.Legible :=
    List.forall_mem_append.mpr ⟨hparts, List.forall_mem_singleton.mpr hstacked⟩
  dsimp only
  split
  · exact gives_bind fun _ _ => gives_bind fun _ _ => gives_ok (legible_graph hnodes)
  · exact gives_bind fun _ _ => gives_ok (legible_graph hnodes)

theorem closed_overlayCorner (position : String) (margin : Float) :
    Gives Closed (overlayCorner position margin) := by
  unfold overlayCorner
  split
  · exact gives_ofParts (r := .outside) (.num <| .lit rfl rfl <| .num <| .nil _)
  · exact gives_ofParts (.lit rfl rfl <| .num <| .lit rfl rfl <| .num <| .nil _)
  · exact gives_ofParts (r := .outside) (.num <| .lit rfl rfl <| .num <| .nil _)
  · exact gives_ofParts (.lit rfl rfl <| .nil _)
  · exact gives_ofParts (.lit rfl rfl <| .num <| .lit rfl rfl <| .num <| .nil _)

theorem neutral_overlaidLabel (index count : Nat) :
    ∀ label ∈ [overlaidLabel index count], Filter.Neutral label.toList := by
  rw [List.forall_mem_singleton, overlaidLabel]
  split
  · decide
  · exact neutral_numbered (by decide) index

theorem overlayNodes_legible (scale opacity margin : Float) (position : String) (count : Nat)
    (indexed : Nat × Nat) : Gives (fun nodes => ∀ n ∈ nodes, n.Legible)
      (overlayNodes scale opacity margin position count indexed) := by
  obtain ⟨source, i⟩ := indexed
  -- Both ways to write the fade are followed by the same two nodes.
  have hend {fade : FilterText} (h : fade.Closed) : Gives (fun nodes => ∀ n ∈ nodes, n.Legible) (do
      let factor ← decimal scale
      let scaled ← GraphNode.of [.input source .video]
        [.lit "format=rgba,scale=iw*", .sub factor, .lit ":ih*", .sub factor, .sub fade]
        [numbered "ovl" i]
      let place ← overlayCorner (cornerFor position i count) margin
      let laid ← GraphNode.of [overlayBase count i, .label (numbered "ovl" i)]
        [.lit "overlay=", .sub place] [overlaidLabel i count]
      return [scaled, laid]) := by
    refine gives_bind fun factor hfactor => ?_
    refine (GraphNode.gives_of (.lit rfl rfl <| .number hfactor hfactor <| .lit rfl rfl <|
      .number hfactor hfactor <| .kept h <| .nil _) (neutral_numberedName i (by decide))).bind
      fun scaled hscaled => (closed_overlayCorner _ _).bind fun place hplace => ?_
    refine (GraphNode.gives_of (.lit rfl rfl <| .kept hplace <| .nil _)
      (neutral_overlaidLabel i count)).bind fun laid hlaid => gives_ok ?_
    exact List.forall_mem_cons.mpr ⟨hscaled, List.forall_mem_singleton.mpr hlaid⟩
  rw [overlayNodes]
  dsimp only
  split
  · exact gives_bind fun alpha halpha => (gives_ofParts (.lit rfl rfl <|
      .number halpha halpha <| .nil _)).bind fun fade hfade => hend hfade
  · exact hend rfl

theorem overlayImages_legible : Legible overlayImages := by
  intro p ctx
  refine gives_bind fun scale _ => gives_bind fun opacity _ => gives_bind fun margin _ => ?_
  refine gives_bind fun position _ => ?_
  refine (gives_mapM fun indexed _ => overlayNodes_legible _ _ _ _ _ indexed).bind
    fun nodes hnodes => gives_ok (legible_graph fun n hn => ?_)
  obtain ⟨part, hpart, hn⟩ := List.mem_flatten.mp hn
  exact hnodes part hpart n hn

theorem closed_pictureCorner (position : String) (margin : Float) :
    Gives Closed (pictureCorner position margin) := by
  unfold pictureCorner
  split
  · exact gives_ofParts (r := .outside) (.num <| .lit rfl rfl <| .num <| .nil _)
  · exact gives_ofParts (.lit rfl rfl <| .num <| .lit rfl rfl <| .num <| .nil _)
  · exact gives_ofParts (r := .outside) (.num <| .lit rfl rfl <| .num <| .nil _)
  · exact gives_ofParts (.lit rfl rfl <| .nil _)
  · exact gives_ofParts (.lit rfl rfl <| .num <| .lit rfl rfl <| .num <| .nil _)

theorem pictureInPicture_legible : Legible pictureInPicture := by
  intro p ctx
  refine gives_bind fun source _ => gives_bind fun scale hscale => ?_
  refine (GraphNode.gives_of (.lit rfl rfl <| .decimal hscale hscale <| .lit rfl rfl <|
    .nil _) (by decide)).bind fun small hsmall => ?_
  refine gives_bind fun position _ => gives_bind fun margin _ => ?_
  refine (closed_pictureCorner _ _).bind fun place hplace => ?_
  refine (GraphNode.gives_of (.lit rfl rfl <| .kept hplace <| .lit rfl rfl <| .nil _)
    (by decide)).bind fun laid hlaid => gives_ok (legible_graph ?_)
  exact List.forall_mem_cons.mpr ⟨hsmall, List.forall_mem_singleton.mpr hlaid⟩

theorem blend_legible : Legible blend := by
  intro p ctx
  refine gives_bind fun extra _ => ?_
  have hstill : (wording (if extra.kind = .image then "loop=loop=-1:size=1:start=0," else
      "")).Closed := by
    split <;> exact closed_wording rfl rfl
  refine (GraphNode.gives_of (.wording hstill <| .lit rfl rfl <| .num <| .lit rfl rfl <| .num <|
    .lit rfl rfl <| .nil _) (by decide)).bind fun top htop => ?_
  refine gives_bind fun mode hmode => gives_bind fun opacity hopacity => ?_
  refine (GraphNode.gives_of (.lit rfl rfl <| .text hmode hmode <| .lit rfl rfl <|
    .decimal hopacity hopacity <| .lit rfl rfl <| .nil _)
    (by decide)).bind fun blended hblended => ?_
  exact gives_ok (legible_graph
    (List.forall_mem_cons.mpr ⟨htop, List.forall_mem_singleton.mpr hblended⟩))

theorem multiInput_legible : ∀ entry ∈ multiInput, Legible entry.2.compile := by
  simp only [multiInput, List.forall_mem_cons]
  exact ⟨concat_legible, xfade_legible, grid_legible, slideshow_legible, overlayImages_legible,
    overlayImages_legible, splitScreen_legible, pictureInPicture_legible, blend_legible, by simp⟩

end SkillPipeline.Effect
