import SkillPipeline.Proofs.Effect.Numbering

namespace SkillPipeline.Effect

open Contribution Handler Reliance

namespace SequenceSegment

/-- The stream that a segment takes of a medium. -/
def source (s : SequenceSegment) (medium : Medium) : Pad :=
  match s.extra? with
  | some e => .input e.index medium
  | none => .main medium

/-- The media of the sound that a segment brings; a still image has none. -/
def sounding (s : SequenceSegment) : List Medium := if s.still then [] else [.audio]

theorem label?_source (s : SequenceSegment) (medium : Medium) :
    (s.source medium).label? = none := by
  rw [source]
  split <;> rfl

end SequenceSegment

/-- Segments that a step may put together: extra inputs of its own, and the main video once at
most. -/
structure Segmented (own : List Nat) (segments : List SequenceSegment) : Prop where
  pads : ∀ s ∈ segments, s.pad = s.source .video
  owned : ∀ s ∈ segments, ∀ e, s.extra? = some e → e.index ∈ own
  main_once : segments.countP (·.extra?.isNone) ≤ 1

theorem sequenceSegments_segmented (ctx : HandlerContext) (includeMain : Bool) :
    Segmented ctx.ownInputs (sequenceSegments ctx includeMain) := by
  -- A segment is the main stream, which comes first if at all, or one of the inputs owned.
  have hextra : ∀ s ∈ (ctx.ownInputs.filterMap ctx.extra?).map segmentOf,
      ∃ e, e.index ∈ ctx.ownInputs ∧ s = segmentOf e := by
    intro s hs
    obtain ⟨e, he, rfl⟩ := List.mem_map.mp hs
    obtain ⟨index, hindex, hfound⟩ := List.mem_filterMap.mp he
    have heq : e.index = index := by simpa using List.find?_some hfound
    exact ⟨e, heq ▸ hindex, rfl⟩
  have hnone : ((ctx.ownInputs.filterMap ctx.extra?).map segmentOf).countP
      (·.extra?.isNone) = 0 := by
    refine List.countP_eq_zero.mpr fun s hs => ?_
    obtain ⟨e, -, rfl⟩ := hextra s hs
    simp [segmentOf]
  have hmain : ∀ s ∈ (if includeMain then [⟨.main .video, false, none⟩] else []
      : List SequenceSegment), s = ⟨.main .video, false, none⟩ := by
    cases includeMain <;> simp
  refine ⟨fun s hs => ?_, fun s hs e he => ?_, ?_⟩
  · obtain hs | hs := List.mem_append.mp hs
    · rw [hmain s hs]
      rfl
    · obtain ⟨e, -, rfl⟩ := hextra s hs
      rfl
  · obtain hs | hs := List.mem_append.mp hs
    · rw [hmain s hs] at he
      cases he
    · obtain ⟨e', he', rfl⟩ := hextra s hs
      cases he
      exact he'
  · rw [sequenceSegments, List.countP_append, hnone]
    cases includeMain <;> simp

theorem Segmented.filter {own : List Nat} {segments : List SequenceSegment}
    (h : Segmented own segments) (keep : SequenceSegment → Bool) :
    Segmented own (segments.filter keep) :=
  ⟨fun s hs => h.pads s (List.mem_of_mem_filter hs),
    fun s hs => h.owned s (List.mem_of_mem_filter hs),
    Nat.le_trans (List.filter_sublist.countP_le ..) h.main_once⟩

/-- What segments take of their sources, given which media each of them takes. -/
def drawn (media : SequenceSegment → List Medium) (segments : List SequenceSegment) : List Pad :=
  segments.flatMap fun s => (media s).map s.source

section Drawn

variable {own : List Nat} {segments : List SequenceSegment}
  {media : SequenceSegment → List Medium} {pad : Pad}

theorem label?_of_mem_drawn (h : pad ∈ drawn media segments) : pad.label? = none := by
  obtain ⟨s, -, hpad⟩ := List.mem_flatMap.mp h
  obtain ⟨medium, -, rfl⟩ := List.mem_map.mp hpad
  exact s.label?_source medium

theorem owned_of_mem_drawn (hsegments : Segmented own segments) {index : Nat}
    (h : index ∈ (drawn media segments).filterMap Pad.index?) : index ∈ own := by
  obtain ⟨pad, hpad, hindex⟩ := List.mem_filterMap.mp h
  obtain ⟨s, hs, hpad⟩ := List.mem_flatMap.mp hpad
  obtain ⟨medium, -, rfl⟩ := List.mem_map.mp hpad
  rw [SequenceSegment.source] at hindex
  cases he : s.extra? with
  | none => simp [he, Pad.index?] at hindex
  | some e =>
    have heq : e.index = index := by simpa [he, Pad.index?] using hindex
    exact heq ▸ hsegments.owned s hs e he

theorem taken_of_mem_drawn {medium : Medium} (h : .main medium ∈ drawn media segments) :
    ∃ s ∈ segments, medium ∈ media s := by
  obtain ⟨s, hs, hpad⟩ := List.mem_flatMap.mp h
  obtain ⟨other, hother, hpad⟩ := List.mem_map.mp hpad
  rw [SequenceSegment.source] at hpad
  split at hpad
  · cases hpad
  · cases hpad
    exact ⟨s, hs, hother⟩

/-- Main streams are taken once at most, since only one segment is the main video. -/
theorem count_main_drawn_le (media : SequenceSegment → List Medium)
    (hsegments : Segmented own segments) (hmedia : ∀ s, (media s).Nodup)
    (medium : Medium) : (drawn media segments).count (.main medium) ≤ 1 := by
  refine Nat.le_trans ?_ hsegments.main_once
  clear hsegments
  -- On the segments: only one that stands for the main stream adds to the count.
  induction segments with
  | nil => exact Nat.le_refl 0
  | cons s rest ih =>
    have hcount : ((media s).map s.source).count (.main medium) ≤
        if s.extra?.isNone then 1 else 0 := by
      cases he : s.extra? with
      | some e =>
        have hsource : s.source = .input e.index := by
          funext medium
          simp [SequenceSegment.source, he]
        have hne : Pad.main medium ∉ (media s).map (Pad.input e.index) := by simp
        rw [hsource, List.count_eq_zero_of_not_mem hne]
        exact Nat.zero_le _
      | none =>
        have hsource : s.source = .main := by
          funext medium
          simp [SequenceSegment.source, he]
        have hnodup : ((media s).map Pad.main).Nodup :=
          (hmedia s).map fun _ _ h => Pad.main.inj h
        rw [hsource]
        exact List.nodup_iff_count_le_one.mp hnodup (.main medium)
    rw [drawn, List.flatMap_cons, List.count_append, List.countP_cons, Nat.add_comm]
    exact Nat.add_le_add ih hcount

end Drawn

theorem meets_nodeOf {r : Reliance} (inputs : List Pad) (parts : List FilterText.Part)
    (outputs : List String) :
    r.Meets (GraphNode.of inputs parts outputs) fun node => node.bare = wire inputs outputs := by
  rw [GraphNode.of, meets_bind]
  exact meets_of_forall (meets_ofParts parts) fun t => rfl

@[simp] theorem meets_requireSegments {r : Reliance} (skill : String) (least : Nat)
    (segments : List SequenceSegment) :
    r.Meets (requireSegments skill least segments) fun _ => True := by
  rw [requireSegments]
  split <;> trivial

theorem meets_canvasOf {needs : List Need} {p : Params} {ctx : HandlerContext}
    {width height : String} (hwidth : .numberIfAny width ∈ needs)
    (hheight : .numberIfAny height ∈ needs) (hbackground : .valueIfAny "background" ∈ needs) :
    Reliance.Meets ⟨needs, p, ctx⟩ (canvasOf p ctx width height) fun _ => True := by
  rw [canvasOf]
  cases hhas : p.has "background" <;>
    simp [hwidth, hheight, hhas, meets_textIfAny, hbackground]

@[simp] theorem meets_prepareSegment {r : Reliance} (c : Canvas) (seconds : Float)
    (retime : FilterText) (s : SequenceSegment) :
    r.Meets (prepareSegment c seconds retime s) fun _ => True := by
  simp [prepareSegment, Canvas.fit]

@[simp] theorem meets_restart {r : Reliance} (c : Canvas) : r.Meets (restart c) fun _ => True :=
  meets_ofParts _

@[simp] theorem meets_sameRate {r : Reliance} (c : Canvas) : r.Meets (sameRate c) fun _ => True :=
  meets_ofParts _

theorem meets_segmentAudio {r : Reliance} (s : SequenceSegment) (seconds : Float)
    (output : String) :
    r.Meets (segmentAudio s seconds output) fun node =>
      node.bare = wire (s.sounding.map s.source) [output] := by
  unfold segmentAudio
  split
  · next hstill =>
    rw [meets_bind, SequenceSegment.sounding, if_pos hstill]
    exact meets_of_forall (meets_decimal seconds) fun length => meets_nodeOf ..
  · next hstill =>
    rw [SequenceSegment.sounding, if_neg hstill]
    exact meets_nodeOf ..

theorem claimRest_claims {needs : List Need} (h : .ownInput ∉ needs) : Claims needs claimRest where
  meets p ctx := by
    refine ⟨fun index hindex => ?_, fun hown => absurd hown h⟩
    obtain ⟨e, he, rfl⟩ := List.mem_map.mp hindex
    exact ⟨e, mem_extras_of_mem_freeExtras he, rfl⟩
  wordless p ctx := wordless_ok

section Fan

variable {own : List Nat} {segments : List SequenceSegment}
  {media : SequenceSegment → List Medium} {g : SequenceSegment × Nat → List GraphNode}
  {outs : Nat → List String} {video? audio? : Option String}

/-- Numbered nodes on the sources of segments, and a node that joins them. -/
def fan (segments : List SequenceSegment) (g : SequenceSegment × Nat → List GraphNode)
    (outs : Nat → List String) (video? audio? : Option String) : Fragment where
  nodes := segments.zipIdx.flatMap g
    ++ [wire (((List.range segments.length).flatMap outs).map .label)
      (video?.toList ++ audio?.toList)]
  video? := video?
  audio? := audio?

theorem fan_inputs (hins : ∀ p, (g p).flatMap (·.inputs) = (media p.1).map p.1.source) :
    (segments.zipIdx.flatMap g).flatMap (·.inputs) = drawn media segments := by
  rw [List.flatMap_assoc, drawn, ← flatMap_zipIdx_fst segments]
  simp only [hins]

theorem fan_pads (hins : ∀ p, (g p).flatMap (·.inputs) = (media p.1).map p.1.source) :
    (fan segments g outs video? audio?).pads = drawn media segments
      ++ ((List.range segments.length).flatMap outs).map .label := by
  rw [Fragment.pads, fan, List.flatMap_append, fan_inputs hins, List.flatMap_singleton, wire]

theorem fan_wired (media : SequenceSegment → List Medium) (h : Segmented own segments)
    (hmedia : ∀ s, (media s).Nodup)
    (hins : ∀ p, (g p).flatMap (·.inputs) = (media p.1).map p.1.source)
    (houts : ∀ p, (g p).flatMap (·.outputs) = outs p.2)
    (hnodup : ((List.range segments.length).flatMap outs
      ++ (video?.toList ++ audio?.toList)).Nodup)
    (hreplaced : ∀ s, ∀ medium ∈ media s,
      (fan segments g outs video? audio?).replaces medium = true) :
    (fan segments g outs video? audio?).Wired := by
  -- The numbered nodes read no labels, and the last node reads all of theirs once.
  have hproduced : (segments.zipIdx.flatMap g).flatMap (·.outputs) =
      (List.range segments.length).flatMap outs := by
    rw [List.flatMap_assoc, ← flatMap_zipIdx_snd]
    simp only [houts]
  have hfree : ∀ node ∈ segments.zipIdx.flatMap g, node.reads = [] := by
    intro node hnode
    refine List.filterMap_eq_nil_iff.mpr fun pad hpad => ?_
    have hmem := List.mem_flatMap.mpr ⟨node, hnode, hpad⟩
    rw [fan_inputs hins] at hmem
    exact label?_of_mem_drawn hmem
  have hlabels (medium : Medium) :
      Pad.main medium ∉ ((List.range segments.length).flatMap outs).map Pad.label := by
    simp
  have hwoven : Fragment.Woven (fan segments g outs video? audio?).nodes
      (video?.toList ++ audio?.toList) := by
    refine Fragment.woven_fan hfree ?_ ?_
    · rw [hproduced, wire]
    · rw [hproduced]
      exact hnodup
  refine hwoven.wired (fun medium => ?_) fun medium hread => ?_
  · rw [fan_pads hins, List.count_append, List.count_eq_zero_of_not_mem (hlabels medium)]
    exact count_main_drawn_le media h hmedia medium
  · rw [fan_pads hins, List.mem_append] at hread
    obtain ⟨s, -, hs⟩ := taken_of_mem_drawn (hread.resolve_right (hlabels medium))
    exact hreplaced s medium hs

theorem fan_owned (media : SequenceSegment → List Medium) (h : Segmented own segments)
    (hins : ∀ p, (g p).flatMap (·.inputs) = (media p.1).map p.1.source) :
    ∀ index ∈ (fan segments g outs video? audio?).indices, index ∈ own := by
  intro index hindex
  rw [Fragment.indices, fan_pads hins, List.filterMap_append, List.filterMap_map,
    List.mem_append] at hindex
  obtain hdrawn | hlabel := hindex
  · exact owned_of_mem_drawn h hdrawn
  · obtain ⟨label, -, hnone⟩ := List.mem_filterMap.mp hlabel
    cases hnone

end Fan

/-- The wiring of segments that are laid next to each other, or shown in turn without sound. -/
def stack (name : String) (segments : List SequenceSegment) : Fragment :=
  fan segments (fun p => [wire [p.1.source .video] [numbered name p.2]])
    (fun i => [numbered name i]) (some "out") none

theorem stack_sound {own : List Nat} {segments : List SequenceSegment} {name : String}
    {f : Fragment} (h : Segmented own segments) (hname : Digitless name)
    (hf : f.bare = stack name segments) : f.Sound own := by
  refine .of_bare (fan_wired (fun _ => [.video]) h (fun s => List.nodup_singleton _)
    (fun p => rfl) (fun p => rfl) ?_ fun s medium hmedium => ?_) hf
    (fan_owned (fun _ => [.video]) h fun p => rfl)
  · rw [← List.map_eq_flatMap]
    refine List.nodup_append'.mpr ⟨nodup_numbered hname _, List.nodup_singleton _,
      fun label hlabel hout => ?_⟩
    obtain ⟨i, -, rfl⟩ := List.mem_map.mp hlabel
    exact numbered_ne (by decide) name i (List.mem_singleton.mp hout)
  · rw [List.mem_singleton.mp hmedium]
    rfl

theorem stack_of_nodes {own : List Nat} {segments : List SequenceSegment} {name : String}
    {nodes : List GraphNode} {join : GraphNode} (h : Segmented own segments)
    (hname : Digitless name)
    (hnodes : nodes.map (·.bare) =
      segments.zipIdx.map fun p => wire [p.1.source .video] [numbered name p.2])
    (hjoin : join.bare = wire (numberedLabels name segments.length) ["out"]) :
    Fragment.Sound { nodes := nodes ++ [join], video? := some "out" } own := by
  have hparts : segments.zipIdx.flatMap (fun p =>
      [wire [p.1.source .video] [numbered name p.2]]) = nodes.map (·.bare) := by
    rw [hnodes, List.map_eq_flatMap]
  have hlabels : ((List.range segments.length).flatMap fun i => [numbered name i]).map
      Pad.label = numberedLabels name segments.length := by
    rw [← List.map_eq_flatMap, List.map_map]
    rfl
  refine stack_sound h hname ?_
  rw [Fragment.bare, stack, fan, hparts, hlabels, List.map_append, List.map_singleton, hjoin]
  rfl

theorem gridCell_wired {r : Reliance} {own : List Nat} {segments : List SequenceSegment}
    (h : Segmented own segments) (c : Canvas) (layout : GridLayout Float) (seconds : Float) :
    ∀ p ∈ segments.zipIdx, r.Meets (gridCell c layout seconds p) fun cell =>
      cell.1.bare = wire [p.1.source .video] [numbered "g" p.2] := by
  intro p hp
  rw [gridCell, ← h.pads p.1 (List.fst_mem_of_mem_zipIdx hp)]
  simp [GraphNode.bare, wire]

theorem grid_compiles :
    Compiles [.flag "include_video", .number "columns", .number "gap", .number "duration",
      .numberIfAny "cell_width", .numberIfAny "cell_height", .valueIfAny "background"] grid := by
  intro p ctx
  simp only [grid, meets_bind, meets_pure]
  refine meets_of_forall (meets_bool (by simp)) fun includeVideo => ?_
  have hsegments := sequenceSegments_segmented ctx includeVideo
  refine meets_of_forall (meets_requireSegments ..) fun _ => ?_
  refine meets_of_forall (meets_int (by simp)) fun columns => ?_
  refine meets_of_forall (meets_int (by simp)) fun gap => ?_
  refine meets_of_forall (meets_float (by simp)) fun seconds => ?_
  refine meets_of_forall (meets_canvasOf (by simp) (by simp) (by simp)) fun c => ?_
  refine (meets_mapM (gridCell_wired hsegments c _ seconds)).mono fun cells hcells => ?_
  refine (meets_nodeOf ..).mono fun stacked hstacked => ?_
  refine meets_of_forall (meets_decimal _) fun length => ?_
  refine sound_graph fun _ => stack_of_nodes hsegments (by decide) ?_ hstacked
  rw [List.map_map]
  exact hcells

theorem slide_wired {r : Reliance} {own : List Nat} {segments : List SequenceSegment}
    (h : Segmented own segments) (c : Canvas) (hold : Float) (fade? : Option Float) (count : Nat) :
    ∀ p ∈ segments.zipIdx, r.Meets (slide c hold fade? count p) fun node =>
      node.bare = wire [p.1.source .video] [numbered "s" p.2] := by
  intro p hp
  rw [slide, ← h.pads p.1 (List.fst_mem_of_mem_zipIdx hp)]
  cases fade? <;> simp [GraphNode.bare, wire]

theorem slideshow_compiles :
    Compiles [.flag "include_video", .numberIfAny "width", .numberIfAny "height",
      .number "duration_per_image", .value "transition", .number "transition_duration",
      .valueIfAny "background"] slideshow := by
  intro p ctx
  simp only [slideshow, meets_bind]
  refine meets_of_forall (meets_bool (by simp)) fun includeVideo => ?_
  have hsegments := sequenceSegments_segmented ctx includeVideo
  refine meets_of_forall (meets_requireSegments ..) fun _ => ?_
  refine meets_of_forall (meets_canvasOf (by simp) (by simp) (by simp)) fun c => ?_
  refine meets_of_forall (meets_float (by simp)) fun hold => ?_
  refine meets_of_forall (meets_string (by simp)) fun transition => ?_
  refine meets_of_forall (meets_float (by simp)) fun length => ?_
  rw [meets_ite]
  refine ⟨fun _ => meets_error.mpr (excuses_validation _), fun _ => ?_⟩
  simp only [meets_bind, meets_pure]
  refine (meets_mapM (slide_wired hsegments c hold _ _)).mono fun slides hslides => ?_
  refine (meets_nodeOf ..).mono fun joined hjoined => ?_
  exact sound_graph fun _ => stack_of_nodes hsegments (by decide) hslides hjoined

theorem splitScreen_compiles :
    Compiles [.number "duration", .numberIfAny "width", .numberIfAny "height", .value "layout",
      .valueIfAny "background"] splitScreen := by
  intro p ctx
  simp only [splitScreen, meets_bind]
  have hsegments := sequenceSegments_segmented ctx true
  refine meets_of_forall (meets_requireSegments ..) fun _ => ?_
  refine meets_of_forall (meets_float (by simp)) fun seconds => ?_
  refine meets_of_forall (meets_canvasOf (by simp) (by simp) (by simp)) fun c => ?_
  refine (meets_mapM (g := GraphNode.bare) (h := fun p =>
    wire [p.1.source .video] [numbered "c" p.2]) fun p hp => ?_).mono fun parts hparts => ?_
  · rw [← hsegments.pads p.1 (List.fst_mem_of_mem_zipIdx hp)]
    simp [GraphNode.bare, wire]
  refine meets_of_forall (meets_string (by simp)) fun layout => ?_
  refine (meets_nodeOf ..).mono fun stacked hstacked => ?_
  have hgraph (tokens : List String) : Contribution.Sound
      { outputFlags := tokens
        graph? := some { nodes := parts ++ [stacked], video? := some "out" } } ctx.ownInputs :=
    sound_graph fun _ => stack_of_nodes hsegments (by decide) hparts hstacked
  simp [hgraph]

def concatMedia (withAudio : Bool) (s : SequenceSegment) : List Medium :=
  .video :: if withAudio then s.sounding else []

def concatWires (withAudio : Bool) (p : SequenceSegment × Nat) : List GraphNode :=
  wire [p.1.source .video] [numbered "v" p.2]
    :: if withAudio then [wire (p.1.sounding.map p.1.source) [numbered "a" p.2]] else []

def concatLabels (withAudio : Bool) (i : Nat) : List String :=
  numbered "v" i :: if withAudio then [numbered "a" i] else []

theorem concatSegment_wired {r : Reliance} {own : List Nat} {segments : List SequenceSegment}
    (h : Segmented own segments) (c : Canvas) (still : Float) (withAudio : Bool) :
    ∀ p ∈ segments.zipIdx, r.Meets (concatSegment c still withAudio p) fun nodes =>
      nodes.map (·.bare) = concatWires withAudio p := by
  intro p hp
  simp only [concatSegment, concatWires, meets_bind,
    ← h.pads p.1 (List.fst_mem_of_mem_zipIdx hp)]
  refine meets_of_forall (meets_restart c) fun retime => ?_
  refine meets_of_forall (meets_prepareSegment ..) fun filter => ?_
  cases withAudio with
  | false => rfl
  | true =>
    simp only [↓reduceIte, meets_bind]
    refine (meets_segmentAudio ..).mono fun node hnode => ?_
    rw [meets_pure, List.map_cons, List.map_singleton, hnode]
    rfl

theorem exists_of_mem_concatLabels {withAudio : Bool} {i : Nat} {label : String}
    (h : label ∈ concatLabels withAudio i) : ∃ word, Digitless word ∧ label = numbered word i := by
  cases withAudio with
  | false => exact ⟨"v", by decide, by simpa [concatLabels] using h⟩
  | true =>
    have hlabel : label = numbered "v" i ∨ label = numbered "a" i := by
      simpa [concatLabels] using h
    obtain rfl | rfl := hlabel
    · exact ⟨"v", by decide, rfl⟩
    · exact ⟨"a", by decide, rfl⟩

theorem concatLabels_nodup (withAudio : Bool) (count : Nat) :
    ((List.range count).flatMap (concatLabels withAudio)).Nodup := by
  refine List.nodup_flatMap.mpr ⟨fun i _ => ?_, ?_⟩
  · have hne : numbered "v" i ≠ numbered "a" i := fun h =>
      absurd ((numbered_inj (by decide) (by decide)).mp h).1 (by decide)
    cases withAudio <;> simp [concatLabels, hne]
  · refine List.nodup_range.imp fun {i j} hij label hi hj => ?_
    obtain ⟨word, hword, rfl⟩ := exists_of_mem_concatLabels hi
    obtain ⟨other, hother, heq⟩ := exists_of_mem_concatLabels hj
    exact hij ((numbered_inj hword hother).mp heq).2

theorem concatPads_eq (count : Nat) (withAudio : Bool) :
    ((List.range count).flatMap (concatLabels withAudio)).map Pad.label =
      concatPads count withAudio := by
  rw [concatPads, List.map_flatMap]
  cases withAudio <;> rfl

theorem concatWires_inputs (withAudio : Bool) (p : SequenceSegment × Nat) :
    (concatWires withAudio p).flatMap (·.inputs) =
      (concatMedia withAudio p.1).map p.1.source := by
  cases withAudio <;> simp [concatWires, concatMedia, wire]

theorem concat_wired {own : List Nat} {segments : List SequenceSegment}
    (h : Segmented own segments) (withAudio : Bool) :
    (fan segments (concatWires withAudio) (concatLabels withAudio) (some "outv")
      (if withAudio then some "outa" else none)).Wired := by
  refine fan_wired (concatMedia withAudio) h (fun s => ?_)
    (concatWires_inputs withAudio) (fun p => ?_) ?_ fun s medium hmedium => ?_
  · rw [concatMedia, SequenceSegment.sounding]
    cases withAudio <;> cases s.still <;> decide
  · cases withAudio <;> rfl
  · have hends : ((some "outv").toList
        ++ (if withAudio then some "outa" else none : Option String).toList).Nodup := by
      cases withAudio <;> decide
    have hdigitless : ∀ label ∈ (some "outv").toList
        ++ (if withAudio then some "outa" else none : Option String).toList, Digitless label := by
      cases withAudio <;> decide
    refine List.nodup_append'.mpr ⟨concatLabels_nodup _ _, hends, fun label hlabel hend => ?_⟩
    obtain ⟨i, -, hi⟩ := List.mem_flatMap.mp hlabel
    obtain ⟨word, -, rfl⟩ := exists_of_mem_concatLabels hi
    exact numbered_ne (hdigitless _ hend) word i rfl
  · cases withAudio <;> cases medium <;> simp_all [concatMedia, Fragment.replaces,
      Fragment.output?, fan]

theorem concat_sound {own : List Nat} {segments : List SequenceSegment}
    {nodes : List (List GraphNode)} {joined : GraphNode} (h : Segmented own segments)
    (withAudio : Bool)
    (hnodes : nodes.map (fun group => group.map (·.bare)) =
      segments.zipIdx.map (concatWires withAudio))
    (hjoined : joined.bare = wire (concatPads segments.length withAudio)
      (if withAudio then ["outv", "outa"] else ["outv"])) :
    Fragment.Sound
      { nodes := nodes.flatten ++ [joined]
        video? := some "outv"
        audio? := if withAudio then some "outa" else none } own := by
  have hparts : nodes.flatten.map (·.bare) =
      segments.zipIdx.flatMap (concatWires withAudio) := by
    rw [List.map_flatten, hnodes, List.flatMap_def]
  have hends : (if withAudio then ["outv", "outa"] else ["outv"]) = (some "outv").toList
      ++ (if withAudio then some "outa" else none : Option String).toList := by
    cases withAudio <;> rfl
  refine .of_bare (concat_wired h withAudio) ?_ (fan_owned _ h (concatWires_inputs withAudio))
  rw [Fragment.bare, fan, List.map_append, List.map_singleton, hparts, hjoined, hends,
    concatPads_eq]

theorem concat_compiles :
    Compiles [.numberIfAny "width", .numberIfAny "height", .numberIfAny "still_duration",
      .valueIfAny "background"] concat := by
  intro p ctx
  simp only [concat, meets_bind]
  have hsegments := sequenceSegments_segmented ctx true
  refine meets_of_forall (meets_requireSegments ..) fun _ => ?_
  refine meets_of_forall (meets_canvasOf (by simp) (by simp) (by simp)) fun c => ?_
  refine meets_of_forall (meets_floatOr (by simp)) fun still => ?_
  refine (meets_mapM (concatSegment_wired hsegments c still _)).mono fun nodes hnodes => ?_
  refine (meets_nodeOf ..).mono fun joined hjoined => sound_graph fun _ => ?_
  exact concat_sound hsegments ctx.primary.hasAudio hnodes hjoined

theorem length_offsetsFrom (transition running : Float) (durations : List Float) :
    (Crossfade.offsetsFrom transition running durations).length = durations.length := by
  induction durations generalizing running with
  | nil => rfl
  | cons d rest ih => rw [Crossfade.offsetsFrom, List.length_cons, ih, List.length_cons]

theorem length_offsets (transition : Float) (durations : List Float) :
    (Crossfade.offsets transition durations).length = durations.tail.length := by
  cases durations with
  | nil => rfl
  | cons d rest => exact length_offsetsFrom transition d rest

/-- The wiring of segments that go over into one another in one medium. -/
def fades (name later : String) (media : SequenceSegment → List Medium)
    (segments : List SequenceSegment) : List GraphNode :=
  chain name later (segments.map fun s => (media s).map s.source)

def joint (name later : String) (k : Nat) : GraphNode :=
  wire [.label (joinedLabel (numbered name 0) later k), .label (numbered name (k + 1))]
    [numbered later (k + 1)]

section Fades

variable {own : List Nat} {segments : List SequenceSegment} {name later : String}
  {media : SequenceSegment → List Medium}

theorem fades_eq (media : SequenceSegment → List Medium) {parts joints : List GraphNode}
    (hparts : parts.map (·.bare) = segments.zipIdx.map fun p =>
      wire ((media p.1).map p.1.source) [numbered name p.2])
    (hjoints : joints.map (·.bare) = (List.range (segments.length - 1)).map (joint name later)) :
    (parts ++ joints).map (·.bare) = fades name later media segments := by
  have hjoint : (segments.map fun s => (media s).map s.source).tail.zipIdx.flatMap
      (fun p => [joint name later p.2]) = joints.map (·.bare) := by
    rw [flatMap_zipIdx_snd _ fun k => [joint name later k], List.length_tail, List.length_map,
      hjoints, List.map_eq_flatMap]
  rw [List.map_append, ← hjoint, hparts, fades, chain, List.zipIdx_map, List.flatMap_map,
    List.map_eq_flatMap]
  rfl

theorem fades_woven (media : SequenceSegment → List Medium) (hname : Digitless name)
    (hlater : Digitless later) (hne : name ≠ later) (hsome : segments ≠ []) :
    Fragment.Woven (fades name later media segments)
      [joinedLabel (numbered name 0) later (segments.length - 1)] := by
  have hfree : ∀ pads ∈ segments.map fun s => (media s).map s.source,
      ∀ pad ∈ pads, pad.label? = none := by
    intro pads hpads pad hpad
    obtain ⟨s, -, rfl⟩ := List.mem_map.mp hpads
    obtain ⟨medium, -, rfl⟩ := List.mem_map.mp hpad
    exact s.label?_source medium
  have hwoven := chain_woven hname hlater hne hfree (by simpa using hsome)
  rwa [List.length_tail, List.length_map] at hwoven

theorem fades_inputs : (fades name later media segments).flatMap (·.inputs) =
    drawn media segments ++ (List.range (segments.length - 1)).flatMap fun k =>
      [.label (joinedLabel (numbered name 0) later k), .label (numbered name (k + 1))] := by
  rw [fades, chain_inputs, List.length_tail, List.length_map, drawn, ← List.flatMap_def]

end Fades

theorem crossfadeNode_wired {r : Reliance} (transition : FilterText) (length : Float)
    (p : Float × Nat) :
    r.Meets (crossfadeNode transition length p) fun node => node.bare = joint "v" "x" p.2 := by
  simp only [crossfadeNode, meets_bind]
  refine meets_of_forall (meets_decimal _) fun duration => ?_
  refine meets_of_forall (meets_decimal _) fun offset => ?_
  exact meets_nodeOf ..

theorem audioCrossfadeNode_wired {r : Reliance} (length : Float) (k : Nat) :
    r.Meets (audioCrossfadeNode length k) fun node => node.bare = joint "a" "ax" k := by
  rw [audioCrossfadeNode, meets_bind]
  exact meets_of_forall (meets_decimal _) fun duration => meets_nodeOf ..

theorem count_main_fades {segments : List SequenceSegment} {name later : String}
    {media : SequenceSegment → List Medium} (medium : Medium) :
    ((fades name later media segments).flatMap (·.inputs)).count (.main medium) =
      (drawn media segments).count (.main medium) := by
  have hlabels : Pad.main medium ∉ (List.range (segments.length - 1)).flatMap fun k =>
      [.label (joinedLabel (numbered name 0) later k), .label (numbered name (k + 1))] := by
    simp
  rw [fades_inputs, List.count_append, List.count_eq_zero_of_not_mem hlabels, Nat.add_zero]

/-- The wiring of a crossfade: the video of all segments and the audio of some, if there are any. -/
def crossfade (segments audible : List SequenceSegment) : Fragment where
  nodes := fades "v" "x" (fun _ => [.video]) segments
    ++ if audible = [] then [] else fades "a" "ax" SequenceSegment.sounding audible
  video? := some (joinedLabel (numbered "v" 0) "x" (segments.length - 1))
  audio? := if audible = [] then none
    else some (joinedLabel (numbered "a" 0) "ax" (audible.length - 1))

theorem crossfade_apart {segments audible : List SequenceSegment}
    {media others : SequenceSegment → List Medium} {label : String}
    (h : label ∈ (fades "v" "x" media segments).flatMap (·.outputs)) :
    label ∉ (fades "a" "ax" others audible).flatMap (·.outputs) := by
  intro h'
  obtain ⟨i, hi⟩ := exists_of_mem_chain h
  obtain ⟨j, hj⟩ := exists_of_mem_chain h'
  have hne (word other : String) (hword : Digitless word) (hother : Digitless other)
      (hne : word ≠ other) : numbered word i ≠ numbered other j := fun heq =>
    hne ((numbered_inj hword hother).mp heq).1
  obtain rfl | rfl := hi <;> obtain hj | hj := hj <;>
    exact hne _ _ (by decide) (by decide) (by decide) hj

theorem crossfade_woven {segments audible : List SequenceSegment} (hsome : segments ≠ []) :
    Fragment.Woven (crossfade segments audible).nodes (crossfade segments audible).finals := by
  have hvideo : Fragment.Woven (fades "v" "x" (fun _ => [.video]) segments)
      [joinedLabel (numbered "v" 0) "x" (segments.length - 1)] :=
    fades_woven _ (by decide) (by decide) (by decide) hsome
  by_cases haudible : audible = []
  · simpa [crossfade, Fragment.finals, haudible] using hvideo
  · have haudio : Fragment.Woven (fades "a" "ax" SequenceSegment.sounding audible)
        [joinedLabel (numbered "a" 0) "ax" (audible.length - 1)] :=
      fades_woven _ (by decide) (by decide) (by decide) haudible
    rw [crossfade, if_neg haudible]
    simpa [Fragment.finals, haudible] using hvideo.append haudio fun _ h => crossfade_apart h

theorem count_main_crossfade (segments audible : List SequenceSegment) (medium : Medium) :
    (crossfade segments audible).pads.count (.main medium) =
      (drawn (fun _ => [.video]) segments).count (.main medium)
        + (drawn SequenceSegment.sounding audible).count (.main medium) := by
  rw [Fragment.pads, crossfade, List.flatMap_append, List.count_append, count_main_fades]
  by_cases haudible : audible = []
  · simp [haudible, drawn]
  · rw [if_neg haudible, count_main_fades]

theorem crossfade_wired {own : List Nat} {segments audible : List SequenceSegment}
    (h : Segmented own segments) (h' : Segmented own audible) (hsome : segments ≠ []) :
    (crossfade segments audible).Wired := by
  have hvideo := count_main_drawn_le _ h fun _ => List.nodup_singleton Medium.video
  have haudio := count_main_drawn_le SequenceSegment.sounding h' fun s => by
    rw [SequenceSegment.sounding]
    split <;> decide
  have hsilent : (drawn (fun _ => [.video]) segments).count (.main .audio) = 0 := by
    refine List.count_eq_zero_of_not_mem fun hmem => ?_
    obtain ⟨s, -, hs⟩ := taken_of_mem_drawn hmem
    cases List.mem_singleton.mp hs
  have hblind : (drawn SequenceSegment.sounding audible).count (.main .video) = 0 := by
    refine List.count_eq_zero_of_not_mem fun hmem => ?_
    obtain ⟨s, -, hs⟩ := taken_of_mem_drawn hmem
    rw [SequenceSegment.sounding] at hs
    split at hs <;> simp at hs
  -- The video comes from all segments, and the audio from those that have some.
  refine (crossfade_woven hsome).wired (fun medium => ?_) fun medium hread => ?_
  · rw [count_main_crossfade]
    cases medium with
    | video => exact hblind ▸ hvideo .video
    | audio => rw [hsilent, Nat.zero_add]; exact haudio .audio
  · cases medium with
    | video => rfl
    | audio =>
      have hpos := List.count_pos_iff.mpr hread
      rw [count_main_crossfade, hsilent] at hpos
      have hne : audible ≠ [] := by
        rintro rfl
        simp [drawn] at hpos
      simp [Fragment.replaces, Fragment.output?, crossfade, hne]

theorem crossfade_owned {own : List Nat} {segments audible : List SequenceSegment}
    (h : Segmented own segments) (h' : Segmented own audible) :
    ∀ index ∈ (crossfade segments audible).indices, index ∈ own := by
  -- The same holds of the pictures and of the sounds.
  have hfades {name later : String} {media : SequenceSegment → List Medium}
      {all : List SequenceSegment} (hall : Segmented own all) :
      ∀ index ∈ ((fades name later media all).flatMap (·.inputs)).filterMap Pad.index?,
        index ∈ own := by
    intro index hindex
    rw [fades_inputs, List.filterMap_append, List.mem_append] at hindex
    obtain hdrawn | hlabel := hindex
    · exact owned_of_mem_drawn hall hdrawn
    · obtain ⟨pad, hpad, hindex⟩ := List.mem_filterMap.mp hlabel
      obtain ⟨k, -, hpad⟩ := List.mem_flatMap.mp hpad
      simp only [List.mem_cons, List.not_mem_nil, or_false] at hpad
      obtain rfl | rfl := hpad <;> cases hindex
  intro index hindex
  rw [Fragment.indices, Fragment.pads, crossfade, List.flatMap_append, List.filterMap_append,
    List.mem_append] at hindex
  obtain hindex | hindex := hindex
  · exact hfades h index hindex
  · split at hindex
    · cases hindex
    · exact hfades h' index hindex

theorem crossfade_sound {own : List Nat} {segments audible : List SequenceSegment} {f : Fragment}
    (h : Segmented own segments) (h' : Segmented own audible) (hsome : segments ≠ [])
    (hf : f.bare = crossfade segments audible) : f.Sound own :=
  .of_bare (crossfade_wired h h' hsome) hf (crossfade_owned h h')

theorem xfade_compiles :
    Compiles [.numberIfAny "width", .numberIfAny "height", .number "duration",
      .numberIfAny "still_duration", .value "transition", .valueIfAny "background"] xfade := by
  intro p ctx
  simp only [xfade, meets_bind]
  have hsegments := sequenceSegments_segmented ctx true
  have hsome : sequenceSegments ctx true ≠ [] := by simp [sequenceSegments]
  refine meets_of_forall (meets_requireSegments ..) fun _ => ?_
  refine meets_of_forall (meets_canvasOf (by simp) (by simp) (by simp)) fun c => ?_
  refine meets_of_forall (meets_float (by simp)) fun length => ?_
  refine meets_of_forall (meets_floatOr (by simp)) fun still => ?_
  refine meets_of_forall (meets_text (by simp)) fun transition => ?_
  refine (meets_mapM (g := GraphNode.bare) (h := fun p =>
    wire [p.1.source .video] [numbered "v" p.2]) fun p hp => ?_).mono fun video hvideo => ?_
  · rw [← hsegments.pads p.1 (List.fst_mem_of_mem_zipIdx hp)]
    simp [GraphNode.bare, wire]
  refine (meets_mapM fun p _ => crossfadeNode_wired transition length p).mono
    fun joints hjoints => ?_
  have hoffsets : (Crossfade.offsets length ((sequenceSegments ctx true).map
      (segmentSeconds ctx still))).length = (sequenceSegments ctx true).length - 1 := by
    rw [length_offsets, List.length_tail, List.length_map]
  rw [map_zipIdx_snd _ (joint "v" "x"), hoffsets] at hjoints
  have hfades := fades_eq (fun _ => [.video]) hvideo hjoints
  -- Without sound the pictures fade alone; with it the sounds are woven in beside them.
  rw [hoffsets, meets_ite]
  constructor
  · intro _
    have hnone : Segmented ctx.ownInputs [] := ⟨by simp, by simp, by simp⟩
    refine sound_graph fun _ => crossfade_sound hsegments hnone hsome ?_
    rw [Fragment.bare, hfades, crossfade, if_pos rfl, if_pos rfl, List.append_nil]
    rfl
  · intro haudible
    simp only [meets_bind]
    refine (meets_mapM fun p _ => meets_segmentAudio p.1 still _).mono fun audio haudio => ?_
    refine (meets_mapM fun k _ => audioCrossfadeNode_wired length k).mono
      fun audioJoints haudioJoints => ?_
    have hsounds := fades_eq _ haudio haudioJoints
    refine sound_graph fun _ => crossfade_sound hsegments
      (hsegments.filter fun s => !s.still) hsome ?_
    have hne : (sequenceSegments ctx true).filter (fun s => !s.still) ≠ [] := by
      intro hnil
      simp [hnil] at haudible
    rw [Fragment.bare, List.append_assoc, List.map_append, hfades, hsounds, crossfade, if_neg hne,
      if_neg hne]
    rfl

theorem sequence_keeps {needs : List Need}
    {compile : Params → HandlerContext → Except Fault Contribution} (h : Compiles needs compile)
    (hown : .ownInput ∉ needs) : Keeps needs (sequenceHandler compile) :=
  h.keeps_claiming (claimRest_claims hown)

end SkillPipeline.Effect
