import SkillPipeline.Effect.Overlay
import SkillPipeline.Proofs.Effect.Sequence

namespace SkillPipeline.Effect

open Contribution Handler Reliance

/-- The wiring of one of `count` overlays: the extra input is prepared, and then laid over what the
overlays before it have left. -/
def overlayWires (count : Nat) (p : Nat × Nat) : List GraphNode :=
  [wire [.input p.1 .video] [numbered "ovl" p.2],
    wire [overlayBase count p.2, .label (numbered "ovl" p.2)] [overlaidLabel p.2 count]]

def overlayLabels (count i : Nat) : List String := [numbered "ovl" i, overlaidLabel i count]

theorem overlaidLabel_of_lt {i count : Nat} (h : i + 1 < count) :
    overlaidLabel i count = numbered "tmp" i := if_neg (Nat.ne_of_lt h)

theorem overlaidLabel_eq (i count : Nat) :
    overlaidLabel i count = "out" ∨ overlaidLabel i count = numbered "tmp" i := by
  rw [overlaidLabel]
  split
  · exact .inl rfl
  · exact .inr rfl

theorem ovl_ne_overlaidLabel (i j count : Nat) : numbered "ovl" i ≠ overlaidLabel j count := by
  intro h
  obtain hout | htmp := overlaidLabel_eq j count
  · exact numbered_ne (by decide) "ovl" i (h.trans hout)
  · exact absurd ((numbered_inj (by decide) (by decide)).mp (h.trans htmp)).1 (by decide)

theorem overlaidLabel_ne {i j count : Nat} (hij : i < j) (hj : j < count) :
    overlaidLabel i count ≠ overlaidLabel j count := by
  rw [overlaidLabel_of_lt (by omega)]
  obtain hout | htmp := overlaidLabel_eq j count
  · exact hout ▸ numbered_ne (by decide) "tmp" i
  · rw [htmp]
    intro h
    have heq := ((numbered_inj (by decide) (by decide)).mp h).2
    omega

theorem overlay_nodup (count : Nat) : ((List.range count).flatMap (overlayLabels count)).Nodup := by
  refine List.nodup_flatMap.mpr ⟨fun i _ => ?_, ?_⟩
  · simp [overlayLabels, ovl_ne_overlaidLabel]
  · refine List.pairwise_lt_range.imp_of_mem fun {i j} _ hj hij label hi hlabel => ?_
    simp only [overlayLabels, List.mem_cons, List.not_mem_nil, or_false] at hi hlabel
    have hcount : j < count := List.mem_range.mp hj
    obtain rfl | rfl := hi <;> obtain h | h := hlabel
    · have heq := ((numbered_inj (by decide) (by decide)).mp h).2
      omega
    · exact ovl_ne_overlaidLabel i j count h
    · exact ovl_ne_overlaidLabel j i count h.symm
    · exact overlaidLabel_ne hij hcount h

def overlayReads (count : Nat) : (i : Nat) → List String
  | 0 => [numbered "ovl" 0]
  | i + 1 => [overlaidLabel i count, numbered "ovl" (i + 1)]

theorem overlay_tally (count last : Nat) :
    ((List.range (last + 1)).flatMap (overlayLabels count)).Perm
      ((List.range (last + 1)).flatMap (overlayReads count) ++ [overlaidLabel last count]) := by
  rw [List.perm_iff_count]
  intro label
  induction last with
  | zero => rfl
  | succ last ih =>
    rw [List.range_succ]
    simp only [List.flatMap_append, List.flatMap_singleton, List.count_append, overlayLabels,
      overlayReads, List.count_cons, List.count_nil] at ih ⊢
    omega

section Overlays

variable {own sources : List Nat}

def overlays (sources : List Nat) : Fragment where
  nodes := sources.zipIdx.flatMap (overlayWires sources.length)
  video? := some "out"

theorem overlays_ordered (sources : List Nat) (known : List String) :
    Fragment.OrderedFrom known (overlays sources).nodes := by
  refine Fragment.orderedFrom_flatMap_zipIdx (overlayLabels sources.length)
    (fun p => rfl) fun p _ => ⟨fun label hlabel => ?_, fun label hlabel => ?_, trivial⟩
  · cases hlabel
  · cases hi : p.2 with
    | zero =>
      have heq : numbered "ovl" 0 = label := by
        simpa [GraphNode.reads, wire, Pad.label?, overlayBase, hi] using hlabel
      simp [← heq, wire]
    | succ i =>
      have heq : label = overlaidLabel i sources.length ∨ label = numbered "ovl" (i + 1) := by
        simpa [GraphNode.reads, wire, Pad.label?, overlayBase, hi] using hlabel
      simp only [List.mem_append, List.mem_flatMap, List.mem_range]
      obtain rfl | rfl := heq
      · exact .inl (.inr ⟨i, Nat.lt_succ_self i, by simp [overlayLabels]⟩)
      · exact .inr (by simp [wire])

theorem overlays_woven (h : sources ≠ []) :
    Fragment.Woven (overlays sources).nodes (overlays sources).finals := by
  have houtputs : (overlays sources).nodes.flatMap (·.outputs) =
      (List.range sources.length).flatMap (overlayLabels sources.length) := by
    rw [← flatMap_zipIdx_snd, overlays, List.flatMap_assoc]
    rfl
  have hreads : (overlays sources).nodes.flatMap (·.reads) =
      (List.range sources.length).flatMap (overlayReads sources.length) := by
    have hgroup (p : Nat × Nat) : (overlayWires sources.length p).flatMap (·.reads) =
        overlayReads sources.length p.2 := by
      simp only [overlayWires, GraphNode.reads, wire]
      cases p.2 <;> rfl
    rw [← flatMap_zipIdx_snd, overlays, List.flatMap_assoc]
    simp only [hgroup]
  -- There is a last overlay, whose output is that of the whole fragment.
  obtain ⟨last, hlast⟩ := Nat.exists_eq_succ_of_ne_zero
    (Nat.ne_of_gt (List.length_pos_iff.mpr h))
  refine ⟨?_, ?_, overlays_ordered sources⟩
  · rw [houtputs]
    exact overlay_nodup sources.length
  · have hfinals : (overlays sources).finals = [overlaidLabel last sources.length] := by
      rw [overlaidLabel, if_pos hlast.symm]
      rfl
    have htally := overlay_tally sources.length last
    rw [houtputs, hreads, hfinals]
    rwa [← Nat.succ_eq_add_one, ← hlast] at htally

theorem count_main_overlays (medium : Medium) :
    (overlays sources).pads.count (.main medium) ≤ 1 := by
  cases sources with
  | nil => exact Nat.zero_le 1
  | cons source rest =>
    have hrest : Pad.main medium ∉ ((rest.zipIdx 1).flatMap
        (overlayWires (rest.length + 1))).flatMap (·.inputs) := by
      intro hmem
      obtain ⟨node, hnode, hpad⟩ := List.mem_flatMap.mp hmem
      obtain ⟨p, hp, hnode⟩ := List.mem_flatMap.mp hnode
      obtain ⟨i, hi⟩ := Nat.exists_eq_add_of_le (List.le_snd_of_mem_zipIdx hp)
      simp only [overlayWires, hi, Nat.add_comm 1 i, overlayBase, List.mem_cons,
        List.not_mem_nil, or_false] at hnode
      obtain rfl | rfl := hnode <;> simp [wire] at hpad
    rw [Fragment.pads, overlays, List.zipIdx_cons, List.flatMap_cons, List.flatMap_append,
      List.count_append, List.length_cons, List.count_eq_zero_of_not_mem hrest]
    cases medium <;> simp [overlayWires, overlayBase, wire]

theorem eq_of_mem_overlays {pad : Pad} (h : pad ∈ (overlays sources).pads) :
    pad = .main .video ∨ (∃ index ∈ sources, pad = .input index .video) ∨
      ∃ label, pad = .label label := by
  obtain ⟨node, hnode, hpad⟩ := List.mem_flatMap.mp h
  obtain ⟨p, hp, hnode⟩ := List.mem_flatMap.mp hnode
  simp only [overlayWires, List.mem_cons, List.not_mem_nil, or_false] at hnode
  obtain rfl | rfl := hnode
  · have hpad : pad = .input p.1 .video := by simpa [wire] using hpad
    exact .inr (.inl ⟨p.1, List.fst_mem_of_mem_zipIdx hp, hpad⟩)
  · have hpad : pad = overlayBase sources.length p.2 ∨ pad = .label (numbered "ovl" p.2) := by
      simpa [wire] using hpad
    obtain rfl | rfl := hpad
    · cases p.2 with
      | zero => exact .inl rfl
      | succ i => exact .inr (.inr ⟨_, rfl⟩)
    · exact .inr (.inr ⟨_, rfl⟩)

theorem overlays_sound {f : Fragment} (h : sources ≠ []) (hf : f.bare = overlays sources)
    (howned : sources ⊆ own) : f.Sound own := by
  have hwired : (overlays sources).Wired := by
    refine (overlays_woven h).wired count_main_overlays fun medium hread => ?_
    cases medium with
    | video => rfl
    | audio =>
      obtain hpad | ⟨index, -, hpad⟩ | ⟨label, hpad⟩ := eq_of_mem_overlays hread <;> cases hpad
  refine .of_bare hwired hf fun index hindex => ?_
  obtain ⟨pad, hpad, hpadIndex⟩ := List.mem_filterMap.mp hindex
  obtain rfl | ⟨source, hsource, rfl⟩ | ⟨label, rfl⟩ := eq_of_mem_overlays hpad
  · cases hpadIndex
  · cases hpadIndex
    exact howned hsource
  · cases hpadIndex

end Overlays

theorem meets_overlayCorner {r : Reliance} (position : String) (margin : Float) :
    r.Meets (overlayCorner position margin) fun _ => True := by
  unfold overlayCorner
  split <;> exact meets_ofParts _

theorem overlayNodes_wired {r : Reliance} (scale opacity margin : Float) (position : String)
    (count : Nat) (p : Nat × Nat) :
    r.Meets (overlayNodes scale opacity margin position count p) fun nodes =>
      nodes.map (·.bare) = overlayWires count p := by
  obtain ⟨source, i⟩ := p
  -- With or without a fade the wiring is the same; only the text of the first node differs.
  have hlaid (fade : FilterText) : r.Meets (do
      let factor ← FilterText.decimal scale
      let scaled ← GraphNode.of [.input source .video]
        [.lit "format=rgba,scale=iw*", .sub factor, .lit ":ih*", .sub factor, .sub fade]
        [numbered "ovl" i]
      let place ← overlayCorner (cornerFor position i count) margin
      let laid ← GraphNode.of [overlayBase count i, .label (numbered "ovl" i)]
        [.lit "overlay=", .sub place] [overlaidLabel i count]
      return [scaled, laid]) fun nodes => nodes.map (·.bare) = overlayWires count (source, i) := by
    simp only [meets_bind, meets_pure]
    refine meets_of_forall (meets_decimal _) fun factor => ?_
    refine (meets_nodeOf ..).mono fun scaled hscaled => ?_
    refine meets_of_forall (meets_overlayCorner _ _) fun place => ?_
    refine (meets_nodeOf ..).mono fun laid hlaid => ?_
    rw [List.map_cons, List.map_singleton, hscaled, hlaid, overlayWires]
  rw [overlayNodes, meets_ite]
  constructor
  · intro _
    simp only [meets_bind] at hlaid ⊢
    refine meets_of_forall (meets_decimal _) fun amount => ?_
    exact meets_of_forall (meets_ofParts _) hlaid
  · intro _
    exact hlaid .empty

theorem overlayImages_compiles :
    Compiles [.number "scale", .number "opacity", .number "margin", .value "position",
      .numberIfAny "input", .number "count"] overlayImages := by
  intro p ctx
  simp only [overlayImages, meets_bind]
  refine meets_of_forall (meets_float (by simp)) fun scale => ?_
  refine meets_of_forall (meets_float (by simp)) fun opacity => ?_
  refine meets_of_forall (meets_int (by simp)) fun margin => ?_
  refine meets_of_forall (meets_string (by simp)) fun position => ?_
  refine (meets_mapM fun p _ => overlayNodes_wired scale opacity margin position _ p).mono
    fun nodes hnodes => sound_graph fun hsome => ?_
  -- Without sources there is no node, and such a fragment adds nothing.
  have hsources : ctx.ownInputs ≠ [] := by
    intro hnil
    rw [hnil] at hnodes
    rw [List.map_eq_nil_iff.mp hnodes] at hsome
    exact hsome rfl
  refine overlays_sound hsources ?_ (List.Subset.refl _)
  rw [Fragment.bare, overlays, List.map_flatten, hnodes, List.flatMap_def]

theorem mem_of_mem_takeCount {α : Type} {count : Float} {l : List α} {a : α}
    (h : a ∈ HandlerContext.takeCount count l) : a ∈ l := by
  rw [HandlerContext.takeCount] at h
  split at h <;> exact List.mem_of_mem_take h

theorem meets_claimExtras {r : Reliance} (ctx : HandlerContext) (skill : String)
    (kinds : List MediaKind) (count : Float) :
    r.Meets (ctx.claimExtras skill kinds count) fun claimed =>
      ∀ index ∈ claimed, ∃ e ∈ ctx.extras, e.index = index := by
  have hstills : ∀ e ∈ if kinds.contains .image then ctx.freeExtras [.image] else [],
      e ∈ ctx.extras := by
    intro e he
    split at he
    · exact mem_extras_of_mem_freeExtras he
    · cases he
  rw [HandlerContext.claimExtras]
  generalize (if kinds.contains .image then ctx.freeExtras [.image] else []) = stills at hstills ⊢
  split
  · trivial
  · next pool hpool =>
    intro index hindex
    obtain ⟨e, he, rfl⟩ := List.mem_map.mp hindex
    obtain hstill | hother := List.mem_append.mp (mem_of_mem_takeCount he)
    · exact ⟨e, hstills e hstill, rfl⟩
    · exact ⟨e, mem_extras_of_mem_freeExtras hother, rfl⟩

theorem wordless_claimExtras {ctx : HandlerContext} {skill : String} {kinds : List MediaKind}
    {count : Float} : Wordless (ctx.claimExtras skill kinds count) := by
  rw [HandlerContext.claimExtras]
  generalize (if kinds.contains .image then ctx.freeExtras [.image] else []) = stills
  split <;> exact nofun

theorem claimOverlays_claims {skill : String} {needs : List Need}
    (hinput : .numberIfAny "input" ∈ claimNeeds needs) (hcount : .number "count" ∈ claimNeeds needs)
    (hown : .ownInput ∉ needs) : Claims needs (claimOverlays skill) where
  meets p ctx := by
    rw [claimOverlays, meets_bind]
    refine meets_of_forall (meets_requestedInput hinput) fun requested? => ?_
    cases requested? with
    | some n =>
      simp only [meets_bind, meets_pure]
      exact meets_claimExtra.mono fun index hindex =>
        ⟨by simpa using hindex, fun h => absurd h hown⟩
    | none =>
      simp only [meets_bind]
      refine meets_of_forall (meets_int hcount) fun count => ?_
      exact (meets_claimExtras ..).mono fun claimed hclaimed => ⟨hclaimed, fun h => absurd h hown⟩
  wordless p ctx := (wordless_requestedInput p).bind fun requested? => by
    cases requested? with
    | some n => exact wordless_claimExtra.bind fun _ => wordless_ok
    | none => exact (wordless_int p _).bind fun _ => wordless_claimExtras

theorem picture_wired (index : Nat) (small laid : FilterText) :
    Fragment.Wired {
      nodes := [⟨[.input index .video], small, ["pip"]⟩,
        ⟨[.main .video, .label "pip"], laid, ["out"]⟩]
      video? := some "out" } :=
  of_decide_eq_true rfl

theorem blend_wired (index : Nat) (top blended : FilterText) :
    Fragment.Wired {
      nodes := [⟨[.input index .video], top, ["top"]⟩,
        ⟨[.main .video, .label "top"], blended, ["out"]⟩]
      video? := some "out" } :=
  of_decide_eq_true rfl

theorem meets_pictureCorner {r : Reliance} (position : String) (margin : Float) :
    r.Meets (pictureCorner position margin) fun _ => True := by
  unfold pictureCorner
  split <;> exact meets_ofParts _

theorem pictureInPicture_compiles :
    Compiles [.ownInput, .numberIfAny "input", .number "scale", .value "position",
      .number "margin"] pictureInPicture := by
  intro p ctx
  simp only [pictureInPicture, GraphNode.of, meets_bind, meets_pure]
  refine (meets_ownExtra (by simp)).mono fun source hsource => ?_
  refine meets_of_forall (meets_paramDecimal (by simp)) fun scale => ?_
  refine meets_of_forall (meets_ofParts _) fun small => ?_
  refine meets_of_forall (meets_string (by simp)) fun position => ?_
  refine meets_of_forall (meets_int (by simp)) fun margin => ?_
  refine meets_of_forall (meets_pictureCorner _ _) fun place => ?_
  refine meets_of_forall (meets_ofParts _) fun laid => sound_graph fun _ => ?_
  refine (picture_wired source.index small laid).sound fun index hindex => ?_
  have heq : index ∈ [source.index] := hindex
  exact List.mem_singleton.mp heq ▸ hsource

theorem blend_compiles :
    Compiles [.ownInput, .numberIfAny "input", .value "mode", .number "opacity"] blend := by
  intro p ctx
  simp only [blend, GraphNode.of, meets_bind, meets_pure]
  refine (meets_ownExtra (by simp)).mono fun extra hextra => ?_
  refine meets_of_forall (meets_ofParts _) fun top => ?_
  refine meets_of_forall (meets_text (by simp)) fun mode => ?_
  refine meets_of_forall (meets_paramDecimal (by simp)) fun opacity => ?_
  refine meets_of_forall (meets_ofParts _) fun blended => sound_graph fun _ => ?_
  refine (blend_wired extra.index top blended).sound fun index hindex => ?_
  have heq : index ∈ [extra.index] := hindex
  exact List.mem_singleton.mp heq ▸ hextra

theorem claimPicture_claims {needs : List Need} (h : .numberIfAny "input" ∈ claimNeeds needs) :
    Claims needs claimPicture where
  meets p ctx := by
    rw [claimPicture, meets_bind]
    refine meets_of_forall (meets_requestedInput h) fun requested? => ?_
    cases requested? with
    | some n =>
      simp only [meets_bind, meets_pure]
      exact meets_claimExtra.mono fun index hindex => ⟨by simpa using hindex, by simp⟩
    | none =>
      dsimp only
      split
      · next e rest hfree =>
        have hmem := mem_extras_of_mem_freeExtras (hfree ▸ List.mem_cons_self : e ∈ _)
        exact ⟨fun index hindex => ⟨e, hmem, (List.mem_singleton.mp hindex).symm⟩, by simp⟩
      · simp only [meets_bind, meets_pure]
        exact meets_claimExtra.mono fun index hindex => ⟨by simpa using hindex, by simp⟩
  wordless p ctx := (wordless_requestedInput p).bind fun requested? => by
    cases requested? with
    | some n => exact wordless_claimExtra.bind fun _ => wordless_ok
    | none =>
      dsimp only
      split
      · exact wordless_ok
      · exact wordless_claimExtra.bind fun _ => wordless_ok

theorem claimLayer_claims {needs : List Need} (h : .numberIfAny "input" ∈ claimNeeds needs) :
    Claims needs claimLayer where
  meets p ctx := by
    simp only [claimLayer, meets_bind, meets_pure]
    refine meets_of_forall (meets_requestedInput h) fun requested? => ?_
    exact meets_claimExtra.mono fun index hindex => ⟨by simpa using hindex, by simp⟩
  wordless p ctx :=
    (wordless_requestedInput p).bind fun _ => wordless_claimExtra.bind fun _ => wordless_ok

/-- What the handlers of effects on several inputs need. -/
def multiInputNeeds : List (String × List Need) := [
  ("concat", [.numberIfAny "width", .numberIfAny "height", .numberIfAny "still_duration",
    .valueIfAny "background"]),
  ("xfade", [.numberIfAny "width", .numberIfAny "height", .number "duration",
    .numberIfAny "still_duration", .value "transition", .valueIfAny "background"]),
  ("grid", [.flag "include_video", .number "columns", .number "gap", .number "duration",
    .numberIfAny "cell_width", .numberIfAny "cell_height", .valueIfAny "background"]),
  ("slideshow", [.flag "include_video", .numberIfAny "width", .numberIfAny "height",
    .number "duration_per_image", .value "transition", .number "transition_duration",
    .valueIfAny "background"]),
  ("overlay_image", [.number "scale", .number "opacity", .number "margin", .value "position",
    .numberIfAny "input", .number "count"]),
  ("watermark", [.number "scale", .number "opacity", .number "margin", .value "position",
    .numberIfAny "input", .number "count"]),
  ("split_screen", [.number "duration", .numberIfAny "width", .numberIfAny "height",
    .value "layout", .valueIfAny "background"]),
  ("pip", [.ownInput, .numberIfAny "input", .number "scale", .value "position", .number "margin"]),
  ("blend", [.ownInput, .numberIfAny "input", .value "mode", .number "opacity"])]

theorem multiInput_keeps : List.Forall₂ Listed multiInput multiInputNeeds := by
  simp only [multiInput, multiInputNeeds, List.forall₂_cons]
  exact ⟨⟨rfl, sequence_keeps concat_compiles (by decide)⟩,
    ⟨rfl, sequence_keeps xfade_compiles (by decide)⟩,
    ⟨rfl, sequence_keeps grid_compiles (by decide)⟩,
    ⟨rfl, sequence_keeps slideshow_compiles (by decide)⟩,
    ⟨rfl, overlayImages_compiles.keeps_claiming
      (claimOverlays_claims (by decide) (by decide) (by decide))⟩,
    ⟨rfl, overlayImages_compiles.keeps_claiming
      (claimOverlays_claims (by decide) (by decide) (by decide))⟩,
    ⟨rfl, sequence_keeps splitScreen_compiles (by decide)⟩,
    ⟨rfl, pictureInPicture_compiles.keeps_claiming (claimPicture_claims (by decide))⟩,
    ⟨rfl, blend_compiles.keeps_claiming (claimLayer_claims (by decide))⟩, .nil⟩

end SkillPipeline.Effect
