import SkillPipeline.Proofs.Effect.Sequence
import SkillPipeline.Proofs.Filter.Likeness
import SkillPipeline.Proofs.Outcome

namespace SkillPipeline

namespace FilterText

def Part.chars : Part → List Char
  | .lit s => s.toList
  | .num n => (Number.text n).toList
  | .sub t => t.chars

theorem chars_number {n : Float} {form : Filter.NumberForm} {t : FilterText}
    (h : number n form = .ok t) : t.chars = (form.text n).toList := by
  rw [number] at h
  split at h
  · cases h
    rw [chars, List.flatMap_singleton, Filter.Piece.chars]
  · cases h

theorem chars_ofParts {parts : List Part} {t : FilterText} (h : ofParts parts = .ok t) :
    t.chars = parts.flatMap Part.chars := by
  induction parts generalizing t with
  | nil =>
    cases h
    rfl
  | cons part rest ih =>
    obtain ⟨first, hfirst, tail, htail, rfl⟩ := ofParts_cons_eq_ok.mp h
    have hpart : first.chars = part.chars := by
      cases part with
      | lit s =>
        cases hfirst
        exact chars_wording s
      | num n => exact chars_number hfirst
      | sub u =>
        cases hfirst
        rfl
    rw [chars_append, hpart, ih htail, List.flatMap_cons]

end FilterText

namespace GraphNode

/-- Whether the first filter of a node is the one of this name. -/
def runs (node : GraphNode) (name : String) : Bool := Text.startsWith node.filter.text (name ++ "=")

/-- Whether a node reads the picture of an extra input. -/
def sees (node : GraphNode) (index : Nat) : Bool := node.inputs.contains (.input index .video)

variable {node : GraphNode} {a b : String}

theorem runs_iff : node.runs a = true ↔ (a ++ "=").toList <+: node.filter.chars := by
  rw [runs, Text.startsWith, FilterText.text, String.toList_ofList, List.isPrefixOf_iff_prefix]

theorem prefix_name (hb : '=' ∉ b.toList) (h : (a ++ "=").toList <+: (b ++ "=").toList) :
    a = b := by
  rw [String.toList_append, String.toList_append] at h
  obtain heq | hwithin := List.prefix_concat_iff.mp h
  · exact String.toList_inj.mp (List.append_cancel_right heq)
  · exact absurd (hwithin.subset (by simp)) hb

theorem runs_eq (h : node.runs a = true) (ha : '=' ∉ a.toList) (hb : '=' ∉ b.toList) :
    node.runs b = (b == a) := by
  rw [Bool.eq_iff_iff, beq_iff_eq]
  constructor
  · intro hruns
    obtain hstart | hstart := List.prefix_or_prefix_of_prefix (runs_iff.mp hruns) (runs_iff.mp h)
    · exact prefix_name ha hstart
    · exact (prefix_name hb hstart).symm
  · rintro rfl
    exact h

theorem of_eq_ok {inputs : List Pad} {parts : List FilterText.Part} {outputs : List String}
    (h : GraphNode.of inputs parts outputs = .ok node) :
    node.inputs = inputs ∧ node.outputs = outputs ∧
      node.filter.chars = parts.flatMap FilterText.Part.chars := by
  obtain ⟨t, ht, hnode⟩ := Outcome.bind_eq_ok.mp h
  cases hnode
  exact ⟨rfl, rfl, FilterText.chars_ofParts ht⟩

end GraphNode

namespace Effect

open Outcome

def owned (ctx : HandlerContext) : List ExtraInput := ctx.ownInputs.filterMap ctx.extra?

/-- The node takes the picture of a segment; it holds a still image and fits a video. -/
structure Pictures (name : String) (p : SequenceSegment × Nat) (node : GraphNode) : Prop where
  inputs : node.inputs = [p.1.source .video]
  outputs : node.outputs = [numbered name p.2]
  runs : node.runs (if p.1.still then "loop" else "scale") = true

/-- The node takes the sound of a segment; a still image is given silence of some seconds. -/
structure Sounds (seconds : Float) (p : SequenceSegment × Nat) (node : GraphNode) : Prop where
  inputs : node.inputs = p.1.sounding.map p.1.source
  outputs : node.outputs = [numbered "a" p.2]
  text : node.filter.text =
    if p.1.still then
      "anullsrc=r=44100:cl=stereo,atrim=0:" ++ Filter.decimalText seconds ++ ",asetpts=PTS-STARTPTS"
    else "aresample=44100,asetpts=PTS-STARTPTS"

variable {c : Canvas} {s : SequenceSegment} {seconds : Float} {t retime : FilterText}
  {node : GraphNode} {name : String} {p : SequenceSegment × Nat}

theorem prepareSegment_opens (h : prepareSegment c seconds retime s = .ok t) :
    ((if s.still then "loop" else "scale") ++ "=").toList <+: t.chars := by
  obtain ⟨fit, hfit, h⟩ := bind_eq_ok.mp h
  cases hstill : s.still with
  | true =>
    rw [hstill, if_pos rfl] at h
    rw [FilterText.chars_ofParts h]
    exact ⟨_, rfl⟩
  | false =>
    rw [hstill] at h
    obtain rfl := pure_eq_ok.mp h
    rw [FilterText.chars_append, FilterText.chars_ofParts hfit]
    exact ⟨_, rfl⟩

theorem pictures_of_opens {own : List Nat} {segments : List SequenceSegment} {i : Nat}
    (hsegments : Segmented own segments) (hs : (s, i) ∈ segments.zipIdx)
    (h : ((if s.still then "loop" else "scale") ++ "=").toList <+: t.chars) :
    Pictures name (s, i) ⟨[s.pad], t, [numbered name i]⟩ :=
  ⟨congrArg (fun pad => [pad]) (hsegments.pads s (List.fst_mem_of_mem_zipIdx hs)), rfl,
    GraphNode.runs_iff.mpr h⟩

theorem segmentAudio_sounds {i : Nat} (h : segmentAudio s seconds (numbered "a" i) = .ok node) :
    Sounds seconds (s, i) node := by
  rw [segmentAudio] at h
  cases hstill : s.still with
  | true =>
    rw [if_pos hstill] at h
    obtain ⟨length, hlength, h⟩ := bind_eq_ok.mp h
    obtain ⟨hinputs, houtputs, hchars⟩ := GraphNode.of_eq_ok h
    refine ⟨?_, houtputs, ?_⟩
    · rw [hinputs, SequenceSegment.sounding, if_pos hstill, List.map_nil]
    · rw [if_pos hstill, ← String.toList_inj, FilterText.text, String.toList_ofList, hchars]
      simp [FilterText.Part.chars, FilterText.chars_number hlength, Filter.NumberForm.text]
  | false =>
    rw [if_neg (by simp [hstill])] at h
    obtain ⟨hinputs, houtputs, hchars⟩ := GraphNode.of_eq_ok h
    refine ⟨?_, houtputs, ?_⟩
    · rw [hinputs, SequenceSegment.sounding, if_neg (by simp [hstill])]
      rfl
    · rw [if_neg (by simp [hstill]), ← String.toList_inj, FilterText.text, String.toList_ofList,
        hchars]
      simp [FilterText.Part.chars]

theorem Sounds.runs (h : Sounds seconds p node) :
    node.runs (if p.1.still then "anullsrc" else "aresample") = true := by
  have htext := h.text
  rw [GraphNode.runs, htext, Text.startsWith, List.isPrefixOf_iff_prefix]
  cases p.1.still with
  | true =>
    simp only [↓reduceIte, String.toList_append, List.append_assoc]
    exact ⟨_, rfl⟩
  | false =>
    simp only [Bool.false_eq_true, ↓reduceIte]
    exact ⟨"44100,asetpts=PTS-STARTPTS".toList, by decide⟩

theorem Pictures.runs_eq (h : Pictures name p node) {other : String} (hother : '=' ∉ other.toList) :
    node.runs other = (other == if p.1.still then "loop" else "scale") :=
  GraphNode.runs_eq h.runs (by split <;> decide) hother

theorem Sounds.runs_eq (h : Sounds seconds p node) {other : String}
    (hother : '=' ∉ other.toList) :
    node.runs other = (other == if p.1.still then "anullsrc" else "aresample") :=
  GraphNode.runs_eq h.runs (by split <;> decide) hother

def Blind (node : GraphNode) : Prop := ∀ index, node.sees index = false

theorem Pictures.sees (h : Pictures name p node) (index : Nat) :
    node.sees index = (p.1.source .video == .input index .video) := by
  rw [GraphNode.sees, h.inputs, List.contains_cons, List.contains_nil, Bool.or_false, Bool.beq_comm]

theorem Sounds.blind (h : Sounds seconds p node) : Blind node := by
  intro index
  rw [GraphNode.sees, h.inputs, SequenceSegment.sounding]
  split
  · rfl
  · cases hextra : p.1.extra? <;> simp [SequenceSegment.source, hextra]

theorem blind_of_labels (labels : List String) (h : node.inputs = labels.map .label) :
    Blind node := by
  intro index
  rw [GraphNode.sees, h]
  simp

theorem countP_flatten_of_forall₂ {α β : Type} {R : α → List β → Prop} {l : List α}
    {r : List (List β)} {u : α → Bool} {v : β → Bool} (h : List.Forall₂ R l r)
    (huv : ∀ a bs, R a bs → bs.countP v = if u a then 1 else 0) :
    r.flatten.countP v = l.countP u := by
  induction h with
  | nil => rfl
  | cons hfirst hrest ih =>
    rw [List.flatten_cons, List.countP_append, List.countP_cons, ih, huv _ _ hfirst,
      Nat.add_comm]

theorem countP_zipIdx {α : Type} (l : List α) (u : α → Bool) :
    l.zipIdx.countP (fun p => u p.1) = l.countP u := by
  have hmap : l.zipIdx.map Prod.fst = l := List.zipIdx_map_fst 0 l
  conv_rhs => rw [← hmap, List.countP_map]
  rfl

theorem countP_sequenceSegments {ctx : HandlerContext} {includeMain : Bool}
    {u : SequenceSegment → Bool} (h : u ⟨.main .video, false, none⟩ = false) :
    (sequenceSegments ctx includeMain).countP u = (owned ctx).countP fun e => u (segmentOf e) := by
  rw [sequenceSegments, List.countP_append, List.countP_map, owned]
  cases includeMain with
  | true => simp [h, Function.comp_def]
  | false => simp [Function.comp_def]

theorem map_index_owned (ctx : HandlerContext) :
    (owned ctx).map (·.index) = ctx.ownInputs.filter fun i => (ctx.extra? i).isSome := by
  rw [owned, List.map_filterMap, ← List.filterMap_eq_filter]
  congr 1
  funext i
  cases hfound : ctx.extra? i with
  | none => simp [Option.guard, hfound]
  | some e =>
    have hindex : e.index = i := by simpa using List.find?_some hfound
    simp [Option.guard, hfound, hindex]

theorem index_of_mem_owned {ctx : HandlerContext} {e : ExtraInput} (h : e ∈ owned ctx) :
    e.index ∈ ctx.ownInputs ∧ (ctx.extra? e.index).isSome = true := by
  have hmem := List.mem_map_of_mem (f := (·.index)) h
  rw [map_index_owned] at hmem
  exact List.mem_filter.mp hmem

theorem countP_source {ctx : HandlerContext} (includeMain : Bool) {e : ExtraInput}
    (he : e ∈ owned ctx) :
    (sequenceSegments ctx includeMain).countP
      (fun s => s.source .video == .input e.index .video) = ctx.ownInputs.count e.index := by
  have hcount : (owned ctx).countP (fun other =>
      (segmentOf other).source .video == .input e.index .video) =
        ((owned ctx).map (·.index)).count e.index := by
    rw [List.count, List.countP_map]
    refine List.countP_congr fun other _ => ?_
    simp [segmentOf, SequenceSegment.source]
  rw [countP_sequenceSegments rfl, hcount, map_index_owned]
  exact List.count_filter (index_of_mem_owned he).2

/-- Each extra input that the step owns is seen as often as it is owned: by one node if no input is
owned twice, and no step owns one twice (`Reservations.nodup_ownedBy`). -/
def SeesOnce (ctx : HandlerContext) (f : Fragment) : Prop :=
  ∀ e ∈ owned ctx, f.nodes.countP (·.sees e.index) = ctx.ownInputs.count e.index ∧
    (ctx.ownInputs.Nodup → f.nodes.countP (·.sees e.index) = 1)

/-- The nodes of a segment: its picture and perhaps more. -/
def Group (name : String) (p : SequenceSegment × Nat) (nodes : List GraphNode) : Prop :=
  ∃ picture more, nodes = picture :: more ∧ Pictures name p picture ∧ ∀ node ∈ more, Blind node

theorem seesOnce {ctx : HandlerContext} {includeMain : Bool} {groups : List (List GraphNode)}
    {rest : List GraphNode} {f : Fragment}
    (hgroups : List.Forall₂ (Group name) (sequenceSegments ctx includeMain).zipIdx groups)
    (hrest : ∀ node ∈ rest, Blind node) (hf : f.nodes = groups.flatten ++ rest) :
    SeesOnce ctx f := by
  intro e he
  have hgroup (p : SequenceSegment × Nat) (nodes : List GraphNode) (h : Group name p nodes) :
      nodes.countP (·.sees e.index) =
        if p.1.source .video == .input e.index .video then 1 else 0 := by
    obtain ⟨picture, more, rfl, hpicture, hmore⟩ := h
    have hnone : more.countP (·.sees e.index) = 0 :=
      List.countP_eq_zero.mpr fun node hnode => by simp [hmore node hnode e.index]
    rw [List.countP_cons, hnone, hpicture.sees, Nat.zero_add]
  have hnone : rest.countP (·.sees e.index) = 0 :=
    List.countP_eq_zero.mpr fun node hnode => by simp [hrest node hnode e.index]
  have hcount : f.nodes.countP (·.sees e.index) = ctx.ownInputs.count e.index := by
    rw [hf, List.countP_append, hnone, Nat.add_zero, countP_flatten_of_forall₂ hgroups hgroup]
    exact (countP_zipIdx _ fun s : SequenceSegment =>
      s.source .video == .input e.index .video).trans (countP_source includeMain he)
  exact ⟨hcount, fun hnodup =>
    hcount.trans (List.count_eq_one_of_mem hnodup (index_of_mem_owned he).1)⟩

theorem seesOnce_of_pictures {ctx : HandlerContext} {includeMain : Bool}
    {parts rest : List GraphNode} {f : Fragment}
    (hparts : List.Forall₂ (Pictures name) (sequenceSegments ctx includeMain).zipIdx parts)
    (hrest : ∀ node ∈ rest, Blind node) (hf : f.nodes = parts ++ rest) : SeesOnce ctx f := by
  have hgroups : List.Forall₂ (Group name) (sequenceSegments ctx includeMain).zipIdx
      (parts.map fun node => [node]) :=
    List.forall₂_map_right_iff.mpr
      (hparts.imp fun _ node hnode => ⟨node, [], rfl, hnode, by simp⟩)
  refine seesOnce hgroups hrest ?_
  rw [hf, ← List.flatMap_def, List.flatMap_singleton']

/-- The node reads labels in order and declares a number of inputs, which is followed by further
options at most. -/
structure Joins (opening : String) (count : Nat) (labels : List String) (node : GraphNode) :
    Prop where
  inputs : node.inputs = labels.map .label
  declares : ∃ rest, node.filter.text = opening ++ Number.text (Float.ofNat count) ++ rest ∧
    (rest = "" ∨ Text.startsWith rest ":" = true)

theorem joins_of_chars {opening : String} {count : Nat} {labels : List String} {rest : List Char}
    (hinputs : node.inputs = labels.map .label)
    (hchars : node.filter.chars =
      opening.toList ++ ((Number.text (Float.ofNat count)).toList ++ rest))
    (hrest : rest = [] ∨ [':'] <+: rest) : Joins opening count labels node := by
  refine ⟨hinputs, String.ofList rest, ?_, ?_⟩
  · rw [FilterText.text, hchars, ← String.toList_inj]
    simp
  · obtain rfl | hcolon := hrest
    · exact .inl rfl
    · exact .inr (List.isPrefixOf_iff_prefix.mpr ((String.toList_ofList (l := rest)).symm ▸ hcolon))

theorem outputs_of_pictures {segments : List SequenceSegment} {parts : List GraphNode}
    (h : List.Forall₂ (Pictures name) segments.zipIdx parts) :
    parts.flatMap (·.outputs) = (List.range segments.length).map (numbered name) := by
  have hmap := map_eq_of_forall₂ h fun p node hnode => hnode.outputs
  rw [map_zipIdx_snd segments fun i => [numbered name i]] at hmap
  rw [List.flatMap_def, hmap, ← List.flatMap_def, List.map_eq_flatMap]

/-- How many of the extra inputs that a step owns are still images. -/
def stills (ctx : HandlerContext) : Nat := (owned ctx).countP fun e => e.kind == .image

/-- What a segment brings to a concatenation: its picture and, if there is sound, its sound. -/
def Brings (withAudio : Bool) (still : Float) (p : SequenceSegment × Nat)
    (nodes : List GraphNode) : Prop :=
  ∃ picture, Pictures "v" p picture ∧
    if withAudio then ∃ sound, Sounds still p sound ∧ nodes = [picture, sound]
    else nodes = [picture]

structure Concatenates (ctx : HandlerContext) (still : Float) (f : Fragment) : Prop where
  loops : f.nodes.countP (·.runs "loop") = stills ctx
  fits : f.nodes.countP (·.runs "scale") = (owned ctx).length + 1 - stills ctx
  silences : f.nodes.countP (·.runs "anullsrc") = if ctx.primary.hasAudio then stills ctx else 0
  joins : ∃ groups joined, f.nodes = groups.flatten ++ [joined] ∧
    List.Forall₂ (Brings ctx.primary.hasAudio still) (sequenceSegments ctx true).zipIdx groups ∧
      Joins "concat=n=" ((owned ctx).length + 1) (groups.flatten.flatMap (·.outputs)) joined

theorem concatSegment_brings {withAudio : Bool} {own : List Nat} {segments : List SequenceSegment}
    (hsegments : Segmented own segments) (hp : p ∈ segments.zipIdx) {nodes : List GraphNode}
    (h : concatSegment c seconds withAudio p = .ok nodes) : Brings withAudio seconds p nodes := by
  obtain ⟨s, i⟩ := p
  simp only [concatSegment, bind_eq_ok] at h
  obtain ⟨retime, -, filter, hfilter, h⟩ := h
  refine ⟨_, pictures_of_opens hsegments hp (prepareSegment_opens hfilter), ?_⟩
  cases withAudio with
  | false => exact (pure_eq_ok.mp h).symm
  | true =>
    simp only [↓reduceIte, bind_eq_ok, pure_eq_ok] at h ⊢
    obtain ⟨sound, hsound, hnodes⟩ := h
    exact ⟨sound, segmentAudio_sounds hsound, hnodes.symm⟩

theorem Brings.countP_runs {withAudio : Bool} {nodes : List GraphNode}
    (h : Brings withAudio seconds p nodes) {other : String} (hother : '=' ∉ other.toList) :
    nodes.countP (·.runs other) =
      (if other == (if p.1.still then "loop" else "scale") then 1 else 0) +
      if withAudio && other == (if p.1.still then "anullsrc" else "aresample") then 1 else 0 := by
  obtain ⟨picture, hpicture, hnodes⟩ := h
  cases withAudio with
  | false =>
    rw [if_neg Bool.false_ne_true] at hnodes
    rw [hnodes, List.countP_singleton, hpicture.runs_eq hother]
    rfl
  | true =>
    rw [if_pos rfl] at hnodes
    obtain ⟨sound, hsound, rfl⟩ := hnodes
    rw [List.countP_cons, List.countP_singleton, hpicture.runs_eq hother, hsound.runs_eq hother,
      Nat.add_comm, Bool.true_and]

theorem Brings.group {withAudio : Bool} {nodes : List GraphNode}
    (h : Brings withAudio seconds p nodes) : Group "v" p nodes := by
  obtain ⟨picture, hpicture, hnodes⟩ := h
  cases withAudio with
  | false => exact ⟨picture, [], hnodes, hpicture, by simp⟩
  | true =>
    obtain ⟨sound, hsound, hnodes⟩ := hnodes
    exact ⟨picture, [sound], hnodes, hpicture, by simpa using hsound.blind⟩

theorem Brings.outputs {withAudio : Bool} {nodes : List GraphNode}
    (h : Brings withAudio seconds p nodes) :
    nodes.flatMap (·.outputs) = concatLabels withAudio p.2 := by
  obtain ⟨picture, hpicture, hnodes⟩ := h
  cases withAudio with
  | false =>
    rw [if_neg Bool.false_ne_true] at hnodes
    rw [hnodes, List.flatMap_singleton, hpicture.outputs]
    rfl
  | true =>
    obtain ⟨sound, hsound, rfl⟩ := hnodes
    rw [List.flatMap_cons, List.flatMap_singleton, hpicture.outputs, hsound.outputs]
    rfl

theorem length_sequenceSegments (ctx : HandlerContext) :
    (sequenceSegments ctx true).length = (owned ctx).length + 1 := by
  rw [sequenceSegments, List.length_append, List.length_map, owned, Nat.add_comm]
  rfl

theorem countP_still (ctx : HandlerContext) :
    (sequenceSegments ctx true).countP (·.still) = stills ctx := countP_sequenceSegments rfl

theorem countP_not_still (ctx : HandlerContext) :
    (sequenceSegments ctx true).countP (fun s => !s.still) =
      (owned ctx).length + 1 - stills ctx := by
  have hlength := List.length_eq_countP_add_countP (fun s : SequenceSegment => s.still)
    (l := sequenceSegments ctx true)
  simp only [Bool.not_eq_true] at hlength
  rw [length_sequenceSegments, countP_still] at hlength
  have hnot : (sequenceSegments ctx true).countP (fun s => !s.still) =
      (sequenceSegments ctx true).countP (fun s => decide (s.still = false)) :=
    List.countP_congr fun s _ => by simp
  omega

section

variable {withAudio : Bool} {ctx : HandlerContext} {groups : List (List GraphNode)}

theorem countP_of_brings {segments : List SequenceSegment} {other : String}
    {u : SequenceSegment → Bool}
    (h : List.Forall₂ (Brings withAudio seconds) segments.zipIdx groups)
    (hu : ∀ p nodes, Brings withAudio seconds p nodes →
      nodes.countP (·.runs other) = if u p.1 then 1 else 0) :
    groups.flatten.countP (·.runs other) = segments.countP u :=
  (countP_flatten_of_forall₂ h hu).trans (countP_zipIdx segments u)

theorem loops_of_brings
    (h : List.Forall₂ (Brings withAudio seconds) (sequenceSegments ctx true).zipIdx groups) :
    groups.flatten.countP (·.runs "loop") = stills ctx := by
  refine (countP_of_brings h fun p nodes hnodes => ?_).trans (countP_still ctx)
  rw [hnodes.countP_runs (by decide)]
  cases p.1.still <;> simp

theorem fits_of_brings
    (h : List.Forall₂ (Brings withAudio seconds) (sequenceSegments ctx true).zipIdx groups) :
    groups.flatten.countP (·.runs "scale") = (owned ctx).length + 1 - stills ctx := by
  refine (countP_of_brings h fun p nodes hnodes => ?_).trans (countP_not_still ctx)
  rw [hnodes.countP_runs (by decide)]
  cases p.1.still <;> simp

theorem silences_of_brings
    (h : List.Forall₂ (Brings withAudio seconds) (sequenceSegments ctx true).zipIdx groups) :
    groups.flatten.countP (·.runs "anullsrc") = if withAudio then stills ctx else 0 := by
  have hcount : groups.flatten.countP (·.runs "anullsrc") =
      (sequenceSegments ctx true).countP fun s => withAudio && s.still := by
    refine countP_of_brings h fun p nodes hnodes => ?_
    rw [hnodes.countP_runs (by decide)]
    cases p.1.still <;> cases withAudio <;> simp
  rw [hcount]
  cases withAudio with
  | false => simp
  | true => simpa using countP_still ctx

end

theorem concat_concatenates {params : Params} {ctx : HandlerContext} {made : Contribution}
    (h : concat params ctx = .ok made) :
    ∃ still f, params.float "still_duration" (some ctx.stillDuration) = .ok still ∧
      made.graph? = some f ∧ Concatenates ctx still f ∧ SeesOnce ctx f := by
  simp only [concat, bind_eq_ok, mapM_eq_ok, pure_eq_ok] at h
  obtain ⟨-, -, c, -, still, hstill, groups, hgroups, joined, hjoined, rfl⟩ := h
  have hbrings : List.Forall₂ (Brings ctx.primary.hasAudio still)
      (sequenceSegments ctx true).zipIdx groups :=
    (forall₂_mem hgroups).imp fun p nodes hnodes =>
      concatSegment_brings (sequenceSegments_segmented ctx true) hnodes.1 hnodes.2.2
  obtain ⟨hinputs, -, hchars⟩ := GraphNode.of_eq_ok hjoined
  -- The node joins the outputs of the segments, each with its sound behind its picture.
  have hlabels : joined.inputs = (groups.flatten.flatMap (·.outputs)).map .label := by
    have houtputs := map_eq_of_forall₂ hbrings fun p nodes hnodes => hnodes.outputs
    rw [map_zipIdx_snd _ (concatLabels ctx.primary.hasAudio)] at houtputs
    rw [hinputs, ← concatPads_eq, List.flatMap_def, ← houtputs, List.flatten_eq_flatMap,
      List.flatten_eq_flatMap, List.flatMap_assoc, List.flatMap_map]
    rfl
  have hruns : joined.runs "concat" = true := by
    rw [GraphNode.runs_iff, hchars]
    exact ⟨_, rfl⟩
  -- The joining node itself neither holds, fits nor silences anything.
  have hcount {other : String} (hother : '=' ∉ other.toList) (hne : other ≠ "concat") :
      (groups.flatten ++ [joined]).countP (·.runs other) =
        groups.flatten.countP (·.runs other) := by
    rw [List.countP_append, List.countP_singleton, GraphNode.runs_eq hruns (by decide) hother,
      beq_false_of_ne hne]
    rfl
  refine ⟨still, _, hstill, rfl, ⟨?_, ?_, ?_, groups, joined, rfl, hbrings, ?_⟩, ?_⟩
  · exact (hcount (by decide) (by decide)).trans (loops_of_brings hbrings)
  · exact (hcount (by decide) (by decide)).trans (fits_of_brings hbrings)
  · exact (hcount (by decide) (by decide)).trans (silences_of_brings hbrings)
  · rw [← length_sequenceSegments]
    exact joins_of_chars hlabels hchars (.inr ⟨_, rfl⟩)
  · have hblind : ∀ node ∈ [joined], Blind node := by simpa using blind_of_labels _ hlabels
    exact seesOnce (hbrings.imp fun _ _ hnodes => hnodes.group) hblind rfl

/-- Pictures of all segments, and a node that joins them and declares how many labels it reads. -/
def Stacks (name opening : String) (segments : List SequenceSegment) (f : Fragment) : Prop :=
  ∃ parts joined, f.nodes = parts ++ [joined] ∧
    List.Forall₂ (Pictures name) segments.zipIdx parts ∧
      Joins opening (parts.flatMap (·.outputs)).length (parts.flatMap (·.outputs)) joined

theorem stacks_of_nodes {ctx : HandlerContext} {includeMain : Bool} {opening : String}
    {parts : List GraphNode} {joined : GraphNode} {f : Fragment} {rest : List Char}
    (hparts : List.Forall₂ (Pictures name) (sequenceSegments ctx includeMain).zipIdx parts)
    (hinputs : joined.inputs = numberedLabels name (sequenceSegments ctx includeMain).length)
    (hchars : joined.filter.chars = opening.toList ++
      ((Number.text (Float.ofNat (sequenceSegments ctx includeMain).length)).toList ++ rest))
    (hrest : rest = [] ∨ [':'] <+: rest) (hf : f.nodes = parts ++ [joined]) :
    Stacks name opening (sequenceSegments ctx includeMain) f ∧ SeesOnce ctx f := by
  have houtputs := outputs_of_pictures hparts
  have hlabels : joined.inputs = (parts.flatMap (·.outputs)).map .label := by
    rw [hinputs, houtputs, List.map_map]
    rfl
  have hcount : (parts.flatMap (·.outputs)).length =
      (sequenceSegments ctx includeMain).length := by
    rw [houtputs, List.length_map, List.length_range]
  have hblind : ∀ node ∈ [joined], Blind node := by simpa using blind_of_labels _ hlabels
  exact ⟨⟨parts, joined, hf, hparts, joins_of_chars hlabels (hcount ▸ hchars) hrest⟩,
    seesOnce_of_pictures hparts hblind hf⟩

theorem opens_sub {u : FilterText} {word : String} {rest : List FilterText.Part}
    (h : FilterText.ofParts (.sub u :: rest) = .ok t) (hu : word.toList <+: u.chars) :
    word.toList <+: t.chars := by
  rw [FilterText.chars_ofParts h, List.flatMap_cons]
  exact hu.trans (List.prefix_append ..)

theorem slide_pictures {own : List Nat} {segments : List SequenceSegment}
    (hsegments : Segmented own segments) (hp : p ∈ segments.zipIdx) (fade? : Option Float)
    (count : Nat) : Gives (Pictures "s" p) (slide c seconds fade? count p) := by
  obtain ⟨s, i⟩ := p
  refine gives_bind fun retime _ => gives_bind fun chain hchain => ?_
  have hopens := prepareSegment_opens hchain
  cases fade? with
  | none => exact gives_ok (pictures_of_opens hsegments hp hopens)
  | some length =>
    simp only
    -- Fades come after what the picture starts with.
    split
    · refine gives_bind fun _ _ => gives_bind fun faded hfaded => ?_
      have hfadedOpens := opens_sub hfaded hopens
      split
      · refine gives_bind fun _ _ => gives_bind fun _ _ => gives_bind fun last hlast => ?_
        exact gives_ok (pictures_of_opens hsegments hp (opens_sub hlast hfadedOpens))
      · exact gives_ok (pictures_of_opens hsegments hp hfadedOpens)
    · refine gives_bind fun _ hsame => ?_
      cases hsame
      split
      · refine gives_bind fun _ _ => gives_bind fun _ _ => gives_bind fun last hlast => ?_
        exact gives_ok (pictures_of_opens hsegments hp (opens_sub hlast hopens))
      · exact gives_ok (pictures_of_opens hsegments hp hopens)

theorem slideshow_stacks {params : Params} {ctx : HandlerContext} {made : Contribution}
    (h : slideshow params ctx = .ok made) :
    ∃ includeMain f, params.bool "include_video" = .ok includeMain ∧ made.graph? = some f ∧
      Stacks "s" "concat=n=" (sequenceSegments ctx includeMain) f ∧ SeesOnce ctx f := by
  obtain ⟨includeMain, hinclude, h⟩ := bind_eq_ok.mp h
  simp only [bind_eq_ok] at h
  obtain ⟨-, -, c, -, hold, -, transition, -, length, -, h⟩ := h
  split at h
  · cases h
  · simp only [bind_eq_ok, mapM_eq_ok, pure_eq_ok] at h
    obtain ⟨slides, hslides, joined, hjoined, rfl⟩ := h
    have hpictures : List.Forall₂ (Pictures "s") (sequenceSegments ctx includeMain).zipIdx slides :=
      (forall₂_mem hslides).imp fun p node hnode =>
        slide_pictures (sequenceSegments_segmented ctx includeMain) hnode.1 _ _ node hnode.2.2
    obtain ⟨hinputs, -, hchars⟩ := GraphNode.of_eq_ok hjoined
    exact ⟨includeMain, _, hinclude, rfl,
      stacks_of_nodes hpictures hinputs hchars (.inr ⟨_, rfl⟩) rfl⟩

theorem grid_stacks {params : Params} {ctx : HandlerContext} {made : Contribution}
    (h : grid params ctx = .ok made) :
    ∃ includeMain f, params.bool "include_video" = .ok includeMain ∧ made.graph? = some f ∧
      Stacks "g" "xstack=inputs=" (sequenceSegments ctx includeMain) f ∧ SeesOnce ctx f := by
  obtain ⟨includeMain, hinclude, h⟩ := bind_eq_ok.mp h
  simp only [bind_eq_ok, mapM_eq_ok, pure_eq_ok] at h
  obtain ⟨-, -, columns, -, gap, -, hold, -, c, -, cells, hcells, joined, hjoined, length, -,
    rfl⟩ := h
  have hpictures : List.Forall₂ (Pictures "g") (sequenceSegments ctx includeMain).zipIdx
      (cells.map (·.1)) := by
    refine List.forall₂_map_right_iff.mpr ((forall₂_mem hcells).imp fun p cell hcell => ?_)
    obtain ⟨hp, -, hcell⟩ := hcell
    simp only [gridCell, bind_eq_ok, pure_eq_ok] at hcell
    obtain ⟨retime, -, filter, hfilter, place, -, rfl⟩ := hcell
    exact pictures_of_opens (sequenceSegments_segmented ctx includeMain) hp
      (prepareSegment_opens hfilter)
  obtain ⟨hinputs, -, hchars⟩ := GraphNode.of_eq_ok hjoined
  exact ⟨includeMain, _, hinclude, rfl,
    stacks_of_nodes hpictures hinputs hchars (.inr ⟨_, rfl⟩) rfl⟩

theorem splitScreen_stacks {params : Params} {ctx : HandlerContext} {made : Contribution}
    (h : splitScreen params ctx = .ok made) :
    ∃ stack f, (stack = "vstack" ∨ stack = "hstack") ∧ made.graph? = some f ∧
      Stacks "c" (stack ++ "=inputs=") (sequenceSegments ctx true) f ∧ SeesOnce ctx f := by
  simp only [splitScreen, bind_eq_ok, mapM_eq_ok, pure_eq_ok] at h
  obtain ⟨-, -, hold, -, c, -, parts, hparts, layout, -, joined, hjoined, h⟩ := h
  have hpictures : List.Forall₂ (Pictures "c") (sequenceSegments ctx true).zipIdx parts := by
    refine (forall₂_mem hparts).imp fun p node hnode => ?_
    obtain ⟨hp, -, filter, hfilter, rfl⟩ := hnode
    exact pictures_of_opens (sequenceSegments_segmented ctx true) hp (prepareSegment_opens hfilter)
  have hgraph : made.graph? = some { nodes := parts ++ [joined], video? := some "out" } := by
    split at h <;> simp only [bind_eq_ok, pure_eq_ok] at h
    · obtain ⟨length, -, tokens, -, rfl⟩ := h
      rfl
    · obtain ⟨tokens, -, rfl⟩ := h
      rfl
  obtain ⟨hinputs, -, hchars⟩ := GraphNode.of_eq_ok hjoined
  refine ⟨_, _, ite_eq_or_eq (layout = "vertical") .., hgraph,
    stacks_of_nodes hpictures hinputs ?_ (.inl rfl) rfl⟩
  rw [hchars, String.toList_append]
  simp [FilterText.Part.chars]

/-- The nodes cross-fade streams one after another into the one of this label, which shows these
parts in order. -/
inductive Fades : List GraphNode → String → List String → Prop
  | first (label : String) : Fades [] label [label]
  | next {nodes : List GraphNode} {node : GraphNode} {before part label : String}
      {parts : List String} (earlier : Fades nodes before parts) (runs : node.runs "xfade" = true)
      (inputs : node.inputs = [.label before, .label part]) (outputs : node.outputs = [label]) :
      Fades (nodes ++ [node]) label (parts ++ [part])

/-- Pictures of all segments, each transition after the first between what has been joined and the
next picture, and perhaps nodes that see no picture. -/
def Crossfades (segments : List SequenceSegment) (f : Fragment) : Prop :=
  ∃ parts fades rest out, f.nodes = parts ++ fades ++ rest ∧
    List.Forall₂ (Pictures "v") segments.zipIdx parts ∧
      f.video? = some out ∧ Fades fades out (parts.flatMap (·.outputs)) ∧
        f.nodes.countP (·.runs "xfade") = segments.length - 1

structure Joint (k : Nat) (node : GraphNode) : Prop where
  inputs : node.inputs = [.label (joinedLabel "v0" "x" k), .label (numbered "v" (k + 1))]
  outputs : node.outputs = [numbered "x" (k + 1)]
  runs : node.runs "xfade" = true

theorem crossfadeNode_joint {transition : FilterText} {length : Float} {p : Float × Nat}
    (h : crossfadeNode transition length p = .ok node) : Joint p.2 node := by
  simp only [crossfadeNode, bind_eq_ok] at h
  obtain ⟨duration, -, offset, -, h⟩ := h
  obtain ⟨hinputs, houtputs, hchars⟩ := GraphNode.of_eq_ok h
  refine ⟨hinputs, houtputs, ?_⟩
  rw [GraphNode.runs_iff, hchars]
  exact ⟨_, rfl⟩

theorem fades_of_joints {n : Nat} {nodes : List GraphNode}
    (h : List.Forall₂ Joint (List.range n) nodes) :
    Fades nodes (joinedLabel "v0" "x" n) ((List.range (n + 1)).map (numbered "v")) := by
  induction n generalizing nodes with
  | zero =>
    obtain rfl := List.forall₂_nil_left_iff.mp h
    exact .first "v0"
  | succ n ih =>
    rw [← List.forall₂_reverse_iff, List.range_succ, List.reverse_concat,
      List.forall₂_cons_left_iff] at h
    obtain ⟨node, earlier, hnode, hearlier, hnodes⟩ := h
    rw [← List.reverse_reverse earlier, List.forall₂_reverse_iff] at hearlier
    rw [← List.reverse_reverse nodes, hnodes, List.reverse_cons, List.range_succ, List.map_append]
    exact .next (ih hearlier) hnode.runs hnode.inputs hnode.outputs

theorem audioCrossfadeNode_blind {length : Float} {k : Nat}
    (h : audioCrossfadeNode length k = .ok node) : Blind node ∧ node.runs "xfade" = false := by
  obtain ⟨duration, -, h⟩ := bind_eq_ok.mp h
  obtain ⟨hinputs, -, hchars⟩ := GraphNode.of_eq_ok h
  have hruns : node.runs "acrossfade" = true := by
    rw [GraphNode.runs_iff, hchars]
    exact ⟨_, rfl⟩
  refine ⟨blind_of_labels [joinedLabel "a0" "ax" k, numbered "a" (k + 1)] hinputs, ?_⟩
  rw [GraphNode.runs_eq hruns (by decide) (by decide)]
  rfl

theorem countP_fades {segments : List SequenceSegment} {n : Nat}
    {parts joints rest : List GraphNode}
    (hparts : List.Forall₂ (Pictures "v") segments.zipIdx parts)
    (hjoints : List.Forall₂ Joint (List.range n) joints)
    (hrest : ∀ node ∈ rest, node.runs "xfade" = false) :
    (parts ++ joints ++ rest).countP (·.runs "xfade") = n := by
  have hpictures : parts.countP (·.runs "xfade") = 0 := by
    refine List.countP_eq_zero.mpr fun node hnode => ?_
    obtain ⟨p, -, hp⟩ := exists_of_mem_right hparts hnode
    rw [hp.runs_eq (by decide)]
    split <;> decide
  have hfades : joints.countP (·.runs "xfade") = joints.length := by
    refine List.countP_eq_length.mpr fun node hnode => ?_
    obtain ⟨k, -, hk⟩ := exists_of_mem_right hjoints hnode
    exact hk.runs
  have hothers : rest.countP (·.runs "xfade") = 0 :=
    List.countP_eq_zero.mpr fun node hnode => by simp [hrest node hnode]
  rw [List.countP_append, List.countP_append, hpictures, hfades, hothers, Nat.zero_add,
    Nat.add_zero, ← hjoints.length_eq, List.length_range]

theorem crossfades_of_nodes {ctx : HandlerContext} {parts joints : List GraphNode}
    {f : Fragment} (rest : List GraphNode)
    (hparts : List.Forall₂ (Pictures "v") (sequenceSegments ctx true).zipIdx parts)
    (hjoints : List.Forall₂ Joint (List.range (owned ctx).length) joints)
    (hrest : ∀ node ∈ rest, Blind node ∧ node.runs "xfade" = false)
    (hf : f.nodes = parts ++ joints ++ rest)
    (hvideo : f.video? = some (joinedLabel "v0" "x" (owned ctx).length)) :
    Crossfades (sequenceSegments ctx true) f ∧ SeesOnce ctx f := by
  have hlength := length_sequenceSegments ctx
  constructor
  · refine ⟨parts, joints, rest, _, hf, hparts, hvideo, ?_, ?_⟩
    · rw [outputs_of_pictures hparts, hlength]
      exact fades_of_joints hjoints
    · rw [hf, hlength, Nat.add_sub_cancel]
      exact countP_fades hparts hjoints fun node hnode => (hrest node hnode).2
  · rw [List.append_assoc] at hf
    refine seesOnce_of_pictures hparts (fun node hnode => ?_) hf
    obtain hjoint | hother := List.mem_append.mp hnode
    · obtain ⟨k, -, hk⟩ := exists_of_mem_right hjoints hjoint
      exact blind_of_labels [joinedLabel "v0" "x" k, numbered "v" (k + 1)] hk.inputs
    · exact (hrest node hother).1

theorem xfade_crossfades {params : Params} {ctx : HandlerContext} {made : Contribution}
    (h : xfade params ctx = .ok made) :
    ∃ f, made.graph? = some f ∧ Crossfades (sequenceSegments ctx true) f ∧ SeesOnce ctx f := by
  simp only [xfade, bind_eq_ok, mapM_eq_ok, pure_eq_ok] at h
  obtain ⟨-, -, c, -, length, -, still, -, transition, -, parts, hparts, joints, hjoints, h⟩ := h
  have hpictures : List.Forall₂ (Pictures "v") (sequenceSegments ctx true).zipIdx parts := by
    refine (forall₂_mem hparts).imp fun p node hnode => ?_
    obtain ⟨hp, -, retime, -, filter, hfilter, rfl⟩ := hnode
    exact pictures_of_opens (sequenceSegments_segmented ctx true) hp (prepareSegment_opens hfilter)
  have hoffsets : (Crossfade.offsets length ((sequenceSegments ctx true).map
      (segmentSeconds ctx still))).length = (owned ctx).length := by
    rw [length_offsets, List.length_tail, List.length_map, length_sequenceSegments,
      Nat.add_sub_cancel]
  rw [hoffsets] at h
  have hfades : List.Forall₂ Joint (List.range (owned ctx).length) joints := by
    have hnumbers := List.forall₂_map_left_iff.mpr
      (hjoints.imp fun p node hnode => crossfadeNode_joint hnode)
    rwa [map_zipIdx_snd _ fun k => k, List.map_id', hoffsets] at hnumbers
  -- Without two sounds nothing comes after the transitions; the nodes of sounds see no picture.
  split at h
  · obtain rfl := pure_eq_ok.mp h
    exact ⟨_, rfl, crossfades_of_nodes [] hpictures hfades (by simp) (by simp) rfl⟩
  · simp only [bind_eq_ok, mapM_eq_ok, pure_eq_ok] at h
    obtain ⟨audio, haudio, audioFades, haudioFades, rfl⟩ := h
    refine ⟨_, rfl, crossfades_of_nodes (audio ++ audioFades) hpictures hfades
      (fun node hnode => ?_) (by simp) rfl⟩
    obtain hsound | hfade := List.mem_append.mp hnode
    · obtain ⟨p, -, hp⟩ := exists_of_mem_right haudio hsound
      have hsounds : Sounds still p node := segmentAudio_sounds hp
      refine ⟨hsounds.blind, ?_⟩
      rw [hsounds.runs_eq (by decide)]
      split <;> rfl
    · obtain ⟨k, -, hk⟩ := exists_of_mem_right haudioFades hfade
      exact audioCrossfadeNode_blind hk

/-- Each of these effects, where it compiles, sees every extra input that its step owns once. A
concatenation holds as many stills as there are, fits the other segments, and joins the labels of
all of them in order. The others join as many labels as they declare, one for each segment, and
segments cross-fade one after another. -/
theorem sequence_accounts (params : Params) (ctx : HandlerContext) (made : Contribution) :
    (concat params ctx = .ok made →
      ∃ still f, params.float "still_duration" (some ctx.stillDuration) = .ok still ∧
        made.graph? = some f ∧ Concatenates ctx still f ∧ SeesOnce ctx f) ∧
    (slideshow params ctx = .ok made →
      ∃ includeMain f, params.bool "include_video" = .ok includeMain ∧ made.graph? = some f ∧
        Stacks "s" "concat=n=" (sequenceSegments ctx includeMain) f ∧ SeesOnce ctx f) ∧
    (grid params ctx = .ok made →
      ∃ includeMain f, params.bool "include_video" = .ok includeMain ∧ made.graph? = some f ∧
        Stacks "g" "xstack=inputs=" (sequenceSegments ctx includeMain) f ∧ SeesOnce ctx f) ∧
    (splitScreen params ctx = .ok made →
      ∃ stack f, (stack = "vstack" ∨ stack = "hstack") ∧ made.graph? = some f ∧
        Stacks "c" (stack ++ "=inputs=") (sequenceSegments ctx true) f ∧ SeesOnce ctx f) ∧
    (xfade params ctx = .ok made →
      ∃ f, made.graph? = some f ∧ Crossfades (sequenceSegments ctx true) f ∧ SeesOnce ctx f) :=
  ⟨concat_concatenates, slideshow_stacks, grid_stacks, splitScreen_stacks, xfade_crossfades⟩

/-- A clip with sound, and a video and a still image that the step owns. -/
def mixedContext : HandlerContext where
  primary := ⟨"/work/a.mp4", some 5, 25, 640, 360, true⟩
  extras := [⟨1, "/work/b.mp4", .video, none⟩, ⟨2, "/work/c.png", .image, none⟩]
  ownInputs := [1, 2]
  stillDuration := 4
  files := { workingDir := "/work", home := "/home", nodes := [] }

/-- Values for all parameters of the effects. -/
def mixedParams : Params where
  skill := { name := "mixed", category := .custom, strategy := .handler "mixed" }
  values := [("include_video", .flag true), ("duration", .number 1), ("transition", .text "fade"),
    ("columns", .number 2), ("gap", .number 0), ("duration_per_image", .number 4),
    ("transition_duration", .number 1), ("layout", .text "vertical")]

theorem sequence_accounts_mixed :
    (∃ made f, concat mixedParams mixedContext = .ok made ∧ made.graph? = some f ∧
      f.nodes.countP (·.runs "loop") = 1 ∧ f.nodes.countP (·.runs "scale") = 2 ∧
        f.nodes.countP (·.runs "anullsrc") = 1) ∧
    (∃ made f, slideshow mixedParams mixedContext = .ok made ∧ made.graph? = some f ∧
      f.nodes.countP (·.sees 1) = 1) ∧
    (∃ made f, grid mixedParams mixedContext = .ok made ∧ made.graph? = some f ∧
      f.nodes.countP (·.sees 2) = 1) ∧
    (∃ made f, splitScreen mixedParams mixedContext = .ok made ∧ made.graph? = some f ∧
      f.nodes.countP (·.sees 1) = 1) ∧
    ∃ made f, xfade mixedParams mixedContext = .ok made ∧ made.graph? = some f ∧
      f.nodes.countP (·.runs "xfade") = 2 := by
  have hsees {f : Fragment} (h : SeesOnce mixedContext f) {e : ExtraInput}
      (he : e ∈ owned mixedContext) : f.nodes.countP (·.sees e.index) = 1 :=
    (h e he).2 (by decide)
  have hfirst : ⟨1, "/work/b.mp4", .video, none⟩ ∈ owned mixedContext := List.mem_cons_self
  have hsecond : ⟨2, "/work/c.png", .image, none⟩ ∈ owned mixedContext :=
    List.mem_cons_of_mem _ List.mem_cons_self
  obtain ⟨joined, hjoined⟩ :=
    exists_of_isOk (by decide +kernel : (concat mixedParams mixedContext).isOk = true)
  obtain ⟨shown, hshown⟩ :=
    exists_of_isOk (by decide +kernel : (slideshow mixedParams mixedContext).isOk = true)
  obtain ⟨laid, hlaid⟩ :=
    exists_of_isOk (by decide +kernel : (grid mixedParams mixedContext).isOk = true)
  obtain ⟨split, hsplit⟩ :=
    exists_of_isOk (by decide +kernel : (splitScreen mixedParams mixedContext).isOk = true)
  obtain ⟨faded, hfaded⟩ :=
    exists_of_isOk (by decide +kernel : (xfade mixedParams mixedContext).isOk = true)
  obtain ⟨still, f, -, hf, hconcat, -⟩ := (sequence_accounts _ _ joined).1 hjoined
  obtain ⟨-, slides, -, hslides, -, hslidesSeen⟩ := (sequence_accounts _ _ shown).2.1 hshown
  obtain ⟨-, cells, -, hcells, -, hcellsSeen⟩ := (sequence_accounts _ _ laid).2.2.1 hlaid
  obtain ⟨-, halves, -, hhalves, -, hhalvesSeen⟩ := (sequence_accounts _ _ split).2.2.2.1 hsplit
  obtain ⟨fades, hfades, ⟨-, -, -, -, -, -, -, -, hcount⟩, -⟩ :=
    (sequence_accounts _ _ faded).2.2.2.2 hfaded
  exact ⟨⟨joined, f, hjoined, hf, hconcat.loops, hconcat.fits, hconcat.silences⟩,
    ⟨shown, slides, hshown, hslides, hsees hslidesSeen hfirst⟩,
    ⟨laid, cells, hlaid, hcells, hsees hcellsSeen hsecond⟩,
    ⟨split, halves, hsplit, hhalves, hsees hhalvesSeen hfirst⟩,
    ⟨faded, fades, hfaded, hfades, hcount⟩⟩

end Effect

end SkillPipeline
