import SkillPipeline.Proofs.Effect.Accounting
import SkillPipeline.Proofs.Effect.Crossfade
import SkillPipeline.Proofs.Number.Whole

namespace SkillPipeline.Crossfade

variable {t : ℚ} {durations : List ℚ} {i : ℕ}

/-- When something starts after parts of these lengths, each of which runs into the next. -/
def startAfter (t : ℚ) (before : List ℚ) : ℚ := before.sum - before.length * t

/-- When a picture starts: the first at once, and each other one with the transition to it. -/
def pictureStart (t : ℚ) (durations : List ℚ) : ℕ → ℚ
  | 0 => 0
  | k + 1 => (offsets t durations).getD k 0

theorem startAfter_cons (t d : ℚ) (rest : List ℚ) :
    startAfter t (d :: rest) = startAfter t rest + (d - t) := by
  rw [startAfter, startAfter, List.sum_cons, List.length_cons, Nat.cast_succ]
  ring

theorem startAfter_nonneg (hlong : ∀ d ∈ durations, t ≤ d) : 0 ≤ startAfter t durations := by
  have hsum := List.card_nsmul_le_sum durations t hlong
  rw [nsmul_eq_mul] at hsum
  exact sub_nonneg.mpr hsum

theorem pictureStart_eq (hi : i < durations.length) (hlong : ∀ d ∈ durations, t ≤ d) :
    pictureStart t durations i = startAfter t (durations.take i) := by
  cases i with
  | zero => simp [pictureStart, startAfter]
  | succ k =>
    have hlength : (durations.take (k + 1)).length = k + 1 := List.length_take_of_le hi.le
    have hstart : startAfter t (durations.take (k + 1)) =
        shortenedSum t (durations.take (k + 1)) - t := by
      rw [startAfter, shortenedSum, hlength, Nat.cast_succ]
      ring
    have hnonneg : 0 ≤ startAfter t (durations.take (k + 1)) :=
      startAfter_nonneg fun d hd => hlong d (List.mem_of_mem_take hd)
    rw [pictureStart, offsets_eq, List.getD_eq_getElem?_getD, List.getElem?_map,
      List.getElem?_range (Nat.lt_sub_of_add_lt hi), Option.map_some, Option.getD_some, hstart]
    rw [hstart] at hnonneg
    exact max_eq_right hnonneg

end SkillPipeline.Crossfade

namespace SkillPipeline.Effect

open Outcome Crossfade

def audible (segments : List SequenceSegment) : List SequenceSegment := segments.filter (!·.still)

section Starts

variable {t hold : ℚ} {seconds : SequenceSegment → ℚ} {s : SequenceSegment}
  {before : List SequenceSegment}

theorem audible_cons_still (hs : s.still = true) : audible (s :: before) = audible before :=
  List.filter_cons_of_neg (by simp [hs])

theorem audible_cons (hs : s.still = false) : audible (s :: before) = s :: audible before :=
  List.filter_cons_of_pos (by simp [hs])

/-- When a sound starts: after those of the segments that bring one. -/
def soundStart (t : ℚ) (seconds : SequenceSegment → ℚ) (before : List SequenceSegment) : ℚ :=
  startAfter t ((audible before).map seconds)

/-- What still images of one length add before a picture and not before its sound. -/
theorem startAfter_eq_add (h : ∀ s ∈ before, s.still = true → seconds s = hold) :
    startAfter t (before.map seconds) = soundStart t seconds before +
      before.countP (·.still) * (hold - t) := by
  induction before with
  | nil => simp [soundStart, audible]
  | cons s rest ih =>
    obtain ⟨hs, hrest⟩ := List.forall_mem_cons.mp h
    rw [List.map_cons, startAfter_cons, ih hrest]
    cases hstill : s.still with
    | true =>
      rw [hs hstill, soundStart, soundStart, audible_cons_still hstill,
        List.countP_cons_of_pos hstill, Nat.cast_succ]
      ring
    | false =>
      rw [soundStart, soundStart, audible_cons hstill, List.map_cons, startAfter_cons,
        List.countP_cons_of_neg (by simp [hstill])]
      ring

theorem pictureStart_eq_add {segments after : List SequenceSegment}
    (hsegments : segments = before ++ s :: after)
    (hlong : ∀ d ∈ segments.map seconds, t ≤ d)
    (hstill : ∀ s ∈ before, s.still = true → seconds s = hold) :
    pictureStart t (segments.map seconds) before.length =
      soundStart t seconds before + before.countP (·.still) * (hold - t) := by
  rw [pictureStart_eq (by simp [hsegments]) hlong, ← startAfter_eq_add hstill, ← List.map_take,
    hsegments, List.take_left]

theorem getElem?_audible {segments after : List SequenceSegment}
    (hsegments : segments = before ++ s :: after) (hs : s.still = false) :
    (audible segments)[(audible before).length]? = some s := by
  have hparts : audible segments = audible before ++ s :: audible after := by
    rw [← audible_cons hs, hsegments]
    exact List.filter_append ..
  rw [hparts, List.getElem?_append_right le_rfl, Nat.sub_self, List.getElem?_cons_zero]

end Starts

variable {params : Params} {ctx : HandlerContext} {made : Contribution} {node : GraphNode}
  {length still : Float}

theorem segmentSeconds_still {s : SequenceSegment} (hs : s ∈ sequenceSegments ctx true)
    (hstill : s.still = true) : segmentSeconds ctx still s = still := by
  obtain hmain | hextra := List.mem_append.mp hs
  · obtain rfl := List.mem_singleton.mp hmain
    cases hstill
  · obtain ⟨e, -, rfl⟩ := List.mem_map.mp hextra
    exact if_pos (eq_of_beq hstill)

/-- The node of a transition, with the text of its times. -/
structure Transition (length : Float) (p : Float × ℕ) (node : GraphNode) : Prop extends
    Joint p.2 node where
  text : ∃ transition, node.filter.text = "xfade=transition=" ++ transition ++ ":duration=" ++
    Filter.decimalText length ++ ":offset=" ++ Filter.decimalText p.1

structure Blend (length : Float) (k : ℕ) (node : GraphNode) : Prop where
  inputs : node.inputs = [.label (joinedLabel "a0" "ax" k), .label (numbered "a" (k + 1))]
  outputs : node.outputs = [numbered "ax" (k + 1)]
  text : node.filter.text = "acrossfade=d=" ++ Filter.decimalText length ++ ":c1=tri:c2=tri"

/-- The pictures of all segments with their transitions, and the sounds of those that bring one, if
two do at least. -/
def Times (segments : List SequenceSegment) (length still : Float)
    (seconds : SequenceSegment → Float) (f : Fragment) : Prop :=
  ∃ pictures transitions sounds blends,
    f.nodes = pictures ++ transitions ++ (sounds ++ blends) ∧
      List.Forall₂ (Pictures "v") segments.zipIdx pictures ∧
        List.Forall₂ (Transition length) (offsets length (segments.map seconds)).zipIdx
          transitions ∧
          if (audible segments).length < 2 then sounds = [] ∧ blends = [] ∧ f.audio? = none
          else List.Forall₂ (Sounds still) (audible segments).zipIdx sounds ∧
            List.Forall₂ (Blend length) (List.range ((audible segments).length - 1)) blends ∧
              f.audio? = some (joinedLabel "a0" "ax" ((audible segments).length - 1))

theorem crossfadeNode_transition {transition : FilterText} {p : Float × ℕ}
    (h : crossfadeNode transition length p = .ok node) : Transition length p node := by
  refine ⟨crossfadeNode_joint h, transition.text, ?_⟩
  simp only [crossfadeNode, bind_eq_ok] at h
  obtain ⟨duration, hduration, offset, hoffset, h⟩ := h
  obtain ⟨-, -, hchars⟩ := GraphNode.of_eq_ok h
  rw [← String.toList_inj, FilterText.text, String.toList_ofList, hchars]
  simp [FilterText.Part.chars, FilterText.text, FilterText.chars_number hduration,
    FilterText.chars_number hoffset, Filter.NumberForm.text]

theorem audioCrossfadeNode_blend {k : ℕ} (h : audioCrossfadeNode length k = .ok node) :
    Blend length k node := by
  obtain ⟨duration, hduration, h⟩ := bind_eq_ok.mp h
  obtain ⟨hinputs, houtputs, hchars⟩ := GraphNode.of_eq_ok h
  refine ⟨hinputs, houtputs, ?_⟩
  rw [← String.toList_inj, FilterText.text, String.toList_ofList, hchars]
  simp [FilterText.Part.chars, FilterText.chars_number hduration, Filter.NumberForm.text]

theorem xfade_times (h : xfade params ctx = .ok made) (haudio : ctx.primary.hasAudio = true) :
    ∃ length still f, params.float "duration" = .ok length ∧
      params.float "still_duration" (some ctx.stillDuration) = .ok still ∧
        made.graph? = some f ∧
          Times (sequenceSegments ctx true) length still (segmentSeconds ctx still) f := by
  simp only [xfade, bind_eq_ok, mapM_eq_ok, pure_eq_ok] at h
  obtain ⟨-, -, c, -, length, hlength, still, hstill, transition, -, parts, hparts, joints, hjoints,
    h⟩ := h
  have hpictures : List.Forall₂ (Pictures "v") (sequenceSegments ctx true).zipIdx parts := by
    refine (forall₂_mem hparts).imp fun p node hnode => ?_
    obtain ⟨hp, -, retime, -, filter, hfilter, rfl⟩ := hnode
    exact pictures_of_opens (sequenceSegments_segmented ctx true) hp (prepareSegment_opens hfilter)
  have htransitions := hjoints.imp fun p node hnode => crossfadeNode_transition hnode
  refine ⟨length, still, ?_⟩
  rw [haudio] at h
  -- Sounds are blended only where two segments at least bring one.
  split at h
  · next hfew =>
    obtain rfl := pure_eq_ok.mp h
    refine ⟨_, hlength, hstill, rfl, parts, joints, [], [], (List.append_nil _).symm, hpictures,
      htransitions, ?_⟩
    rw [if_pos (by simpa [audible] using hfew)]
    exact ⟨rfl, rfl, rfl⟩
  · next hmany =>
    simp only [bind_eq_ok, mapM_eq_ok, pure_eq_ok] at h
    obtain ⟨sounds, hsounds, blends, hblends, rfl⟩ := h
    refine ⟨_, hlength, hstill, rfl, parts, joints, sounds, blends, List.append_assoc .., hpictures,
      htransitions, ?_⟩
    rw [if_neg (by simpa [audible] using hmany)]
    exact ⟨hsounds.imp fun p node hp => segmentAudio_sounds hp,
      hblends.imp fun k node hk => audioCrossfadeNode_blend hk, rfl⟩

/-- The seconds of a segment, as a number. -/
def exactSeconds (ctx : HandlerContext) (still : Float) (s : SequenceSegment) : ℚ :=
  Number.exact (segmentSeconds ctx still s)

/-- The segment after these shows its picture and brings its sound at one time. -/
def InStep (t : ℚ) (seconds : SequenceSegment → ℚ) (segments before : List SequenceSegment) :
    Prop :=
  pictureStart t (segments.map seconds) before.length = soundStart t seconds before

/-- A compiled crossfade with audio says when each picture and each sound starts. In exact
arithmetic, and if no segment is shorter than a transition, each picture is behind its sound by what
the still images before it last beyond one transition each; so the two are in step exactly if there
is no still image before them, or still images are held for one transition. -/
theorem xfade_in_step_iff (h : xfade params ctx = .ok made)
    (haudio : ctx.primary.hasAudio = true) :
    ∃ length still f, params.float "duration" = .ok length ∧
      params.float "still_duration" (some ctx.stillDuration) = .ok still ∧
        made.graph? = some f ∧
          Times (sequenceSegments ctx true) length still (segmentSeconds ctx still) f ∧
            ((∀ s ∈ sequenceSegments ctx true, Number.exact length ≤ exactSeconds ctx still s) →
              ∀ before s after, sequenceSegments ctx true = before ++ s :: after →
                s.still = false →
                (audible (sequenceSegments ctx true))[(audible before).length]? = some s ∧
                  pictureStart (Number.exact length)
                      ((sequenceSegments ctx true).map (exactSeconds ctx still)) before.length =
                    soundStart (Number.exact length) (exactSeconds ctx still) before +
                      before.countP (·.still) * (Number.exact still - Number.exact length) ∧
                  (InStep (Number.exact length) (exactSeconds ctx still)
                      (sequenceSegments ctx true) before ↔
                    (∀ p ∈ before, p.still = false) ∨
                      Number.exact still = Number.exact length)) := by
  obtain ⟨length, still, f, hlength, hstill, hgraph, htimes⟩ := xfade_times h haudio
  refine ⟨length, still, f, hlength, hstill, hgraph, htimes, ?_⟩
  intro hlong before s after hsegments hs
  -- Still images are held for one length, so the lag is counted in still images.
  have hheld : ∀ p ∈ before, p.still = true → exactSeconds ctx still p = Number.exact still := by
    intro p hp hpstill
    have hmem : p ∈ sequenceSegments ctx true := by simp [hsegments, hp]
    rw [exactSeconds, segmentSeconds_still hmem hpstill]
  have hstart := pictureStart_eq_add hsegments (List.forall_mem_map.mpr hlong) hheld
  refine ⟨getElem?_audible hsegments hs, hstart, ?_⟩
  rw [InStep, hstart, add_eq_left, mul_eq_zero, Nat.cast_eq_zero, List.countP_eq_zero, sub_eq_zero]
  simp only [Bool.not_eq_true]

/-- A clip of five seconds, a still image, and a clip of six. -/
def stillBetween : HandlerContext := { mixedContext with
  extras := [⟨1, "/work/logo.png", .image, none⟩, ⟨2, "/work/b.mp4", .video, some 6⟩] }

/-- The clip after the first has no still image before it. -/
theorem xfade_in_step_iff_mixed : ∃ made f, xfade mixedParams mixedContext = .ok made ∧
    made.graph? = some f ∧
      InStep 1 (exactSeconds mixedContext 4) (sequenceSegments mixedContext true)
        [⟨.main .video, false, none⟩] := by
  obtain ⟨made, hmade⟩ :=
    exists_of_isOk (by decide +kernel : (xfade mixedParams mixedContext).isOk = true)
  have hone : Number.exact 1 = 1 := by exact_mod_cast Number.exact_ofNat (n := 1) (by norm_num)
  have hfour : Number.exact 4 = 4 := by exact_mod_cast Number.exact_ofNat (n := 4) (by norm_num)
  have hfive : Number.exact 5 = 5 := by exact_mod_cast Number.exact_ofNat (n := 5) (by norm_num)
  obtain ⟨length, still, f, hlength, hstill, hgraph, -, hstep⟩ := xfade_in_step_iff hmade rfl
  obtain rfl : 1 = length := Except.ok.inj hlength
  obtain rfl : 4 = still := Except.ok.inj hstill
  have hvalues : (sequenceSegments mixedContext true).map (exactSeconds mixedContext 4) =
      [5, 5, 4] := by
    change [Number.exact 5, Number.exact 5, Number.exact 4] = _
    rw [hfour, hfive]
  have hlong : ∀ s ∈ sequenceSegments mixedContext true,
      Number.exact 1 ≤ exactSeconds mixedContext 4 s := by
    rw [← List.forall_mem_map (P := (Number.exact 1 ≤ ·)), hvalues, hone]
    decide +kernel
  obtain ⟨-, -, hiff⟩ := hstep hlong [⟨.main .video, false, none⟩] _ _ rfl rfl
  rw [hone] at hiff
  exact ⟨made, f, hmade, hgraph, hiff.mpr (.inl (by simp))⟩

/-- Sound need not be in step with its picture: the still image shows for four seconds, of which
the sound of the last clip knows nothing. -/
theorem not_xfade_in_step : (xfade mixedParams stillBetween).isOk = true ∧
    (sequenceSegments stillBetween true).map (·.still) = [false, true, false] ∧
      (sequenceSegments stillBetween true).map (exactSeconds stillBetween 4) = [5, 4, 6] ∧
        pictureStart 1 [5, 4, 6] 2 = 7 ∧
          soundStart 1 (exactSeconds stillBetween 4) ((sequenceSegments stillBetween true).take 2) =
            4 ∧
          ¬InStep 1 (exactSeconds stillBetween 4) (sequenceSegments stillBetween true)
            ((sequenceSegments stillBetween true).take 2) := by
  have hfour : Number.exact 4 = 4 := by exact_mod_cast Number.exact_ofNat (n := 4) (by norm_num)
  have hfive : Number.exact 5 = 5 := by exact_mod_cast Number.exact_ofNat (n := 5) (by norm_num)
  have hsix : Number.exact 6 = 6 := by exact_mod_cast Number.exact_ofNat (n := 6) (by norm_num)
  have hvalues : (sequenceSegments stillBetween true).map (exactSeconds stillBetween 4) =
      [5, 4, 6] := by
    change [Number.exact 5, Number.exact 4, Number.exact 6] = _
    rw [hfour, hfive, hsix]
  have hpicture : pictureStart 1 [5, 4, 6] 2 = 7 := by decide +kernel
  have hsound : soundStart 1 (exactSeconds stillBetween 4)
      ((sequenceSegments stillBetween true).take 2) = 4 := by
    change [Number.exact 5].sum - 1 * 1 = _
    rw [hfive]
    norm_num
  refine ⟨by decide +kernel, rfl, hvalues, hpicture, hsound, fun hstep => ?_⟩
  rw [InStep, hvalues, hsound] at hstep
  have heq : (7 : ℚ) = 4 := hpicture.symm.trans hstep
  norm_num at heq

end SkillPipeline.Effect
