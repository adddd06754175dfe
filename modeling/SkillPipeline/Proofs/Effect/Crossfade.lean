import Mathlib.Algebra.Order.Ring.Rat
import Mathlib.Tactic.ByContra
import Mathlib.Tactic.Ring
import SkillPipeline.Effect.Measure

namespace SkillPipeline.Crossfade

/-- One transition before the end of what has been joined, and not before time zero. -/
def startBefore (transition ending : ℚ) : ℚ := max 0 (ending - transition)

/-- How long segments last when they are joined: each one starts with the transition to it and runs
its full length. -/
def joinedLength (transition : ℚ) : List ℚ → ℚ
  | [] => 0
  | d :: rest => rest.foldl (fun ending d => startBefore transition ending + d) d

/-- The sum of the lengths, less one transition for each joint. -/
def shortenedSum (transition : ℚ) (durations : List ℚ) : ℚ :=
  durations.sum - (durations.length - 1) * transition

variable {t a b : ℚ} {ds : List ℚ}

theorem larger_eq (a : ℚ) :
    Number.Arithmetic.larger (Number.Arithmetic.ofNat 0) (a - t) = startBefore t a := by
  change (if ((0 : ℕ) : ℚ) < a - t then a - t else ((0 : ℕ) : ℚ)) = max 0 (a - t)
  rw [Nat.cast_zero, max_def_lt]

theorem offsetsFrom_eq (t running : ℚ) (ds : List ℚ) :
    offsetsFrom t running ds = (List.range ds.length).map fun k =>
      startBefore t (running + (ds.take k).sum - k * t) := by
  induction ds generalizing running with
  | nil => rfl
  | cons d rest ih =>
    rw [offsetsFrom, larger_eq, ih, List.length_cons, List.range_succ_eq_map, List.map_cons,
      List.map_map]
    congr 1
    · simp
    · refine List.map_congr_left fun k _ => ?_
      rw [Function.comp_apply, List.take_succ_cons, List.sum_cons, Nat.cast_succ]
      congr 1
      change running + (d - t) + (rest.take k).sum - k * t = _
      ring

/-- Each transition starts before the shortened sum of the segments that precede it. -/
theorem offsets_eq (t : ℚ) (ds : List ℚ) :
    offsets t ds = (List.range (ds.length - 1)).map fun k =>
      startBefore t (shortenedSum t (ds.take (k + 1))) := by
  cases ds with
  | nil => rfl
  | cons d rest =>
    rw [offsets, offsetsFrom_eq, List.length_cons, Nat.add_sub_cancel]
    refine List.map_congr_left fun k hk => ?_
    have hlength : (rest.take k).length = k :=
      List.length_take_of_le (List.mem_range.mp hk).le
    rw [shortenedSum, List.take_succ_cons, List.sum_cons, List.length_cons, hlength, Nat.cast_succ]
    congr 1
    ring

theorem joinedLength_concat (hsome : ds ≠ []) (d : ℚ) :
    joinedLength t (ds ++ [d]) = startBefore t (joinedLength t ds) + d := by
  cases ds with
  | nil => exact absurd rfl hsome
  | cons first rest => simp [joinedLength]

theorem shortenedSum_concat (ds : List ℚ) (d : ℚ) :
    shortenedSum t (ds ++ [d]) = shortenedSum t ds - t + d := by
  simp only [shortenedSum, List.sum_append, List.sum_singleton, List.length_append,
    List.length_singleton, Nat.cast_succ]
  ring

theorem startBefore_of_le (h : t ≤ a) : startBefore t a = a - t := max_eq_right (sub_nonneg.mpr h)

theorem startBefore_of_ge (h : a ≤ t) : startBefore t a = 0 := max_eq_left (sub_nonpos.mpr h)

/-- Two ends, one of them too early, give the same start if they are equal or both give zero. -/
theorem startBefore_eq_iff (h : a ≤ b) : startBefore t a = startBefore t b ↔ b ≤ t ∨ a = b := by
  constructor
  · intro heq
    by_contra! hnot
    obtain ⟨hb, hne⟩ := hnot
    have hlt : a < b := lt_of_le_of_ne h hne
    rw [startBefore_of_le hb.le] at heq
    have hlower : startBefore t a < b - t := max_lt (sub_pos.mpr hb) (sub_lt_sub_right hlt t)
    exact hlower.ne heq
  · rintro (hb | rfl)
    · rw [startBefore_of_ge hb, startBefore_of_ge (h.trans hb)]
    · rfl

theorem take_add_two {k : ℕ} (hk : k + 1 < ds.length) :
    ds.take (k + 2) = ds.take (k + 1) ++ [ds[k + 1]] := List.take_succ_eq_append_getElem hk

theorem take_succ_ne_nil {k : ℕ} (hk : k < ds.length) : ds.take (k + 1) ≠ [] := by
  rw [ne_eq, List.take_eq_nil_iff]
  rintro (h | rfl)
  · cases h
  · cases hk

/-- The sum is never past the true end; it falls behind for good at the first joint where what has
been joined is shorter than a transition. -/
theorem shortenedSum_spec {k : ℕ} (hk : k < ds.length) :
    shortenedSum t (ds.take (k + 1)) ≤ joinedLength t (ds.take (k + 1)) ∧
      (shortenedSum t (ds.take (k + 1)) = joinedLength t (ds.take (k + 1)) ↔
        ∀ j < k, t ≤ joinedLength t (ds.take (j + 1))) := by
  -- On the joints: the sum keeps up with the true end as long as no joint starts at zero.
  induction k with
  | zero =>
    cases ds with
    | nil => cases hk
    | cons d rest => simp [shortenedSum, joinedLength]
  | succ k ih =>
    obtain ⟨hle, heq⟩ := ih (Nat.lt_of_succ_lt hk)
    rw [take_add_two hk, shortenedSum_concat,
      joinedLength_concat (take_succ_ne_nil (Nat.lt_of_succ_lt hk))]
    have hstart : shortenedSum t (ds.take (k + 1)) - t ≤
        startBefore t (joinedLength t (ds.take (k + 1))) :=
      (sub_le_sub_right hle t).trans (le_max_right ..)
    refine ⟨add_le_add_left hstart _, ?_⟩
    rw [add_left_inj, Nat.forall_lt_succ_right, ← heq]
    -- What has been joined is shorter than a transition exactly if the start is cut off at zero.
    rcases le_or_gt t (joinedLength t (ds.take (k + 1))) with hlong | hshort
    · rw [startBefore_of_le hlong, sub_left_inj, and_iff_left hlong]
    · rw [startBefore_of_ge hshort.le]
      constructor
      · intro hzero
        exact absurd (hle.trans_lt hshort) (not_lt.mpr (sub_eq_zero.mp hzero).ge)
      · rintro ⟨-, hlong⟩
        exact absurd hlong (not_le.mpr hshort)

/-- The transitions between segments: one for each joint, placed by the shortened sum. Such a one
starts in time exactly if what it ends is no longer than a transition, or if no joint before it
ended something shorter than that. -/
theorem offsets_in_time_iff (t : ℚ) (ds : List ℚ) (k : ℕ) (hk : k + 1 < ds.length) :
    (offsets t ds).length = ds.length - 1 ∧
      (offsets t ds)[k]? = some (startBefore t (shortenedSum t (ds.take (k + 1)))) ∧
        ((offsets t ds)[k]? = some (startBefore t (joinedLength t (ds.take (k + 1)))) ↔
          joinedLength t (ds.take (k + 1)) ≤ t ∨
            ∀ j < k, t ≤ joinedLength t (ds.take (j + 1))) := by
  have hoffset : (offsets t ds)[k]? = some (startBefore t (shortenedSum t (ds.take (k + 1)))) := by
    rw [offsets_eq, List.getElem?_map, List.getElem?_range (Nat.lt_sub_of_add_lt hk)]
    rfl
  refine ⟨by rw [offsets_eq, List.length_map, List.length_range], hoffset, ?_⟩
  obtain ⟨hle, heq⟩ := shortenedSum_spec (t := t) (Nat.lt_of_succ_lt hk)
  rw [hoffset, Option.some_inj, startBefore_eq_iff hle, heq]

/-- A clip of half a second, and two of three seconds, with transitions of one second. -/
theorem offsets_in_time_iff_short : 1 + 1 < [(1 / 2 : ℚ), 3, 3].length ∧
    (offsets 1 [(1 / 2 : ℚ), 3, 3])[1]? = some (3 / 2) ∧
      ¬((offsets 1 [(1 / 2 : ℚ), 3, 3])[1]? =
        some (startBefore 1 (joinedLength 1 [1 / 2, 3]))) := by
  obtain ⟨-, hoffset, hiff⟩ := offsets_in_time_iff 1 [1 / 2, 3, 3] 1 (by decide)
  refine ⟨by decide, hoffset.trans ?_, fun h => ?_⟩
  · decide +kernel
  · obtain hshort | hlong := hiff.mp h
    · revert hshort
      decide +kernel
    · have hfirst := hlong 0 Nat.one_pos
      revert hfirst
      decide +kernel

/-- Not every transition starts before the end of what has been joined: after the half second the
next clip starts at once and ends at three seconds, but the second transition is placed as if it
ended half a second earlier. -/
theorem not_offsets_in_time : (∀ d ∈ [(1 / 2 : ℚ), 3, 3], 0 ≤ d) ∧ (0 : ℚ) ≤ 1 ∧
    offsets 1 [(1 / 2 : ℚ), 3, 3] = [0, 3 / 2] ∧
      (List.range 2).map (fun k => startBefore 1 (joinedLength 1 ([1 / 2, 3, 3].take (k + 1)))) =
        [0, 2] := by
  decide +kernel

end SkillPipeline.Crossfade
