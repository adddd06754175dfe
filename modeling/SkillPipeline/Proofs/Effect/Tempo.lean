import Mathlib.Data.Real.Basic
import Mathlib.Tactic.Linarith
import SkillPipeline.Effect.Measure

namespace SkillPipeline.Tempo

/-- What one instance of the tempo filter takes. -/
def InRange {α : Type} [Field α] [LE α] (x : α) : Prop := 1 / 2 ≤ x ∧ x ≤ 2

/-- A loop that takes off instances of one factor for as long as a test asks for that: what it
takes off from `remaining`, and what is left when the test fails. -/
inductive TakesOff (again : ℚ → Prop) (factor : ℚ) : ℚ → List ℚ → ℚ → Prop
  | stop {remaining : ℚ} (h : ¬again remaining) : TakesOff again factor remaining [] remaining
  | step {remaining rest : ℚ} {taken : List ℚ} (h : again remaining)
      (later : TakesOff again factor (remaining / factor) taken rest) :
      TakesOff again factor remaining (factor :: taken) rest

namespace TakesOff

variable {again : ℚ → Prop} {factor remaining rest : ℚ} {taken : List ℚ}

theorem not_again (h : TakesOff again factor remaining taken rest) : ¬again rest := by
  induction h with
  | stop h => exact h
  | step h later ih => exact ih

theorem eq_of_mem (h : TakesOff again factor remaining taken rest) : ∀ x ∈ taken, x = factor := by
  induction h with
  | stop h => simp
  | step h later ih => simpa using ih

theorem prod_mul (h : TakesOff again factor remaining taken rest) (hfactor : factor ≠ 0) :
    taken.prod * rest = remaining := by
  induction h with
  | stop h => simp
  | step h later ih => rw [List.prod_cons, mul_assoc, ih, mul_div_cancel₀ _ hfactor]

theorem eq_nil_of_not (h : TakesOff again factor remaining taken rest) (hnot : ¬again remaining) :
    taken = [] ∧ rest = remaining := by
  cases h with
  | stop h => exact ⟨rfl, rfl⟩
  | step h later => exact absurd h hnot

/-- Taking off halves at all means that there was less than all of them together. -/
theorem lt_of_halves (h : TakesOff (· < 1 / 2) (1 / 2) remaining taken rest) (hsome : taken ≠ []) :
    remaining < (1 / 2) ^ taken.length ∧ rest < 1 := by
  induction h with
  | stop h => exact absurd rfl hsome
  | @step remaining rest taken h later ih =>
    rw [List.length_cons, pow_succ]
    by_cases hlast : taken = []
    · subst hlast
      cases later with
      | stop h' => exact ⟨by simpa using h, by linarith⟩
    · obtain ⟨hlt, hrest⟩ := ih hlast
      exact ⟨by linarith, hrest⟩

/-- Taking off twos at all means that there was more than all of them together. -/
theorem lt_of_doubles (h : TakesOff (2 < ·) 2 remaining taken rest) (hsome : taken ≠ []) :
    2 ^ taken.length < remaining ∧ 1 < rest := by
  induction h with
  | stop h => exact absurd rfl hsome
  | @step remaining rest taken h later ih =>
    rw [List.length_cons, pow_succ]
    by_cases hlast : taken = []
    · subst hlast
      cases later with
      | stop h' => exact ⟨by simpa using h, by linarith⟩
    · obtain ⟨hlt, hrest⟩ := ih hlast
      exact ⟨by linarith, hrest⟩

end TakesOff

theorem half_eq : (half : ℚ) = 1 / 2 := by
  change ((5 : ℕ) : ℚ) / 10 ^ 1 = 1 / 2
  norm_num

theorem two_eq : (two : ℚ) = 2 := by
  change ((2 : ℕ) : ℚ) = 2
  norm_num

theorem less_iff (a b : ℚ) : Number.Arithmetic.less a b = true ↔ a < b := decide_eq_true_iff

variable {remaining : ℚ} {fuel : ℕ}

theorem halves_takesOff (h : 1 / 2 ≤ remaining * 2 ^ fuel) :
    TakesOff (· < 1 / 2) (1 / 2) remaining (halves remaining fuel).1 (halves remaining fuel).2 := by
  induction fuel generalizing remaining with
  | zero => exact .stop (by simpa using h)
  | succ fuel ih =>
    rw [halves]
    split
    · next hless =>
      rw [less_iff, half_eq] at hless
      rw [two_eq, half_eq]
      have hdoubled : 1 / 2 ≤ remaining * 2 * 2 ^ fuel := by rwa [mul_assoc, ← pow_succ']
      have hlater := ih hdoubled
      refine .step hless ?_
      rwa [div_div_eq_mul_div, div_one]
    · next hless =>
      rw [less_iff, half_eq] at hless
      exact .stop hless

theorem doubles_takesOff (h : remaining ≤ 2 * 2 ^ fuel) :
    TakesOff (2 < ·) 2 remaining (doubles remaining fuel).1 (doubles remaining fuel).2 := by
  induction fuel generalizing remaining with
  | zero => exact .stop (by simpa using h)
  | succ fuel ih =>
    rw [doubles]
    split
    · next hless =>
      rw [less_iff, two_eq] at hless
      rw [two_eq]
      have hhalved : remaining / 2 ≤ 2 * 2 ^ fuel := by
        rw [pow_succ] at h
        linarith
      exact .step hless (ih hhalved)
    · next hless =>
      rw [less_iff, two_eq] at hless
      exact .stop hless

theorem doublings_enough (h : 0 < remaining) :
    1 / 2 ≤ remaining * 2 ^ Number.Arithmetic.doublings remaining ∧
      remaining ≤ 2 * 2 ^ Number.Arithmetic.doublings remaining := by
  have hcount : Number.Arithmetic.doublings remaining = remaining.num.natAbs + remaining.den := rfl
  have hpower : (remaining.num.natAbs + remaining.den : ℚ) <
      2 ^ Number.Arithmetic.doublings remaining := by
    rw [hcount]
    exact_mod_cast Nat.lt_two_pow_self
  have hnum : remaining * remaining.den = remaining.num.natAbs := by
    rw [Rat.mul_den_eq_num, ← Int.cast_natCast, Int.natAbs_of_nonneg (Rat.num_nonneg.mpr h.le)]
  have hone : (1 : ℚ) ≤ remaining.num.natAbs := by
    exact_mod_cast Int.natAbs_pos.mpr (Rat.num_pos.mpr h).ne'
  have hden : (1 : ℚ) ≤ remaining.den := by exact_mod_cast remaining.den_pos
  constructor
  · have hscaled : remaining * remaining.den ≤
        remaining * 2 ^ Number.Arithmetic.doublings remaining :=
      mul_le_mul_of_nonneg_left (by linarith) h.le
    linarith
  · have hwhole : remaining ≤ remaining * remaining.den := le_mul_of_one_le_right h.le hden
    linarith

/-- The two loops in turn, the second on what the first has left. -/
def Decomposes (factor : ℚ) (numbers : List ℚ) : Prop :=
  ∃ slow middle fast rest, TakesOff (· < 1 / 2) (1 / 2) factor slow middle ∧
    TakesOff (2 < ·) 2 middle fast rest ∧ numbers = slow ++ fast ++ [rest]

theorem decomposes_instances {factor : ℚ} (h : 0 < factor) :
    Decomposes factor (instances factor) := by
  have hslow := halves_takesOff (doublings_enough h).1
  have hmiddle := hslow.not_again
  exact ⟨_, _, _, _, hslow, doubles_takesOff (doublings_enough (by linarith)).2, rfl⟩

section Decomposes

variable {factor : ℚ} {numbers : List ℚ}

theorem Decomposes.prod (h : Decomposes factor numbers) : numbers.prod = factor := by
  obtain ⟨slow, middle, fast, rest, hslow, hfast, rfl⟩ := h
  rw [List.prod_append, List.prod_append, List.prod_singleton, mul_assoc,
    hfast.prod_mul (by norm_num), hslow.prod_mul (by norm_num)]

/-- The first loop leaves less than one where it does anything, so the second one then does
nothing. -/
theorem Decomposes.cases (h : Decomposes factor numbers) : ∃ taken rest,
    numbers = taken ++ [rest] ∧ InRange rest ∧
      (taken = [] ∨ TakesOff (· < 1 / 2) (1 / 2) factor taken rest ∧ taken ≠ [] ∨
        TakesOff (2 < ·) 2 factor taken rest ∧ taken ≠ []) := by
  obtain ⟨slow, middle, fast, rest, hslow, hfast, rfl⟩ := h
  have hmiddle := hslow.not_again
  have hrest := hfast.not_again
  rcases eq_or_ne slow [] with rfl | hsome
  · cases hslow
    rcases eq_or_ne fast [] with rfl | hfastSome
    · cases hfast
      exact ⟨[], _, rfl, ⟨by linarith, by linarith⟩, .inl rfl⟩
    · obtain ⟨-, hone⟩ := hfast.lt_of_doubles hfastSome
      exact ⟨fast, rest, rfl, ⟨by linarith, by linarith⟩, .inr (.inr ⟨hfast, hfastSome⟩)⟩
  · obtain ⟨-, hone⟩ := hslow.lt_of_halves hsome
    obtain ⟨rfl, rfl⟩ := hfast.eq_nil_of_not (by linarith)
    exact ⟨slow, rest, by simp, ⟨by linarith, by linarith⟩, .inr (.inl ⟨hslow, hsome⟩)⟩

theorem Decomposes.inRange (h : Decomposes factor numbers) : ∀ x ∈ numbers, InRange x := by
  obtain ⟨taken, rest, rfl, hrest, htaken⟩ := h.cases
  intro x hx
  obtain hx | hx := List.mem_append.mp hx
  · obtain rfl | ⟨hslow, -⟩ | ⟨hfast, -⟩ := htaken
    · cases hx
    · rw [hslow.eq_of_mem x hx]
      exact ⟨le_refl _, by norm_num⟩
    · rw [hfast.eq_of_mem x hx]
      exact ⟨by norm_num, le_refl _⟩
  · rwa [List.mem_singleton.mp hx]

end Decomposes

/-- Numbers in range, so many of them, come to no less than so many halves and no more than so many
twos. -/
theorem prod_bounds {numbers : List ℝ} (h : ∀ x ∈ numbers, InRange x) :
    (1 / 2) ^ numbers.length ≤ numbers.prod ∧ numbers.prod ≤ 2 ^ numbers.length := by
  induction numbers with
  | nil => simp
  | cons x numbers ih =>
    obtain ⟨⟨hlow, hhigh⟩, hrest⟩ := List.forall_mem_cons.mp h
    obtain ⟨hleast, hmost⟩ := ih hrest
    have hpositive : (0 : ℝ) ≤ (1 / 2) ^ numbers.length := by positivity
    rw [List.prod_cons, List.length_cons, pow_succ', pow_succ']
    exact ⟨mul_le_mul hlow hleast hpositive (by linarith),
      mul_le_mul hhigh hmost (hpositive.trans hleast) (by norm_num)⟩

theorem Decomposes.length_le {factor : ℚ} {numbers : List ℚ} (h : Decomposes factor numbers)
    {others : List ℝ} (hsome : others ≠ []) (hothers : ∀ x ∈ others, InRange x)
    (hprod : others.prod = factor) : numbers.length ≤ others.length := by
  obtain ⟨taken, rest, rfl, -, htaken⟩ := h.cases
  obtain ⟨hleast, hmost⟩ := prod_bounds hothers
  rw [hprod] at hleast hmost
  rw [List.length_append, List.length_singleton, Nat.succ_le_iff]
  by_contra! hshort
  obtain rfl | ⟨hslow, htakenSome⟩ | ⟨hfast, htakenSome⟩ := htaken
  · exact hsome (List.length_eq_zero_iff.mp (Nat.le_zero.mp hshort))
  · have hsmall : (factor : ℝ) < (1 / 2) ^ taken.length := by
      simpa using Rat.cast_strictMono (K := ℝ) (hslow.lt_of_halves htakenSome).1
    have hpower : ((1 : ℝ) / 2) ^ taken.length ≤ (1 / 2) ^ others.length :=
      pow_le_pow_of_le_one (by norm_num) (by norm_num) hshort
    linarith
  · have hlarge : (2 : ℝ) ^ taken.length < factor := by
      exact_mod_cast (hfast.lt_of_doubles htakenSome).1
    have hpower : (2 : ℝ) ^ others.length ≤ 2 ^ taken.length :=
      pow_le_pow_right₀ (by norm_num) hshort
    linarith

/-- The instances of a positive factor: the loops end with them, each is in range, their product is
the factor, and there is no way with fewer. -/
theorem instances_fewest (factor : ℚ) (h : 0 < factor) :
    Decomposes factor (instances factor) ∧ (∀ x ∈ instances factor, InRange x) ∧
      (instances factor).prod = factor ∧
        ∀ others : List ℝ, others ≠ [] → (∀ x ∈ others, InRange x) → others.prod = factor →
          (instances factor).length ≤ others.length := by
  have hinstances := decomposes_instances h
  exact ⟨hinstances, hinstances.inRange, hinstances.prod, fun _ => hinstances.length_le⟩

/-- Five is two times two times five quarters, and two numbers in range cannot make it. -/
theorem instances_fewest_five : (0 : ℚ) < 5 ∧ instances (5 : ℚ) = [2, 2, 5 / 4] ∧
    ¬∃ x y : ℝ, InRange x ∧ InRange y ∧ x * y = 5 := by
  have hinstances : instances (5 : ℚ) = [2, 2, 5 / 4] := by decide +kernel
  refine ⟨by norm_num, hinstances, ?_⟩
  rintro ⟨x, y, hx, hy, hprod⟩
  have hlength := (instances_fewest 5 (by norm_num)).2.2.2 [x, y] (by simp) (by simp [hx, hy])
    (by simpa using hprod)
  rw [hinstances] at hlength
  exact absurd hlength (by simp)

end SkillPipeline.Tempo
