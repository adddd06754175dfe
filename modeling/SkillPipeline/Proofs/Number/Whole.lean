import SkillPipeline.Number.Notation
import SkillPipeline.Proofs.Number.Rounding

namespace SkillPipeline.Number

open Float.Model

variable {x y : Float} {v w : ℚ} {s : UnpackedFloat.Sign} {m : ℕ} {e : ℤ} {hm : 0 < m}

theorem abs_natCast_le_limit {n : ℕ} (hn : n ≤ 2 ^ 53) : |(n : ℚ)| ≤ limit := by
  rw [Nat.abs_cast]
  calc (n : ℚ) ≤ 2 ^ 53 := by exact_mod_cast hn
    _ ≤ 2 ^ 1023 := pow_le_pow_right₀ (by norm_num) (by norm_num)

theorem holds_toFloat {n : ℕ} (hn : n < 2 ^ 53) : Holds n.toUInt64.toFloat n := by
  have hsame : n.toUInt64.toNat = n := Nat.mod_eq_of_lt (by omega)
  have hrounded : RoundsTo ((n : ℤ) * 2 ^ (0 : ℤ))
      (UnpackedFloat.normalize .binary64 n 0 .positive) := roundsTo_normalize n 0 .positive
  rw [zpow_zero, mul_one, Int.cast_natCast] at hrounded
  have hrounds := rounds_of_roundsTo hrounded (abs_natCast_le_limit hn.le)
  refine Rounds.holds ?_ (holdable_nat hn.le)
  change Rounds n (.ofModel (pack (UnpackedFloat.normalize .binary64 n.toUInt64.toNat 0 .positive)))
  rwa [hsame]

theorem holds_one : Holds Float.exactlyRepresentablePowersOfTen[0] 1 := by
  have hunpacked : Float.exactlyRepresentablePowersOfTen[0].toModel.unpack =
      .finite .positive (2 ^ 52) (-52) (by norm_num) := rfl
  constructor
  · rfl
  · rw [exact, hunpacked]
    norm_num [valueOf, signed]

/-- Whole numbers below `2^53` are doubles. -/
theorem holds_ofNat {n : ℕ} (hn : n < 2 ^ 53) : Holds (Float.ofNat n) n := by
  have hfast : Float.ofNat n = n.toUInt64.toFloat * Float.exactlyRepresentablePowersOfTen[0] :=
    dif_pos ⟨hn, by norm_num⟩
  rw [hfast]
  have hproduct := (holds_toFloat hn).mul holds_one (by
    rw [mul_one]
    exact abs_natCast_le_limit hn.le)
  rw [mul_one] at hproduct
  exact hproduct.holds (holdable_nat hn.le)

theorem exact_ofNat {n : ℕ} (hn : n < 2 ^ 53) : exact (Float.ofNat n) = n := (holds_ofNat hn).value

/-- What the bits of a double stand for, by what is unpacked from them. -/
def readingOf : UnpackedFloat → Reading
  | .finite s m e _ => .finite ⟨s == .negative, m, e⟩
  | .zero s => .finite ⟨s == .negative, 0, -1074⟩
  | .infinity s => .infinite (s == .negative)
  | .notANumber => .undefined

theorem toNat_unpackExponent (bits : BitVec 64) :
    (@UnpackedFloat.unpackExponent .binary64 bits).toNat =
      bits.toNat / Nat.pow 2 52 % Nat.pow 2 11 := by
  rw [UnpackedFloat.unpackExponent_def, BitVec.extractLsb'_toNat, Nat.shiftRight_eq_div_pow]
  rfl

theorem toNat_unpackMantissa (bits : BitVec 64) :
    (@UnpackedFloat.unpackMantissa .binary64 bits).toNat = bits.toNat % Nat.pow 2 52 := by
  rw [UnpackedFloat.unpackMantissa_def, BitVec.extractLsb'_toNat, Nat.shiftRight_zero]
  rfl

theorem ofBitVec_unpackSign (bits : BitVec 64) :
    (UnpackedFloat.Sign.ofBitVec (@UnpackedFloat.unpackSign .binary64 bits) == .negative) =
      (bits.toNat / Nat.pow 2 63 % 2 == 1) := by
  have hsign :
      (@UnpackedFloat.unpackSign .binary64 bits).toNat = bits.toNat / Nat.pow 2 63 % 2 := by
    rw [UnpackedFloat.unpackSign_def, BitVec.extractLsb'_toNat, Nat.shiftRight_eq_div_pow]
    rfl
  rw [← hsign]
  generalize @UnpackedFloat.unpackSign .binary64 bits = sign
  revert sign
  decide

theorem reading_eq (x : Float) : reading x = readingOf x.toModel.unpack := by
  change Reading.ofBits x.toModel.toBits.toBitVec.toNat =
    readingOf (UnpackedFloat.unpack .binary64 x.toModel.toBits.toBitVec)
  generalize x.toModel.toBits.toBitVec = bits
  have hexponent := toNat_unpackExponent bits
  have hmantissa := toNat_unpackMantissa bits
  have hreserved : @UnpackedFloat.unpackExponent .binary64 bits = -1#_ ↔
      bits.toNat / Nat.pow 2 52 % Nat.pow 2 11 = 2047 := by
    rw [← hexponent]
    exact BitVec.toNat_inj.symm
  have hsubnormal : @UnpackedFloat.unpackExponent .binary64 bits = 0#_ ↔
      bits.toNat / Nat.pow 2 52 % Nat.pow 2 11 = 0 := by
    rw [← hexponent]
    exact BitVec.toNat_inj.symm
  have hnone : @UnpackedFloat.unpackMantissa .binary64 bits = 0#_ ↔
      bits.toNat % Nat.pow 2 52 = 0 := by
    rw [← hmantissa]
    exact BitVec.toNat_inj.symm
  -- Both are told by the same three tests on the exponent and the fraction.
  rw [Reading.ofBits, UnpackedFloat.unpack, ← ofBitVec_unpackSign]
  simp only [hreserved, hsubnormal, hnone]
  split
  · split <;> rfl
  · split
    · next hleast =>
      split
      · next hzero =>
        rw [hzero]
        rfl
      · rw [readingOf, hexponent, hmantissa, hleast]
        rfl
    · rw [readingOf, hexponent, toNat_implicit, hmantissa]
      rfl

theorem exponent_le (h : x.toModel.unpack = .finite s m e hm) : e ≤ 971 := by
  have hreading := reading_eq x
  rw [h, readingOf, reading, Reading.ofBits] at hreading
  split at hreading
  · split at hreading <;> cases hreading
  · next hreserved =>
    split at hreading
    · injection hreading with hbinary
      injection hbinary with _ _ hexponent
      omega
    · injection hreading with hbinary
      injection hbinary with _ _ hexponent
      have hfield := Nat.mod_lt (x.toBits.toNat / Nat.pow 2 52) (by norm_num : 0 < Nat.pow 2 11)
      change _ < 2048 at hfield
      omega

theorem Holds.neg (hx : Holds x v) : Holds (-x) (-v) := by
  have hcanonical := canonical_unpack hx.finite
  have hvalue : valueOf x.toModel.unpack = v := hx.value
  have hneg : (-x).toModel.unpack = x.toModel.unpack.neg := by
    change (pack x.toModel.unpack.neg).unpack = _
    cases hform : x.toModel.unpack with
    | notANumber | infinity s =>
      rw [hform] at hcanonical
      cases hcanonical
    | zero s => exact UnpackedFloat.unpack_packedZero
    | finite s m e hm =>
      rw [hform] at hcanonical
      exact unpack_pack_finite hcanonical (exponent_le hform)
  obtain ⟨hcanonical', hvalue'⟩ := canonical_neg hcanonical
  refine ⟨?_, ?_⟩
  · change (-x).toModel.unpack.isFinite = true
    rw [hneg]
    exact hcanonical'.isFinite
  · rw [exact, hneg, hvalue', hvalue]

def toward (v : ℚ) : ℤ := if v < 0 then ⌈v⌉ else ⌊v⌋

theorem toward_nonneg (hv : 0 ≤ v) : toward v = ⌊v⌋ := if_neg (not_lt.mpr hv)

theorem toward_signed (s : UnpackedFloat.Sign) (hv : 0 ≤ v) :
    toward (signed s v) = s.apply ⌊v⌋ := by
  cases s
  · rw [toward, signed, Int.ceil_neg]
    split
    · rfl
    · next hnot =>
      obtain rfl : v = 0 := by linarith
      simp [UnpackedFloat.Sign.apply]
  · exact toward_nonneg hv

theorem holds_whole (s : UnpackedFloat.Sign) (hm : m < 2 ^ 53) (he : e < 0) :
    Holds (if (s == .negative) = true then -Float.ofNat (Binary.whole ⟨s == .negative, m, e⟩)
      else Float.ofNat (Binary.whole ⟨s == .negative, m, e⟩)) (toward (signed s (m * 2 ^ e))) := by
  obtain ⟨k, rfl⟩ : ∃ k : ℕ, e = -k := ⟨(-e).toNat, by omega⟩
  have hwhole : Binary.whole ⟨s == .negative, m, -k⟩ = m / 2 ^ k := by
    rw [Binary.whole, Binary.ratio, if_neg (not_le.mpr he), neg_neg, Int.toNat_natCast]
    rfl
  have hfloor : ⌊(m * 2 ^ (-k : ℤ) : ℚ)⌋ = (m / 2 ^ k : ℕ) := by
    have hquotient := Rat.floor_natCast_div_natCast m (2 ^ k)
    rw [zpow_neg, zpow_natCast, ← div_eq_mul_inv]
    exact_mod_cast hquotient
  have hsmall : m / 2 ^ k < 2 ^ 53 := (Nat.div_le_self _ _).trans_lt hm
  have hholds := holds_ofNat hsmall
  rw [toward_signed s (by positivity), hfloor, hwhole]
  cases s
  · have hnegative := hholds.neg
    exact_mod_cast hnegative
  · exact_mod_cast hholds

theorem holds_truncate (hx : x.isFinite = true) : Holds (truncate x) (toward (exact x)) := by
  have hcanonical := canonical_unpack hx
  have hreading := reading_eq x
  rw [truncate, hreading, exact]
  generalize hunpacked : x.toModel.unpack = f at hcanonical
  rcases f with s | _ | s | ⟨s, m, e, hm⟩
  · cases hcanonical
  · cases hcanonical
  · have hzero := holds_whole s (m := 0) (e := -1074) (by norm_num) (by norm_num)
    rw [Nat.cast_zero, zero_mul] at hzero
    cases s <;> simpa [signed, valueOf, readingOf] using hzero
  · rw [readingOf, valueOf]
    dsimp only
    split
    · next hwhole =>
      obtain ⟨k, rfl⟩ := Int.eq_ofNat_of_zero_le hwhole
      have hinteger : (m * 2 ^ (k : ℤ) : ℚ) = (m * 2 ^ k : ℕ) := by
        rw [zpow_natCast]
        push_cast
        rfl
      refine ⟨hx, ?_⟩
      rw [exact, hunpacked, valueOf, toward_signed s (by positivity), hinteger, Int.floor_natCast]
      cases s <;> simp [signed, UnpackedFloat.Sign.apply]
    · next hfraction => exact holds_whole s hcanonical.1 (not_le.mp hfraction)

theorem holds_truncate_natCast {n : ℕ} (hx : Holds x n) : Holds (truncate x) n := by
  have hwhole := holds_truncate hx.finite
  rw [hx.value, toward_nonneg (Nat.cast_nonneg n), Int.floor_natCast] at hwhole
  exact_mod_cast hwhole

theorem isFinite_of_exact_ne_zero (h : exact x ≠ 0) : x.isFinite = true := by
  rw [exact] at h
  change x.toModel.unpack.isFinite = true
  cases hunpacked : x.toModel.unpack with
  | infinity s | notANumber => exact absurd (by rw [hunpacked]; rfl) h
  | zero s | finite s m e hm => rfl

theorem truncate_of_not_finite (h : x.isFinite = false) : truncate x = x := by
  have hreading := reading_eq x
  change x.toModel.unpack.isFinite = false at h
  rw [truncate, hreading]
  cases hunpacked : x.toModel.unpack with
  | infinity s | notANumber => rfl
  | zero s | finite s m e hm =>
    rw [hunpacked] at h
    cases h

theorem exists_holds_truncate (hfinite : (truncate x).isFinite = true)
    (hnonneg : 0 ≤ exact (truncate x)) : ∃ n : ℕ, Holds (truncate x) n := by
  cases hx : x.isFinite with
  | false =>
    rw [truncate_of_not_finite hx, hx] at hfinite
    cases hfinite
  | true =>
    have hwhole := holds_truncate hx
    have hnonneg' : 0 ≤ toward (exact x) := by
      rw [hwhole.value] at hnonneg
      exact_mod_cast hnonneg
    obtain ⟨n, hn⟩ := Int.eq_ofNat_of_zero_le hnonneg'
    rw [hn] at hwhole
    exact ⟨n, by exact_mod_cast hwhole⟩

theorem quotient_room {i n : ℕ} (hn : 0 < n) (hi : i < 2 ^ 53) (hn' : n < 2 ^ 53) :
    (i / n + 1) * 2 ^ n.log2 ≤ 2 ^ 53 := by
  have hlog : 2 ^ n.log2 ≤ n := Nat.log2_self_le hn.ne'
  have hshort : n.log2 ≤ 53 := ((Nat.log2_lt hn.ne').mpr hn').le
  have hless : i / n * 2 ^ n.log2 < 2 ^ (53 - n.log2) * 2 ^ n.log2 := by
    rw [← pow_add, Nat.sub_add_cancel hshort]
    calc i / n * 2 ^ n.log2 ≤ i / n * n := Nat.mul_le_mul_left _ hlog
      _ ≤ i := Nat.div_mul_le_self i n
      _ < 2 ^ 53 := hi
  calc (i / n + 1) * 2 ^ n.log2 ≤ 2 ^ (53 - n.log2) * 2 ^ n.log2 :=
      Nat.mul_le_mul_right _ (Nat.lt_of_mul_lt_mul_right hless)
    _ = 2 ^ 53 := by rw [← pow_add, Nat.sub_add_cancel hshort]

theorem holdable_sub {q j : ℕ} (hj : j ≤ 1074) (hroom : q * 2 ^ j ≤ 2 ^ 53) :
    Holdable (q - 1 / 2 ^ j) := by
  refine ⟨q * 2 ^ j - 1, -j, abs_le.mpr ⟨?_, ?_⟩, by omega, ?_⟩
  · have hsome : (0 : ℤ) ≤ q * 2 ^ j := by positivity
    omega
  · have hbound : (q : ℤ) * 2 ^ j ≤ 2 ^ 53 := by exact_mod_cast hroom
    omega
  · rw [zpow_neg, zpow_natCast]
    push_cast
    field_simp

theorem floor_quotient {i n : ℕ} (hn : 0 < n) (hi : i < 2 ^ 53) (hn' : n < 2 ^ 53)
    (h : Nearest (i / n) w) : ⌊w⌋ = (i / n : ℕ) := by
  have hpositive : (0 : ℚ) < n := by exact_mod_cast hn
  have hlower : ((i / n : ℕ) : ℚ) ≤ i / n := Nat.cast_div_le
  have hupper : (i : ℚ) / n ≤ (i / n + 1 : ℕ) - 1 / n := by
    rw [le_sub_iff_add_le, ← add_div, div_le_iff₀ hpositive]
    exact_mod_cast Nat.lt_mul_of_div_lt (Nat.lt_succ_self (i / n)) hn
  have hroom := quotient_room hn hi hn'
  have hshort : n.log2 ≤ 53 := ((Nat.log2_lt hn.ne').mpr hn').le
  have hlog : (n : ℚ) < 2 * 2 ^ n.log2 := by
    rw [← pow_succ']
    exact_mod_cast Nat.lt_log2_self
  rw [Int.floor_eq_iff, Int.cast_natCast]
  constructor
  · exact h.ge (holdable_nat (by nlinarith [Nat.one_le_two_pow (n := n.log2)])) hlower
  · -- One part in the power of two below the whole number is nearer to the quotient than it.
    by_contra! hover
    have hbelow := holdable_sub (by omega) hroom
    have hgap : (0 : ℚ) < 1 / 2 ^ n.log2 := by positivity
    have hpart : (1 : ℚ) / 2 ^ n.log2 < 2 * (1 / n) := by
      rw [mul_one_div, div_lt_div_iff₀ (by positivity) hpositive, one_mul]
      exact hlog
    push_cast at hupper hbelow
    obtain hle | hgt := le_or_gt ((i : ℚ) / n) ((i / n : ℕ) + 1 - 1 / 2 ^ n.log2)
    · linarith [h.le hbelow hle]
    · have hnear := h.2 _ hbelow
      rw [abs_of_nonpos (by linarith [one_div_pos.mpr hpositive]),
        abs_of_pos (by linarith)] at hnear
      linarith

theorem holds_add {a b : ℕ} (hx : Holds x a) (hy : Holds y b) (hab : a + b < 2 ^ 53) :
    Holds (x + y) (a + b : ℕ) := by
  have hsum := hx.add hy (by rw [← Nat.cast_add]; exact abs_natCast_le_limit hab.le)
  rw [← Nat.cast_add] at hsum
  exact hsum.holds (holdable_nat hab.le)

theorem holds_mul {a b : ℕ} (hx : Holds x a) (hy : Holds y b) (hab : a * b < 2 ^ 53) :
    Holds (x * y) (a * b : ℕ) := by
  have hproduct := hx.mul hy (by rw [← Nat.cast_mul]; exact abs_natCast_le_limit hab.le)
  rw [← Nat.cast_mul] at hproduct
  exact hproduct.holds (holdable_nat hab.le)

theorem holds_floor (hx : x.isFinite = true) (hnonneg : 0 ≤ exact x) :
    Holds (floor x) ⌊exact x⌋ := by
  have hwhole := holds_truncate hx
  rw [toward_nonneg hnonneg] at hwhole
  have hnot : ¬x < truncate x := by
    rw [lt_iff_exact_lt hx hwhole.finite, hwhole.value]
    exact not_lt.mpr (Int.floor_le _)
  rw [floor, if_neg hnot]
  exact hwhole

section Quotient

variable {i n : ℕ} (hx : Holds x i) (hy : Holds y n) (hn : 0 < n) (hi : i < 2 ^ 53)
  (hn' : n < 2 ^ 53)
include hx hy hn hi hn'

theorem quotient_rounds : (x / y).isFinite = true ∧ 0 ≤ exact (x / y) ∧
    ⌊exact (x / y)⌋ = (i / n : ℕ) := by
  have hsome : (1 : ℚ) ≤ n := by exact_mod_cast hn
  have hquotient := hx.div hy (by linarith) (by
    rw [abs_of_nonneg (by positivity)]
    exact (div_le_self (Nat.cast_nonneg i) hsome).trans ((le_abs_self _).trans
      (abs_natCast_le_limit hi.le)))
  exact ⟨hquotient.finite, hquotient.nearest.ge holdable_zero (by positivity),
    floor_quotient hn hi hn' hquotient.nearest⟩

theorem holds_floor_div : Holds (floor (x / y)) (i / n : ℕ) := by
  obtain ⟨hfinite, hnonneg, hfloor⟩ := quotient_rounds hx hy hn hi hn'
  have hwhole := holds_floor hfinite hnonneg
  rw [hfloor] at hwhole
  exact_mod_cast hwhole

theorem holds_remainder : Holds (remainder x y) (i % n : ℕ) := by
  obtain ⟨hfinite, hnonneg, hfloor⟩ := quotient_rounds hx hy hn hi hn'
  have hwhole := holds_truncate hfinite
  rw [toward_nonneg hnonneg, hfloor, Int.cast_natCast] at hwhole
  have hle : n * (i / n) ≤ i := Nat.mul_div_le i n
  have hproduct := hy.mul hwhole (by
    rw [← Nat.cast_mul]
    exact abs_natCast_le_limit (by omega))
  rw [← Nat.cast_mul] at hproduct
  have hrest : (i : ℚ) - (n * (i / n) : ℕ) = (i % n : ℕ) := by
    rw [sub_eq_iff_eq_add]
    exact_mod_cast (Nat.mod_add_div i n).symm
  have hsmall : i % n ≤ 2 ^ 53 := (Nat.mod_le i n).trans hi.le
  have hdifference := hx.sub (hproduct.holds (holdable_nat (by omega))) (by
    rw [hrest]
    exact abs_natCast_le_limit hsmall)
  rw [hrest] at hdifference
  exact hdifference.holds (holdable_nat hsmall)

end Quotient

section Numeral

variable {k d q : ℕ}

/-- The interval of a number without a fraction, over the denominator of its exponent. -/
theorem interval_eq (negative : Bool) (m d : ℕ) : ∃ low high closed,
    Binary.interval ⟨negative, m, -d⟩ = ⟨low, 4 * m, high, 2 ^ (d + 2), closed⟩ ∧
      4 * m ≤ low + 2 ∧ (0 < m → low < 4 * m) ∧ 4 * m < high ∧ high ≤ 4 * m + 2 := by
  have hup : ((-d : ℤ) - 2).toNat = 0 := by omega
  have hdown : (-((-d : ℤ) - 2)).toNat = d + 2 := by omega
  rw [Binary.interval]
  simp only [hup, hdown, Nat.pow_eq, pow_zero, mul_one]
  split
  · exact ⟨_, _, _, rfl, by omega, by omega, by omega, le_refl _⟩
  · exact ⟨_, _, _, rfl, by omega, by omega, by omega, le_refl _⟩

theorem holds_interval {n j : ℕ} (hk : 0 < k) (negative : Bool) :
    (Binary.interval ⟨negative, k * 2 ^ d, -d⟩).holds n j = decide (n * 10 ^ j = k) := by
  obtain ⟨low, high, closed, heq, hlow, hlow', hhigh, hhigh'⟩ :=
    interval_eq negative (k * 2 ^ d) d
  have hunit : 4 ≤ 2 ^ (d + 2) := by
    rw [pow_add]
    linarith [Nat.one_le_two_pow (n := d)]
  have hvalue : 4 * (k * 2 ^ d) = k * 2 ^ (d + 2) := by ring
  have hlow' := hlow' (by positivity)
  rw [hvalue] at hlow hlow' hhigh hhigh'
  have hscale : (-(j : ℤ)).toNat = 0 := by omega
  rw [heq, Interval.holds]
  simp only [Int.toNat_natCast, hscale, Nat.pow_eq, pow_zero, mul_one]
  generalize n * 10 ^ j = point at *
  generalize 2 ^ (d + 2) = unit at *
  -- One step away from the number is beyond both ends.
  have hsame (hwithin : low ≤ point * unit ∧ point * unit ≤ high) : point = k := by
    rcases lt_trichotomy point k with hlt | heq | hgt
    · have hstep := Nat.mul_le_mul_right unit (Nat.succ_le_of_lt hlt)
      rw [Nat.succ_mul] at hstep
      omega
    · exact heq
    · have hstep := Nat.mul_le_mul_right unit (Nat.succ_le_of_lt hgt)
      rw [Nat.succ_mul] at hstep
      omega
  rw [Bool.eq_iff_iff, decide_eq_true_iff]
  cases closed
  · simp only [Bool.false_eq_true, if_false, Bool.and_eq_true, decide_eq_true_iff]
    constructor
    · rintro ⟨hgt, hlt⟩
      exact hsame ⟨hgt.le, hlt.le⟩
    · rintro rfl
      exact ⟨hlow', hhigh⟩
  · simp only [if_true, Bool.and_eq_true, decide_eq_true_iff]
    constructor
    · exact hsame
    · rintro rfl
      exact ⟨hlow'.le, hhigh.le⟩

/-- On a grid of whole steps only the number itself reads back, if it is on the grid. -/
theorem onGrid_interval (hk : 0 < k) (negative : Bool) (j : ℕ) :
    (Binary.interval ⟨negative, k * 2 ^ d, -d⟩).onGrid j =
      if 10 ^ j ∣ k then some ⟨k / 10 ^ j, j⟩ else none := by
  obtain ⟨low, high, closed, heq, -⟩ := interval_eq negative (k * 2 ^ d) d
  have hbelow : (Binary.interval ⟨negative, k * 2 ^ d, -d⟩).value * Nat.pow 10 (-(j : ℤ)).toNat /
      ((Binary.interval ⟨negative, k * 2 ^ d, -d⟩).denominator * Nat.pow 10 (j : ℤ).toNat) =
        k / 10 ^ j := by
    have hscale : (-(j : ℤ)).toNat = 0 := by omega
    rw [heq, hscale, Int.toNat_natCast, Nat.pow_eq, Nat.pow_eq, pow_zero, mul_one,
      show 4 * (k * 2 ^ d) = 2 ^ (d + 2) * k by ring, Nat.mul_div_mul_left _ _ (by positivity)]
  have hexact : k / 10 ^ j * 10 ^ j = k ↔ 10 ^ j ∣ k := by
    rw [mul_comm, Nat.mul_div_eq_iff_dvd]
  have habove : (k / 10 ^ j + 1) * 10 ^ j ≠ k := by
    have hlt := Nat.lt_mul_div_succ k (Nat.pow_pos (n := j) (by norm_num : 0 < 10))
    rw [mul_comm]
    exact hlt.ne'
  rw [Interval.onGrid]
  simp only [hbelow, holds_interval hk, hexact, habove, decide_false]
  by_cases hdvd : 10 ^ j ∣ k
  · simp [hdvd]
  · simp [hdvd]

theorem firstHit_interval {v p places fuel : ℕ} (hq : q % 10 ≠ 0) (negative : Bool)
    (hplaces : places + v ≤ p + 1) (hfuel : p + 1 < fuel + (places + v)) :
    (Binary.interval ⟨negative, q * 10 ^ v * 2 ^ d, -d⟩).firstHit p fuel places = ⟨q, v⟩ := by
  have hpositive : 0 < q * 10 ^ v := Nat.mul_pos (by omega) (by positivity)
  induction fuel generalizing places with
  | zero => omega
  | succ fuel ih =>
    have hstep : (p : ℤ) - places + 1 = (p + 1 - places : ℕ) := by omega
    rw [Interval.firstHit, hstep, onGrid_interval hpositive]
    by_cases hlast : p + 1 - places = v
    · rw [hlast, if_pos (Nat.dvd_mul_left _ _), Nat.mul_div_cancel _ (by positivity)]
    · have hcoarse : ¬10 ^ (p + 1 - places) ∣ q * 10 ^ v := by
        intro hdvd
        have hten := (pow_dvd_pow 10 (by omega : v + 1 ≤ p + 1 - places)).trans hdvd
        rw [pow_succ', Nat.mul_dvd_mul_iff_right (by positivity)] at hten
        exact hq (Nat.mod_eq_zero_of_dvd hten)
      rw [if_neg hcoarse]
      exact ih (by omega) (by omega)

theorem leadingUp_eq {D p j fuel : ℕ} (hD : 0 < D) (hlow : 10 ^ p ≤ k) (hhigh : k < 10 ^ (p + 1))
    (hj : j ≤ p) (hfuel : p - j < fuel) :
    leadingUp fuel (k * D) (10 ^ j * D) = p - j := by
  induction fuel generalizing j with
  | zero => omega
  | succ fuel ih =>
    rw [leadingUp, show 10 * (10 ^ j * D) = 10 ^ (j + 1) * D by ring]
    rcases Nat.eq_or_lt_of_le hj with rfl | hlt
    · rw [if_pos (Nat.mul_lt_mul_of_pos_right hhigh hD), sub_self]
    · have hnext : 10 ^ (j + 1) ≤ k := (Nat.pow_le_pow_right (by norm_num) hlt).trans hlow
      rw [if_neg (not_lt.mpr (Nat.mul_le_mul_right D hnext)), ih hlt (by omega)]
      push_cast
      ring

theorem toDigits_mul_pow (hq : 0 < q) (j : ℕ) :
    Nat.toDigits 10 (q * 10 ^ j) = Nat.toDigits 10 q ++ List.replicate j '0' := by
  induction j with
  | zero => simp
  | succ j ih =>
    have hdigit := Nat.toDigits_append_toDigits (b := 10) (n := q * 10 ^ j) (d := 0) (by norm_num)
      (by positivity) (by norm_num)
    rw [Nat.toDigits_zero, ih, add_zero] at hdigit
    rw [List.replicate_succ', ← List.append_assoc, hdigit, pow_succ]
    congr 1
    ring

theorem shortest_whole {v : ℕ} (hq : q % 10 ≠ 0) (negative : Bool) (hsmall : q * 10 ^ v < 10 ^ 16) :
    Binary.shortest ⟨negative, q * 10 ^ v * 2 ^ d, -d⟩ = ⟨q, v⟩ := by
  have hpositive : 0 < q * 10 ^ v := Nat.mul_pos (by omega) (by positivity)
  have hleading : (Binary.interval ⟨negative, q * 10 ^ v * 2 ^ d, -d⟩).leading =
      Nat.log 10 (q * 10 ^ v) := by
    obtain ⟨low, high, closed, heq, -⟩ := interval_eq negative (q * 10 ^ v * 2 ^ d) d
    have hlog := Nat.log_lt_of_lt_pow hpositive.ne' hsmall
    have hup : leadingUp 400 (q * 10 ^ v * 2 ^ (d + 2)) (10 ^ 0 * 2 ^ (d + 2)) =
        Nat.log 10 (q * 10 ^ v) - (0 : ℕ) :=
      leadingUp_eq (by positivity) (Nat.pow_log_le_self 10 hpositive.ne')
        (Nat.lt_pow_succ_log_self (by norm_num) _) (Nat.zero_le _) (by omega)
    rw [heq, Interval.leading, show 4 * (q * 10 ^ v * 2 ^ d) = q * 10 ^ v * 2 ^ (d + 2) by ring,
      if_pos (Nat.le_mul_of_pos_left _ hpositive)]
    simpa using hup
  have hv : v ≤ Nat.log 10 (q * 10 ^ v) := Nat.le_log_of_pow_le (by norm_num)
    (Nat.le_mul_of_pos_left _ (by omega))
  have hlog := Nat.log_lt_of_lt_pow hpositive.ne' hsmall
  rw [Binary.shortest, hleading, firstHit_interval hq negative (by omega) (by omega)]
  exact if_neg fun h => hq h.2

theorem chars_whole {v : ℕ} (hq : 0 < q) (hsmall : q * 10 ^ v < 10 ^ 16) :
    Decimal.chars ⟨q, v⟩ = Nat.toDigits 10 (q * 10 ^ v) := by
  have hlength : ((Nat.toDigits 10 (q * 10 ^ v))).length ≤ 16 :=
    (Nat.length_toDigits_le_iff (by norm_num) (by norm_num)).mpr hsmall
  have hsome : 0 < (Nat.toDigits 10 q).length := Nat.length_toDigits_pos
  rw [toDigits_mul_pow hq] at hlength ⊢
  rw [List.length_append, List.length_replicate] at hlength
  have hplaced : positional (v + (Nat.toDigits 10 q).length) = true := by
    rw [positional, Bool.and_eq_true, decide_eq_true_iff, decide_eq_true_iff]
    omega
  change (if positional (v + (Nat.toDigits 10 q).length) = true then
    placePoint (Nat.toDigits 10 q) (v + (Nat.toDigits 10 q).length) else _) = _
  rw [if_pos hplaced, placePoint, if_neg (by omega), if_pos (by omega)]
  congr 2
  omega

end Numeral

/-- A whole number below `2^53` is read as a mantissa that ends in as many zeros as its exponent
takes off. -/
theorem exists_mantissa {k : ℕ} (hx : Holds x k) (hk : k < 2 ^ 53) : ∃ negative, ∃ d : ℕ,
    reading x = .finite ⟨negative, k * 2 ^ d, -d⟩ ∧ (k ≠ 0 → negative = false) := by
  have hcanonical := canonical_unpack hx.finite
  have hvalue : valueOf x.toModel.unpack = k := hx.value
  rw [reading_eq]
  generalize x.toModel.unpack = f at hcanonical hvalue
  rcases f with s | _ | s | ⟨s, m, e, hm⟩
  · cases hcanonical
  · cases hcanonical
  · change (0 : ℚ) = k at hvalue
    obtain rfl : 0 = k := by exact_mod_cast hvalue
    exact ⟨_, 1074, by rw [readingOf, zero_mul]; rfl, fun h => absurd rfl h⟩
  · have hmagnitude : (0 : ℚ) < m * 2 ^ e := by positivity
    cases s
    · change -_ = _ at hvalue
      linarith [(Nat.cast_nonneg k : (0 : ℚ) ≤ k)]
    · change _ * _ = _ at hvalue
      -- With a positive exponent the number would have more than 53 bits.
      have he : e ≤ 0 := by
        by_contra! hlarge
        have hlength : (2 : ℚ) ^ 52 ≤ m := by
          exact_mod_cast hcanonical.2.2.resolve_right (by omega)
        have hpower : (2 : ℚ) ^ (1 : ℤ) ≤ 2 ^ e := zpow_le_zpow_right₀ (by norm_num) hlarge
        have hover : (2 : ℚ) ^ 52 * 2 ^ (1 : ℤ) ≤ m * 2 ^ e := by gcongr
        have hk' : (k : ℚ) < 2 ^ 53 := by exact_mod_cast hk
        rw [hvalue] at hover
        norm_num at hover hk'
        linarith
      obtain ⟨d, rfl⟩ : ∃ d : ℕ, e = -d := ⟨(-e).toNat, by omega⟩
      have hm' : m = k * 2 ^ d := by
        rw [zpow_neg, zpow_natCast, mul_inv_eq_iff_eq_mul₀ (by positivity)] at hvalue
        exact_mod_cast hvalue
      exact ⟨false, d, by rw [readingOf, hm']; rfl, fun _ => rfl⟩

/-- The text of a whole number is its decimal numeral. -/
theorem text_whole {k : ℕ} (hx : Holds x k) (hk : k < 2 ^ 53) : text x = toString k := by
  obtain ⟨negative, d, hreading, hnegative⟩ := exists_mantissa hx hk
  rw [text, hreading]
  rcases eq_or_ne k 0 with rfl | hsome
  · exact if_pos (Nat.zero_mul _)
  · obtain ⟨v, q, hq, hdigits⟩ := Nat.exists_eq_pow_mul_and_not_dvd hsome 10 (by norm_num)
    rw [mul_comm] at hdigits
    have hq' : q % 10 ≠ 0 := fun h => hq (Nat.dvd_of_mod_eq_zero h)
    have hsmall : q * 10 ^ v < 10 ^ 16 := by
      rw [← hdigits]
      exact hk.trans (by norm_num)
    have hpositive : k * 2 ^ d ≠ 0 := by positivity
    simp only [hpositive, hnegative hsome, if_false, Bool.false_eq_true, List.nil_append]
    rw [hdigits, shortest_whole hq' false hsmall, chars_whole (by omega) hsmall]
    rfl

end SkillPipeline.Number
