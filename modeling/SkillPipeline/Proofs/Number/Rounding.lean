import Mathlib
import SkillPipeline.Number.Arithmetic
import SkillPipeline.Proofs.Number.Order

namespace SkillPipeline.Number

open Float.Model

def signed : UnpackedFloat.Sign → ℚ → ℚ
  | .negative, v => -v
  | .positive, v => v

/-- The number that is held; infinities and what is not a number count as zero. -/
def valueOf : UnpackedFloat → ℚ
  | .finite s m e _ => signed s (m * 2 ^ e)
  | _ => 0

/-- The number that a double holds. -/
def exact (x : Float) : ℚ := valueOf x.toModel.unpack

/-- A number in the form in which the format holds it, whatever its size. -/
def Canonical : UnpackedFloat → Prop
  | .zero _ => True
  | .finite _ m e _ => m < 2 ^ 53 ∧ -1074 ≤ e ∧ (2 ^ 52 ≤ m ∨ e = -1074)
  | _ => False

theorem abs_signed (s : UnpackedFloat.Sign) (v : ℚ) : |signed s v| = |v| := by
  cases s <;> simp [signed]

theorem log2_eq {m : ℕ} (hlow : 2 ^ 52 ≤ m) (hhigh : m < 2 ^ 53) : m.log2 = 52 :=
  (Nat.log2_eq_iff (by omega)).mpr ⟨hlow, hhigh⟩

theorem toNat_implicit (fraction : BitVec 52) :
    (1#1 ++ fraction).toNat = 2 ^ 52 + fraction.toNat := by
  rw [BitVec.toNat_append, ← Nat.shiftLeft_add_eq_or_of_lt fraction.isLt]
  rfl

variable {f g : UnpackedFloat} {s : UnpackedFloat.Sign} {m : ℕ} {e : ℤ}

/-- The fields of a number that is not too large. The exponent of the least numbers is kept as
zero. -/
theorem pack_finite {hm : 0 < m} (hf : Canonical (.finite s m e hm)) (he : e ≤ 971) :
    UnpackedFloat.pack .binary64 (.finite s m e hm) =
      UnpackedFloat.packComponents .binary64 s
        (BitVec.ofNat 11 (if 2 ^ 52 ≤ m then (e + 1075).toNat else 0)) (BitVec.ofNat 52 m) := by
  obtain ⟨hhigh, hlow, -⟩ := hf
  have hbiased : (e + ↑(1023 : ℕ) + ↑(52 : ℕ)).toNat = (e + 1075).toNat := by omega
  rw [UnpackedFloat.pack]
  change (if 2 ^ 11 ≤ (e + (1023 : ℕ) + (52 : ℕ)).toNat + 1 then _
    else if m.log2 + 1 = 53 then UnpackedFloat.packComponents .binary64 s
      (BitVec.ofNat 11 (e + (1023 : ℕ) + (52 : ℕ)).toNat) (BitVec.ofNat 52 m) else _) = _
  rw [hbiased, if_neg (by omega)]
  by_cases hnormal : 2 ^ 52 ≤ m
  · rw [if_pos (by rw [log2_eq hnormal hhigh]), if_pos hnormal]
  · have hlog := (Nat.log2_lt hm.ne').mpr (not_le.mp hnormal)
    rw [if_neg (by omega), if_neg hnormal]

theorem unpack_normal {hm : 0 < m} (hlong : 2 ^ 52 ≤ m) (hshort : m < 2 ^ 53) (hlow : -1074 ≤ e)
    (he : e ≤ 971) : UnpackedFloat.unpack .binary64 (UnpackedFloat.packComponents .binary64 s
      (BitVec.ofNat 11 (e + 1075).toNat) (BitVec.ofNat 52 m)) = .finite s m e hm := by
  have hexponent : (BitVec.ofNat 11 (e + 1075).toNat).toNat = (e + 1075).toNat := by
    rw [BitVec.toNat_ofNat, Nat.mod_eq_of_lt (by omega)]
  have hmantissa : (1#1 ++ BitVec.ofNat 52 m).toNat = m := by
    rw [toNat_implicit, BitVec.toNat_ofNat]
    omega
  -- The exponent is neither the one of infinity nor the one of zero.
  have hreserved : BitVec.ofNat 11 (e + 1075).toNat ≠ -1#11 := fun h => by
    have hbits := congrArg BitVec.toNat h
    rw [hexponent] at hbits
    change _ = 2047 at hbits
    omega
  have hsubnormal : BitVec.ofNat 11 (e + 1075).toNat ≠ 0#11 := fun h => by
    have hbits := congrArg BitVec.toNat h
    rw [hexponent] at hbits
    change _ = 0 at hbits
    omega
  rw [UnpackedFloat.unpack]
  simp only [UnpackedFloat.unpackExponent_packComponents,
    UnpackedFloat.unpackMantissa_packComponents, UnpackedFloat.unpackSign_packComponents,
    UnpackedFloat.Sign.ofBitVec_toBitVec, if_neg hreserved, if_neg hsubnormal,
    hmantissa, hexponent]
  congr 1
  change ((e + 1075).toNat : ℤ) - ((1023 : ℕ) + (52 : ℕ)) = e
  omega

theorem unpack_subnormal {hm : 0 < m} (hshort : m < 2 ^ 52) :
    UnpackedFloat.unpack .binary64 (UnpackedFloat.packComponents .binary64 s
      (BitVec.ofNat 11 0) (BitVec.ofNat 52 m)) = .finite s m (-1074) hm := by
  have hmantissa : (BitVec.ofNat 52 m).toNat = m := by
    rw [BitVec.toNat_ofNat, Nat.mod_eq_of_lt hshort]
  have hsome : BitVec.ofNat 52 m ≠ 0#52 := fun h => by
    have hbits := congrArg BitVec.toNat h
    rw [hmantissa] at hbits
    exact hm.ne' hbits
  rw [UnpackedFloat.unpack]
  simp only [UnpackedFloat.unpackExponent_packComponents,
    UnpackedFloat.unpackMantissa_packComponents, UnpackedFloat.unpackSign_packComponents,
    UnpackedFloat.Sign.ofBitVec_toBitVec]
  rw [if_neg (by decide), if_pos trivial, dif_neg hsome]
  simp only [hmantissa]
  rfl

theorem unpack_pack_finite {hm : 0 < m} (hf : Canonical (.finite s m e hm)) (he : e ≤ 971) :
    (pack (.finite s m e hm)).unpack = .finite s m e hm := by
  change UnpackedFloat.unpack .binary64 (UnpackedFloat.pack .binary64 (.finite s m e hm)) = _
  rw [pack_finite hf he]
  obtain ⟨hshort, hlow, hform⟩ := hf
  by_cases hlong : 2 ^ 52 ≤ m
  · rw [if_pos hlong]
    exact unpack_normal hlong hshort hlow he
  · obtain rfl : e = -1074 := hform.resolve_left hlong
    rw [if_neg hlong]
    exact unpack_subnormal (not_le.mp hlong)

theorem canonical_unpack {x : Float} (hx : x.isFinite = true) : Canonical x.toModel.unpack := by
  change UnpackedFloat.isFinite (UnpackedFloat.unpack .binary64 x.toModel.toBits.toBitVec) = _ at hx
  change Canonical (UnpackedFloat.unpack .binary64 x.toModel.toBits.toBitVec)
  generalize x.toModel.toBits.toBitVec = bits at hx ⊢
  rw [UnpackedFloat.unpack] at hx ⊢
  simp only at hx ⊢
  split at hx
  · split at hx <;> cases hx
  · next hreserved =>
    rw [if_neg hreserved]
    split
    · split
      · trivial
      · next hsubnormal hsome =>
        refine ⟨lt_trans (BitVec.isLt _) (by norm_num), ?_, .inr ?_⟩ <;> rw [hsubnormal] <;> decide
    · next hsubnormal =>
      have hexponent : 0 < (@UnpackedFloat.unpackExponent .binary64 bits).toNat :=
        Nat.pos_of_ne_zero fun h => hsubnormal (BitVec.eq_of_toNat_eq h)
      have hmantissa := (@UnpackedFloat.unpackMantissa .binary64 bits).isLt
      rw [Canonical, toNat_implicit]
      change _ ∧ _ ≤ (_ : ℤ) - ((1023 : ℕ) + (52 : ℕ)) ∧ _
      change (@UnpackedFloat.unpackMantissa .binary64 bits).toNat < 2 ^ 52 at hmantissa
      refine ⟨by omega, by omega, .inl (by omega)⟩

theorem Canonical.isFinite (hf : Canonical f) : f.isFinite = true := by
  rcases f with s | _ | s | ⟨s, m, e, hm⟩
  · cases hf
  · cases hf
  · rfl
  · rfl

/-- The numbers that a double of unlimited size can hold: a mantissa of 53 bits at most over a power
of two. -/
def Holdable (v : ℚ) : Prop := ∃ r k : ℤ, |r| ≤ 2 ^ 53 ∧ -1074 ≤ k ∧ v = r * 2 ^ k

/-- A double of unlimited size to which a number may be rounded. -/
def Nearest (v w : ℚ) : Prop := Holdable w ∧ ∀ r, Holdable r → |v - w| ≤ |v - r|

section Nearest

variable {v v' w w' : ℚ}

theorem Holdable.neg (h : Holdable v) : Holdable (-v) := by
  obtain ⟨r, k, hr, hk, rfl⟩ := h
  exact ⟨-r, k, by rwa [abs_neg], hk, by push_cast; ring⟩

theorem holdable_int {n : ℤ} (h : |n| ≤ 2 ^ 53) : Holdable n :=
  ⟨n, 0, h, by norm_num, by norm_num⟩

theorem holdable_nat {n : ℕ} (h : n ≤ 2 ^ 53) : Holdable n :=
  holdable_int (n := n) (by rw [Nat.abs_cast]; exact_mod_cast h)

theorem Nearest.neg (h : Nearest v w) : Nearest (-v) (-w) := by
  refine ⟨h.1.neg, fun r hr => ?_⟩
  have hmirrored := h.2 (-r) hr.neg
  rwa [← abs_neg, show -(-v - -w) = v - w by ring, ← abs_neg (-v - r),
    show -(-v - r) = v - -r by ring]

theorem Nearest.signed (s : UnpackedFloat.Sign) (h : Nearest v w) :
    Nearest (signed s v) (signed s w) := by
  cases s with
  | negative => exact h.neg
  | positive => exact h

/-- What can be held is its own nearest number. -/
theorem Nearest.eq (h : Nearest v w) (hv : Holdable v) : w = v := by
  have hzero := h.2 v hv
  rw [sub_self, abs_zero, abs_nonpos_iff, sub_eq_zero] at hzero
  exact hzero.symm

theorem Nearest.le (h : Nearest v w) {r : ℚ} (hr : Holdable r) (hle : v ≤ r) : w ≤ r := by
  have hnear := h.2 r hr
  rw [abs_of_nonpos (by linarith : v - r ≤ 0)] at hnear
  have hbelow := neg_le_of_abs_le hnear
  linarith

theorem Nearest.ge (h : Nearest v w) {r : ℚ} (hr : Holdable r) (hle : r ≤ v) : r ≤ w := by
  have hmirrored := h.neg.le hr.neg (neg_le_neg hle)
  linarith

theorem Nearest.within (h : Nearest v w) {r : ℚ} (hr : Holdable r) (hle : |v| ≤ r) : |w| ≤ r :=
  abs_le.mpr ⟨h.ge hr.neg (neg_le_of_abs_le hle), h.le hr (le_of_abs_le hle)⟩

/-- Rounding keeps the order. -/
theorem Nearest.mono (h : Nearest v w) (h' : Nearest v' w') (hlt : v < v') : w ≤ w' := by
  by_contra! hcrossed
  have hlow := h.2 w' h'.1
  have hhigh := h'.2 w h.1
  rcases abs_cases (v - w) with ⟨h1, h1'⟩ | ⟨h1, h1'⟩ <;>
    rcases abs_cases (v - w') with ⟨h2, h2'⟩ | ⟨h2, h2'⟩ <;>
    rcases abs_cases (v' - w) with ⟨h3, h3'⟩ | ⟨h3, h3'⟩ <;>
    rcases abs_cases (v' - w') with ⟨h4, h4'⟩ | ⟨h4, h4'⟩ <;> linarith

end Nearest

/-- How a mantissa with its accuracy stands to the number that it is cut from. -/
def Describes (m : ℕ) : UnpackedFloat.Accuracy → ℚ → Prop
  | .exact, u => u = m
  | .inexact .lt, u => m < u ∧ u < m + 1 / 2
  | .inexact .eq, u => u = m + 1 / 2
  | .inexact .gt, u => m + 1 / 2 < u ∧ u < m + 1

variable {acc : UnpackedFloat.Accuracy} {em : UnpackedFloat.ExtendedMantissa} {u v : ℚ}

theorem Describes.bounds (h : Describes m acc u) : m ≤ u ∧ u < m + 1 := by
  unfold Describes at h
  split at h <;> constructor <;> linarith

theorem Describes.rounded (h : Describes m acc u) :
    |u - acc.roundToNearestEven m| ≤ 1 / 2 ∧ m ≤ acc.roundToNearestEven m ∧
      acc.roundToNearestEven m ≤ m + 1 := by
  unfold Describes at h
  split at h
  all_goals simp only [UnpackedFloat.Accuracy.roundToNearestEven]
  · exact ⟨by simp [h], le_refl m, by omega⟩
  · exact ⟨abs_le.mpr ⟨by linarith, by linarith⟩, le_refl m, by omega⟩
  · obtain heven | hodd := Nat.mod_two_eq_zero_or_one m
    · rw [heven]
      exact ⟨abs_le.mpr ⟨by push_cast; linarith, by push_cast; linarith⟩, by omega, by omega⟩
    · rw [hodd]
      exact ⟨abs_le.mpr ⟨by push_cast; linarith, by push_cast; linarith⟩, by omega, by omega⟩
  · exact ⟨abs_le.mpr ⟨by push_cast; linarith, by push_cast; linarith⟩, by omega, by omega⟩

theorem Describes.even (h : Describes m acc u)
    (hhalf : |u - acc.roundToNearestEven m| = 1 / 2) : acc.roundToNearestEven m % 2 = 0 := by
  unfold Describes at h
  split at h
  all_goals simp only [UnpackedFloat.Accuracy.roundToNearestEven] at hhalf ⊢
  · rw [h, sub_self, abs_zero] at hhalf
    norm_num at hhalf
  · rw [abs_of_nonneg (by linarith)] at hhalf
    linarith
  · omega
  · push_cast at hhalf
    rw [abs_of_nonpos (by linarith)] at hhalf
    linarith

theorem exists_lastBit (m : ℕ) :
    ∃ odd, (m % 2 != 0) = odd ∧ (m : ℚ) = 2 * (m / 2 : ℕ) + if odd then 1 else 0 := by
  have hhalves : (m : ℚ) = 2 * (m / 2 : ℕ) + (m % 2 : ℕ) := by
    exact_mod_cast (Nat.div_add_mod m 2).symm
  obtain heven | hodd := Nat.mod_two_eq_zero_or_one m
  · exact ⟨false, by rw [heven]; rfl, by simpa [heven] using hhalves⟩
  · exact ⟨true, by rw [hodd]; rfl, by simpa [hodd] using hhalves⟩

theorem Describes.shiftRightOne (h : Describes em.mantissa em.accuracy u) :
    Describes em.shiftRightOne.mantissa em.shiftRightOne.accuracy (u / 2) := by
  obtain ⟨m, roundBit, stickyBit⟩ := em
  obtain ⟨odd, hbit, hhalves⟩ := exists_lastBit m
  cases odd <;> cases roundBit <;> cases stickyBit <;>
    simp only [UnpackedFloat.ExtendedMantissa.shiftRightOne, hbit, Bool.or_false, Bool.or_true,
      UnpackedFloat.ExtendedMantissa.accuracy, Describes, if_true, Bool.false_eq_true,
      if_false] at h hhalves ⊢ <;>
    first
    | linarith
    | (constructor <;> linarith)

theorem Describes.shiftRight (h : Describes em.mantissa em.accuracy u) (n : ℕ) :
    Describes (em >>> n).mantissa (em >>> n).accuracy (u / 2 ^ n) := by
  induction n with
  | zero =>
    rw [pow_zero, div_one]
    exact h
  | succ n ih =>
    rw [pow_succ, ← div_div]
    exact ih.shiftRightOne

theorem describes_ofMantissaAndAccuracy (h : Describes m acc u) :
    Describes (UnpackedFloat.ExtendedMantissa.ofMantissaAndAccuracy m acc).mantissa
      (UnpackedFloat.ExtendedMantissa.ofMantissaAndAccuracy m acc).accuracy u := by
  unfold Describes at h
  split at h <;> exact h

/-- The exponent that the format wants for a mantissa and its exponent. -/
def wanted (m : ℕ) (e : ℤ) : ℤ := max ((m.log2 : ℤ) + 1 + e - 53) (-1074)

theorem shiftToTargetExponent_eq (m : ℕ) (e : ℤ) (acc : UnpackedFloat.Accuracy) :
    UnpackedFloat.shiftToTargetExponent .binary64 m e acc =
      (UnpackedFloat.ExtendedMantissa.ofMantissaAndAccuracy m acc >>> (wanted m e - e).toNat,
        e + (wanted m e - e).toNat) := rfl

/-- A rounded mantissa that has become too long by one bit drops it; nothing else changes. -/
theorem shift_rounded {r : ℕ} {t : ℤ} (hr : r ≤ 2 ^ 53) (ht : -1074 ≤ t)
    (hform : 2 ^ 52 ≤ r ∨ t = -1074) :
    ∃ (m : ℕ) (e : ℤ), (UnpackedFloat.shiftToTargetExponent .binary64 r t .exact).1.mantissa = m ∧
      (UnpackedFloat.shiftToTargetExponent .binary64 r t .exact).2 = e ∧
      (m : ℚ) * 2 ^ e = r * 2 ^ t ∧ m < 2 ^ 53 ∧ -1074 ≤ e ∧ (2 ^ 52 ≤ m ∨ e = -1074) := by
  rw [shiftToTargetExponent_eq]
  obtain hlt | rfl := Nat.lt_or_eq_of_le hr
  · have hlog : r.log2 ≤ 52 := by
      rcases eq_or_ne r 0 with rfl | hne
      · simp
      · exact Nat.lt_succ_iff.mp ((Nat.log2_lt hne).mpr hlt)
    have hshift : (wanted r t - t).toNat = 0 := by
      rw [wanted]
      omega
    rw [hshift]
    exact ⟨r, t, rfl, add_zero t, rfl, hlt, ht, hform⟩
  · have hlog : (2 ^ 53 : ℕ).log2 = 53 := Nat.log2_two_pow
    have hshift : (wanted (2 ^ 53) t - t).toNat = 1 := by
      rw [wanted, hlog]
      omega
    rw [hshift]
    refine ⟨2 ^ 52, t + 1, rfl, rfl, ?_, by norm_num, by omega, .inl le_rfl⟩
    rw [zpow_add_one₀ two_ne_zero]
    push_cast
    ring

theorem abs_sub_le_of_half {u : ℚ} {r : ℤ} (h : |u - r| ≤ 1 / 2) (z : ℤ) : |u - r| ≤ |u - z| := by
  rcases eq_or_ne z r with rfl | hne
  · exact le_rfl
  · have hone : (1 : ℚ) ≤ |(z : ℚ) - r| := by
      exact_mod_cast Int.one_le_abs (sub_ne_zero.mpr hne)
    have htriangle : |(z : ℚ) - r| ≤ |u - r| + |u - z| := by
      rw [show (z : ℚ) - r = (u - r) - (u - z) by ring]
      exact abs_sub _ _
    linarith

/-- A rounded mantissa at the exponent wanted is a nearest number: what has a larger exponent is a
multiple of it, and what has a smaller one is below all that has its length. -/
theorem nearest_of_half {u : ℚ} {r : ℕ} {t : ℤ} (hr : r ≤ 2 ^ 53) (ht : -1074 ≤ t)
    (hform : 2 ^ 52 ≤ u ∨ t = -1074) (hhalf : |u - r| ≤ 1 / 2) :
    Nearest (u * 2 ^ t) (r * 2 ^ t) := by
  have hunit : (0 : ℚ) < 2 ^ t := by positivity
  refine ⟨⟨r, t, by rw [Nat.abs_cast]; exact_mod_cast hr, ht, by push_cast; rfl⟩, ?_⟩
  rintro _ ⟨z, k, hz, hk, rfl⟩
  have hinteger (z : ℤ) : |u * 2 ^ t - r * 2 ^ t| ≤ |u * 2 ^ t - z * 2 ^ t| := by
    rw [← sub_mul, ← sub_mul, abs_mul, abs_mul]
    exact mul_le_mul_of_nonneg_right (abs_sub_le_of_half (r := r) (by exact_mod_cast hhalf) z)
      (abs_nonneg _)
  -- A candidate with a larger exponent is a multiple of the unit, one with a smaller exponent is
  -- shorter.
  obtain hle | hlt := le_or_gt t k
  · obtain ⟨n, rfl⟩ := Int.le.dest hle
    have hmultiple : (z : ℚ) * 2 ^ (t + n) = (z * 2 ^ n : ℤ) * 2 ^ t := by
      rw [zpow_add₀ two_ne_zero, zpow_natCast]
      push_cast
      ring
    rw [hmultiple]
    exact hinteger _
  · have hlarge := hform.resolve_right (by omega)
    have hsmall : (z : ℚ) * 2 ^ k ≤ 2 ^ 52 * 2 ^ t := by
      have hbound : (z : ℚ) ≤ 2 ^ 53 := by exact_mod_cast (le_abs_self z).trans hz
      have hpower : (2 : ℚ) ^ k ≤ 2 ^ (t - 1) := zpow_le_zpow_right₀ (by norm_num) (by omega)
      have hhalved : (2 : ℚ) ^ (t - 1) = 2 ^ t / 2 := by
        rw [zpow_sub_one₀ two_ne_zero]
        ring
      calc (z : ℚ) * 2 ^ k ≤ 2 ^ 53 * 2 ^ k := by gcongr
        _ ≤ 2 ^ 53 * (2 ^ t / 2) := by rw [← hhalved]; gcongr
        _ = 2 ^ 52 * 2 ^ t := by ring
    have hbase := hinteger (2 ^ 52)
    have hbelow : 2 ^ 52 * 2 ^ t ≤ u * 2 ^ t := by gcongr
    push_cast at hbase
    refine hbase.trans ?_
    rw [abs_of_nonneg (by linarith), abs_of_nonneg (by linarith)]
    linarith

/-- Cutting a mantissa down to the exponent wanted leaves 53 bits, no fewer unless the exponent is
the least there is. -/
theorem cut_bounds {shift : ℕ} (hdesc : Describes m acc u) (hshift : e + shift = wanted m e) :
    u / 2 ^ shift < 2 ^ 53 ∧ (2 ^ 52 ≤ u / 2 ^ shift ∨ e + shift = -1074) := by
  obtain ⟨hlow, hhigh⟩ := hdesc.bounds
  rw [wanted] at hshift
  have hpositive : (0 : ℚ) < 2 ^ shift := by positivity
  constructor
  · have hlength : m + 1 ≤ 2 ^ (53 + shift) :=
      Nat.lt_log2_self.trans_le (Nat.pow_le_pow_right two_pos (by omega))
    have hlarge : (m : ℚ) + 1 ≤ 2 ^ 53 * 2 ^ shift := by
      rw [← pow_add]
      exact_mod_cast hlength
    rw [div_lt_iff₀ hpositive]
    linarith
  · refine or_iff_not_imp_right.mpr fun hleast => ?_
    have hsome : m ≠ 0 := by
      rintro rfl
      rw [Nat.log2_zero] at hshift
      omega
    have hlength : 2 ^ (52 + shift) ≤ m :=
      (Nat.pow_le_pow_right two_pos (by omega)).trans (Nat.log2_self_le hsome)
    have hlarge : (2 : ℚ) ^ 52 * 2 ^ shift ≤ m := by
      rw [← pow_add]
      exact_mod_cast hlength
    rw [le_div_iff₀ hpositive]
    linarith

/-- The number is in the form of the format, and a nearest one to this. -/
def RoundsTo (v : ℚ) (f : UnpackedFloat) : Prop := Canonical f ∧ Nearest v (valueOf f)

/-- The number is rounded to a whole number of units, a half to an even one. The unit leaves the
number 53 bits, no fewer unless it is the least there is. -/
structure RoundedTo (v : ℚ) (r : ℕ) (t : ℤ) : Prop where
  half : |v / 2 ^ t - r| ≤ 1 / 2
  even : |v / 2 ^ t - r| = 1 / 2 → r % 2 = 0
  small : v / 2 ^ t < 2 ^ 53
  large : 2 ^ 52 ≤ v / 2 ^ t ∨ t = -1074
  least : -1074 ≤ t

theorem RoundedTo.le {r : ℕ} {t : ℤ} (h : RoundedTo v r t) : r ≤ 2 ^ 53 := by
  have hclose := neg_le_of_abs_le h.half
  have hbound : (r : ℚ) < 2 ^ 53 + 1 := by linarith [h.small]
  exact Nat.lt_succ_iff.mp (by exact_mod_cast hbound)

theorem RoundedTo.nearest {r : ℕ} {t : ℤ} (h : RoundedTo v r t) : Nearest v (r * 2 ^ t) := by
  have hnearest := nearest_of_half h.le h.least h.large h.half
  rwa [div_mul_cancel₀ v (by positivity)] at hnearest

/-- The number has the form of the format, and a magnitude is rounded to its own. -/
def RoundsEven (s : UnpackedFloat.Sign) (v : ℚ) (f : UnpackedFloat) : Prop :=
  ∃ (r : ℕ) (t : ℤ), RoundedTo v r t ∧ Canonical f ∧ valueOf f = signed s (r * 2 ^ t)

theorem RoundsEven.roundsTo (h : RoundsEven s v f) : RoundsTo (signed s v) f := by
  obtain ⟨r, t, hrounded, hcanonical, hvalue⟩ := h
  refine ⟨hcanonical, ?_⟩
  rw [hvalue]
  exact hrounded.nearest.signed s

/-- Rounding to the format drops all bits behind the unit, and keeps the form of the format. -/
theorem roundsEven_roundWithAccuracy (s : UnpackedFloat.Sign)
    (hdesc : Describes m acc (v / 2 ^ e)) (he : e ≤ wanted m e) :
    RoundsEven s v (UnpackedFloat.roundWithAccuracy .binary64 s m e acc) := by
  obtain ⟨shift, hshift⟩ := Int.le.dest he
  have htoNat : (wanted m e - e).toNat = shift := by omega
  have hleast : -1074 ≤ e + shift := hshift ▸ le_max_right _ _
  have hcut := (describes_ofMantissaAndAccuracy hdesc).shiftRight shift
  obtain ⟨hsmall, hform⟩ := cut_bounds hdesc hshift
  have hscaled : v / 2 ^ e / 2 ^ shift = v / 2 ^ (e + shift) := by
    rw [zpow_add₀ two_ne_zero, zpow_natCast, div_div]
  rw [hscaled] at hcut hsmall hform
  obtain ⟨hlow, hhigh⟩ := hcut.bounds
  obtain ⟨hhalf, hatLeast, hatMost⟩ := hcut.rounded
  have heven := hcut.even
  rw [UnpackedFloat.roundWithAccuracy, shiftToTargetExponent_eq m e acc, htoNat]
  simp only [UnpackedFloat.ExtendedMantissa.roundedMantissa]
  -- From here on only what the cut mantissa describes matters, not how it was cut.
  generalize UnpackedFloat.ExtendedMantissa.ofMantissaAndAccuracy m acc >>> shift = em at *
  have hrounded : RoundedTo v (em.accuracy.roundToNearestEven em.mantissa) (e + shift) :=
    ⟨hhalf, heven, hsmall, hform, hleast⟩
  have hlength : 2 ^ 52 ≤ em.accuracy.roundToNearestEven em.mantissa ∨ e + shift = -1074 :=
    hform.imp_left fun hlarge => by
      have hnext : 2 ^ 52 < em.mantissa + 1 := by exact_mod_cast hlarge.trans_lt hhigh
      omega
  obtain ⟨m', e', hm', he', hvalue, hcanonical⟩ := shift_rounded hrounded.le hleast hlength
  refine ⟨_, _, hrounded, ?_⟩
  simp only [hm', he']
  rw [← hvalue]
  split
  · next hzero =>
    rw [hzero, Nat.cast_zero, zero_mul]
    exact ⟨trivial, by cases s <;> simp [signed, valueOf]⟩
  · exact ⟨hcanonical, rfl⟩

theorem shiftLeft_mul_zpow (m k : ℕ) (e : ℤ) :
    ((m <<< k : ℕ) : ℚ) * 2 ^ (e - k) = m * 2 ^ e := by
  rw [Nat.shiftLeft_eq, zpow_sub₀ two_ne_zero, zpow_natCast]
  push_cast
  field_simp

theorem log2_shiftLeft (hm : 0 < m) (k : ℕ) : (m <<< k).log2 = m.log2 + k := by
  induction k with
  | zero => rfl
  | succ k ih =>
    have hsome : m <<< k ≠ 0 := by simp [Nat.shiftLeft_eq, hm.ne']
    rw [Nat.shiftLeft_succ, Nat.log2_two_mul hsome, ih, add_assoc]

theorem wanted_shiftLeft (hm : 0 < m) (k : ℕ) (e : ℤ) : wanted (m <<< k) (e - k) = wanted m e := by
  rw [wanted, wanted, log2_shiftLeft hm]
  push_cast
  congr 1
  ring

theorem roundsTo_round (hm : 0 < m) (s : UnpackedFloat.Sign) (e : ℤ) :
    RoundsTo (signed s (m * 2 ^ e)) (UnpackedFloat.round .binary64 s m e) := by
  change RoundsTo _ (UnpackedFloat.roundWithAccuracy .binary64 s (m <<< (e - wanted m e).toNat)
    (e - (e - wanted m e).toNat) .exact)
  refine (roundsEven_roundWithAccuracy s ?_ ?_).roundsTo
  · change _ = _
    rw [← shiftLeft_mul_zpow m (e - wanted m e).toNat e]
    exact mul_div_cancel_right₀ _ (by positivity)
  · rw [wanted_shiftLeft hm]
    omega

theorem signed_apply (s : UnpackedFloat.Sign) (m : ℕ) (w : ℚ) :
    signed s (m * w) = (s.apply m : ℤ) * w := by
  cases s <;> simp [signed, UnpackedFloat.Sign.apply]

theorem holdable_zero : Holdable 0 := by exact_mod_cast holdable_int (n := 0) (by norm_num)

theorem nearest_self (h : Holdable v) : Nearest v v :=
  ⟨h, fun r _ => by rw [sub_self, abs_zero]; exact abs_nonneg _⟩

theorem roundsTo_normalize (z : ℤ) (e : ℤ) (s : UnpackedFloat.Sign) :
    RoundsTo (z * 2 ^ e) (UnpackedFloat.normalize .binary64 z e s) := by
  rw [UnpackedFloat.normalize]
  split
  · next hlt =>
    have hneg : z < 0 := Int.compare_eq_lt.mp hlt
    have hrounded := roundsTo_round (m := (-z).toNat) (by omega) .negative e
    rwa [signed_apply, UnpackedFloat.Sign.apply, Int.toNat_of_nonneg (by omega),
      neg_neg] at hrounded
  · next heq =>
    rw [Int.compare_eq_eq.mp heq, Int.cast_zero, zero_mul]
    exact ⟨trivial, nearest_self holdable_zero⟩
  · next hgt =>
    have hpos : 0 < z := Int.compare_eq_gt.mp hgt
    have hrounded := roundsTo_round (m := z.toNat) (by omega) .positive e
    rwa [signed_apply, UnpackedFloat.Sign.apply, Int.toNat_of_nonneg (by omega)] at hrounded

theorem canonical_neg (hf : Canonical f) : Canonical f.neg ∧ valueOf f.neg = -valueOf f := by
  rcases f with s | _ | s | ⟨s, m, e, hm⟩
  · cases hf
  · cases hf
  · exact ⟨trivial, neg_zero.symm⟩
  · refine ⟨hf, ?_⟩
    cases s
    · exact (neg_neg _).symm
    · rfl

theorem holdable_valueOf (hf : Canonical f) : Holdable (valueOf f) := by
  rcases f with s | _ | s | ⟨s, m, e, hm⟩
  · cases hf
  · cases hf
  · exact holdable_zero
  · have hmagnitude : Holdable (m * 2 ^ e) :=
      ⟨m, e, by rw [Nat.abs_cast]; exact_mod_cast hf.1.le, hf.2.1, by push_cast; rfl⟩
    cases s
    · exact hmagnitude.neg
    · exact hmagnitude

theorem roundsTo_self (hf : Canonical f) : RoundsTo (valueOf f) f :=
  ⟨hf, nearest_self (holdable_valueOf hf)⟩

theorem roundsTo_zero (hv : v = 0) : RoundsTo v (.zero s) := by
  rw [hv]
  exact roundsTo_self (f := .zero s) trivial

/-- The value of a finite number is that of any mantissa and exponent that make it up. -/
theorem decreaseExponent_value (s : UnpackedFloat.Sign) (m : ℕ) {e t : ℤ} (ht : t ≤ e) :
    ((s.apply (UnpackedFloat.decreaseExponent m e t).1 : ℤ) : ℚ) * 2 ^ t =
      signed s (m * 2 ^ e) := by
  obtain ⟨k, rfl⟩ := Int.le.dest ht
  have hshift : (t + k - t).toNat = k := by omega
  have hsame := shiftLeft_mul_zpow m k (t + k)
  rw [add_sub_cancel_right] at hsame
  change ((s.apply (m <<< (t + k - t).toNat : ℕ) : ℤ) : ℚ) * 2 ^ t = _
  rw [← signed_apply, hshift, hsame]

theorem roundsTo_add (hf : Canonical f) (hg : Canonical g) :
    RoundsTo (valueOf f + valueOf g) (UnpackedFloat.add .binary64 f g) := by
  rcases f with s | _ | s | ⟨s, m, e, hm⟩
  · cases hf
  · cases hf
  · rcases g with t | _ | t | ⟨t, n, k, hn⟩
    · cases hg
    · cases hg
    · rw [UnpackedFloat.add]
      split
      · exact roundsTo_zero (zero_add _)
      · exact roundsTo_zero (zero_add _)
    · change RoundsTo (0 + _) _
      rw [zero_add]
      exact roundsTo_self hg
  · rcases g with t | _ | t | ⟨t, n, k, hn⟩
    · cases hg
    · cases hg
    · change RoundsTo (_ + 0) _
      rw [add_zero]
      exact roundsTo_self hf
    -- Two finite numbers are added exactly at the smaller exponent, and then rounded.
    · have hsum := roundsTo_normalize (s.apply (UnpackedFloat.decreaseExponent m e (min e k)).1 +
        t.apply (UnpackedFloat.decreaseExponent n k (min e k)).1) (min e k) .positive
      rw [Int.cast_add, add_mul, decreaseExponent_value s m (min_le_left e k),
        decreaseExponent_value t n (min_le_right e k)] at hsum
      exact hsum

theorem sub_eq_add (f g : UnpackedFloat) :
    UnpackedFloat.sub .binary64 f g = UnpackedFloat.add .binary64 f g.neg := by
  rcases f with s | _ | s | ⟨s, m, e, hm⟩ <;> rcases g with t | _ | t | ⟨t, n, k, hn⟩ <;> try rfl
  simp only [UnpackedFloat.sub, UnpackedFloat.add, UnpackedFloat.neg]
  cases t <;> simp [UnpackedFloat.Sign.apply, sub_eq_add_neg]

theorem roundsTo_sub (hf : Canonical f) (hg : Canonical g) :
    RoundsTo (valueOf f - valueOf g) (UnpackedFloat.sub .binary64 f g) := by
  rw [sub_eq_add, sub_eq_add_neg, ← (canonical_neg hg).2]
  exact roundsTo_add hf (canonical_neg hg).1

theorem signed_mul_signed (s t : UnpackedFloat.Sign) (v w : ℚ) :
    signed s v * signed t w = signed (s * t) (v * w) := by
  cases s <;> cases t
  · exact neg_mul_neg v w
  · exact neg_mul v w
  · exact mul_neg v w
  · rfl

theorem signed_div_signed (s t : UnpackedFloat.Sign) (v w : ℚ) :
    signed s v / signed t w = signed (s / t) (v / w) := by
  cases s <;> cases t
  · exact neg_div_neg_eq v w
  · exact neg_div w v
  · exact div_neg v
  · rfl

theorem le_wanted_of_log2 (h : 2 ^ 52 ≤ m ∨ e ≤ -1074) : e ≤ wanted m e := by
  rw [wanted]
  obtain hlarge | hleast := h
  · have hlog := (Nat.le_log2 (by omega)).mpr hlarge
    omega
  · omega

theorem length_mul {n : ℕ} {k : ℤ} {t : UnpackedFloat.Sign} {hm : 0 < m} {hn : 0 < n}
    (hf : Canonical (.finite s m e hm)) (hg : Canonical (.finite t n k hn)) :
    2 ^ 52 ≤ m * n ∨ e + k ≤ -1074 := by
  obtain ⟨-, hleast, hform⟩ := hf
  obtain ⟨-, hleast', hform'⟩ := hg
  obtain hlarge | hsmall := hform
  · exact .inl (hlarge.trans (Nat.le_mul_of_pos_right m hn))
  · obtain hlarge | hsmall' := hform'
    · exact .inl (hlarge.trans (Nat.le_mul_of_pos_left n hm))
    · exact .inr (by omega)

theorem roundsEven_mul {n : ℕ} {k : ℤ} {t : UnpackedFloat.Sign} {hm : 0 < m} {hn : 0 < n}
    (hlength : 2 ^ 52 ≤ m * n ∨ e + k ≤ -1074) : RoundsEven (s * t) (m * 2 ^ e * (n * 2 ^ k))
      (UnpackedFloat.mul .binary64 (.finite s m e hm) (.finite t n k hn)) := by
  refine roundsEven_roundWithAccuracy (s * t) ?_ (le_wanted_of_log2 hlength)
  change _ = _
  rw [zpow_add₀ two_ne_zero]
  push_cast
  field_simp

theorem roundsTo_mul (hf : Canonical f) (hg : Canonical g) :
    RoundsTo (valueOf f * valueOf g) (UnpackedFloat.mul .binary64 f g) := by
  rcases f with s | _ | s | ⟨s, m, e, hm⟩
  · cases hf
  · cases hf
  · rcases g with t | _ | t | ⟨t, n, k, hn⟩
    · cases hg
    · cases hg
    · exact roundsTo_zero (zero_mul _)
    · exact roundsTo_zero (zero_mul _)
  · rcases g with t | _ | t | ⟨t, n, k, hn⟩
    · cases hg
    · cases hg
    · exact roundsTo_zero (mul_zero _)
    · rw [valueOf, valueOf, signed_mul_signed]
      exact (roundsEven_mul (length_mul hf hg)).roundsTo

theorem describes_accuracyOfFraction {n : ℕ} (hn : 0 < n) :
    Describes (m / n) (UnpackedFloat.accuracyOfFraction (m % n) n) (m / n) := by
  have hpositive : (0 : ℚ) < n := by exact_mod_cast hn
  have hdivided : (m : ℚ) / n = (m / n : ℕ) + (m % n : ℕ) / n := by
    rw [eq_comm, ← mul_right_inj' hpositive.ne', mul_add, mul_div_cancel₀ _ hpositive.ne',
      mul_div_cancel₀ _ hpositive.ne']
    exact_mod_cast Nat.div_add_mod m n
  have hproper : ((m % n : ℕ) : ℚ) < n := by exact_mod_cast Nat.mod_lt m hn
  rw [UnpackedFloat.accuracyOfFraction, hdivided]
  split
  · next hzero =>
    rw [hzero]
    simp [Describes]
  · next hsome =>
    have hrest : (0 : ℚ) < (m % n : ℕ) := by exact_mod_cast Nat.pos_of_ne_zero hsome
    generalize m % n = r at *
    -- The rest is compared with half of the divisor.
    rcases lt_trichotomy (2 * r) n with hlt | heq | hgt
    · have hhalf : 2 * (r : ℚ) < n := by exact_mod_cast hlt
      rw [Nat.compare_eq_lt.mpr hlt]
      refine ⟨by linarith [div_pos hrest hpositive], ?_⟩
      rw [add_lt_add_iff_left, div_lt_iff₀ hpositive]
      linarith
    · have hhalf : 2 * (r : ℚ) = n := by exact_mod_cast heq
      rw [Nat.compare_eq_eq.mpr heq]
      change _ = _
      rw [add_right_inj, div_eq_iff hpositive.ne']
      linarith
    · have hhalf : (n : ℚ) < 2 * r := by exact_mod_cast hgt
      rw [Nat.compare_eq_gt.mpr hgt]
      constructor
      · rw [add_lt_add_iff_left, lt_div_iff₀ hpositive]
        linarith
      · rw [add_lt_add_iff_left, div_lt_iff₀ hpositive]
        linarith

theorem le_wanted_quotient {n : ℕ} {k t : ℤ} (hm : 0 < m) (hn : 0 < n)
    (ht : t = min (e - k) (max ((m.log2 + 1 + e) - (n.log2 + 1 + k) - 53) (-1074))) :
    t ≤ wanted ((m <<< (e - k - t).toNat) / n) t := by
  refine le_wanted_of_log2 (or_iff_not_imp_right.mpr fun hlarge => ?_)
  have hshift : n.log2 + 53 ≤ m.log2 + (e - k - t).toNat := by omega
  have hdividend : 2 ^ (n.log2 + 53) ≤ m <<< (e - k - t).toNat := by
    rw [← Nat.le_log2 (by simp [Nat.shiftLeft_eq, hm.ne']), log2_shiftLeft hm]
    exact hshift
  rw [Nat.le_div_iff_mul_le hn]
  calc 2 ^ 52 * n ≤ 2 ^ 52 * 2 ^ (n.log2 + 1) := Nat.mul_le_mul_left _ Nat.lt_log2_self.le
    _ = 2 ^ (n.log2 + 53) := by rw [← pow_add]; congr 1; omega
    _ ≤ _ := hdividend

theorem roundsEven_div {n : ℕ} {k : ℤ} {t : UnpackedFloat.Sign} {hm : 0 < m} {hn : 0 < n} :
    RoundsEven (s / t) (m * 2 ^ e / (n * 2 ^ k))
      (UnpackedFloat.div .binary64 (.finite s m e hm) (.finite t n k hn)) := by
  obtain ⟨least, hleast⟩ : ∃ least, least = min (e - k)
    (max ((m.log2 + 1 + e) - (n.log2 + 1 + k) - 53) (-1074)) := ⟨_, rfl⟩
  change RoundsEven _ _ (UnpackedFloat.roundWithAccuracy .binary64 (s / t)
    ((m <<< (e - k - min (e - k)
      (max ((m.log2 + 1 + e) - (n.log2 + 1 + k) - 53) (-1074))).toNat) / n)
    (min (e - k) (max ((m.log2 + 1 + e) - (n.log2 + 1 + k) - 53) (-1074)))
    (UnpackedFloat.accuracyOfFraction ((m <<< (e - k - min (e - k)
      (max ((m.log2 + 1 + e) - (n.log2 + 1 + k) - 53) (-1074))).toNat) % n) n))
  rw [← hleast]
  refine roundsEven_roundWithAccuracy (s / t) ?_ (le_wanted_quotient hm hn hleast)
  have hquotient := describes_accuracyOfFraction (m := m <<< (e - k - least).toNat) hn
  have hvalue : (m * 2 ^ e / (n * 2 ^ k) / 2 ^ least : ℚ) =
      (m <<< (e - k - least).toNat : ℕ) / n := by
    rw [Nat.shiftLeft_eq]
    push_cast
    rw [← zpow_natCast, Int.toNat_of_nonneg (by omega), zpow_sub₀ two_ne_zero,
      zpow_sub₀ two_ne_zero]
    field_simp
  rw [hvalue]
  exact hquotient

theorem roundsTo_div (hf : Canonical f) (hg : Canonical g) (hsome : valueOf g ≠ 0) :
    RoundsTo (valueOf f / valueOf g) (UnpackedFloat.div .binary64 f g) := by
  rcases g with t | _ | t | ⟨t, n, k, hn⟩
  · cases hg
  · cases hg
  · exact absurd rfl hsome
  · rcases f with s | _ | s | ⟨s, m, e, hm⟩
    · cases hf
    · cases hf
    · exact roundsTo_zero (zero_div _)
    · rw [valueOf, valueOf, signed_div_signed]
      exact roundsEven_div.roundsTo

/-- The double is finite and holds the number. -/
structure Holds (x : Float) (v : ℚ) : Prop where
  finite : x.isFinite = true
  value : exact x = v

/-- The double is finite and a nearest one to the number. -/
structure Rounds (v : ℚ) (x : Float) : Prop where
  finite : x.isFinite = true
  nearest : Nearest v (exact x)

variable {x y : Float} {w : ℚ}

def limit : ℚ := 2 ^ 1023

theorem limit_nonneg : 0 ≤ limit := by
  unfold limit
  positivity

theorem holdable_limit : Holdable limit := ⟨1, 1023, by norm_num, by norm_num, by norm_num [limit]⟩

/-- Packing loses nothing of a number below the limit. -/
theorem unpack_pack (hf : Canonical f) (hlimit : |valueOf f| ≤ limit) : (pack f).unpack = f := by
  rcases f with s | _ | s | ⟨s, m, e, hm⟩
  · cases hf
  · cases hf
  · exact UnpackedFloat.unpack_packedZero
  · refine unpack_pack_finite hf (not_lt.mp fun hlarge => ?_)
    obtain ⟨-, -, hform⟩ := hf
    have hlength : (2 : ℚ) ^ 52 ≤ m := by exact_mod_cast hform.resolve_right (by omega)
    have hpower : (2 : ℚ) ^ 972 ≤ 2 ^ e := by
      rw [← zpow_natCast]
      exact zpow_le_zpow_right₀ (by norm_num) (by omega)
    rw [valueOf, abs_signed, abs_of_nonneg (by positivity), limit] at hlimit
    refine absurd hlimit (not_le.mpr ?_)
    calc (2 : ℚ) ^ 1023 < 2 ^ (52 + 972) := pow_lt_pow_right₀ (by norm_num) (by norm_num)
      _ = 2 ^ 52 * 2 ^ 972 := pow_add 2 52 972
      _ ≤ m * 2 ^ e := by gcongr

theorem rounds_of_roundsTo (h : RoundsTo v f) (hlimit : |v| ≤ limit) :
    Rounds v (.ofModel (pack f)) := by
  have hunpacked := unpack_pack h.1 (h.2.within holdable_limit hlimit)
  constructor
  · change (pack f).unpack.isFinite = true
    rw [hunpacked]
    exact h.1.isFinite
  · change Nearest v (valueOf (pack f).unpack)
    rw [hunpacked]
    exact h.2

theorem Rounds.holds (h : Rounds v x) (hv : Holdable v) : Holds x v := ⟨h.finite, h.nearest.eq hv⟩

theorem Holds.add (hx : Holds x v) (hy : Holds y w) (hlimit : |v + w| ≤ limit) :
    Rounds (v + w) (x + y) := by
  have hsum := roundsTo_add (canonical_unpack hx.finite) (canonical_unpack hy.finite)
  change RoundsTo (exact x + exact y) _ at hsum
  rw [hx.value, hy.value] at hsum
  exact rounds_of_roundsTo hsum hlimit

theorem Holds.sub (hx : Holds x v) (hy : Holds y w) (hlimit : |v - w| ≤ limit) :
    Rounds (v - w) (x - y) := by
  have hdifference := roundsTo_sub (canonical_unpack hx.finite) (canonical_unpack hy.finite)
  change RoundsTo (exact x - exact y) _ at hdifference
  rw [hx.value, hy.value] at hdifference
  exact rounds_of_roundsTo hdifference hlimit

theorem Holds.mul (hx : Holds x v) (hy : Holds y w) (hlimit : |v * w| ≤ limit) :
    Rounds (v * w) (x * y) := by
  have hproduct := roundsTo_mul (canonical_unpack hx.finite) (canonical_unpack hy.finite)
  change RoundsTo (exact x * exact y) _ at hproduct
  rw [hx.value, hy.value] at hproduct
  exact rounds_of_roundsTo hproduct hlimit

theorem Holds.div (hx : Holds x v) (hy : Holds y w) (hw : w ≠ 0) (hlimit : |v / w| ≤ limit) :
    Rounds (v / w) (x / y) := by
  have hquotient := roundsTo_div (canonical_unpack hx.finite) (canonical_unpack hy.finite)
    (hy.value.trans_ne hw)
  change RoundsTo (exact x / exact y) _ at hquotient
  rw [hx.value, hy.value] at hquotient
  exact rounds_of_roundsTo hquotient hlimit

/-- Of two magnitudes in the form of the format, the one with the larger exponent is larger. -/
theorem magnitude_lt {n : ℕ} {k : ℤ} {hm : 0 < m} {hn : 0 < n}
    (hf : Canonical (.finite .positive m e hm)) (hg : Canonical (.finite .positive n k hn))
    (hlt : e < k) : (m : ℚ) * 2 ^ e < n * 2 ^ k := by
  have hshort : (m : ℚ) < 2 ^ 53 := by exact_mod_cast hf.1
  have hlong : (2 : ℚ) ^ 52 ≤ n := by exact_mod_cast hg.2.2.resolve_right (by have := hf.2.1; omega)
  have hpower : (2 : ℚ) ^ (e + 1) ≤ 2 ^ k := zpow_le_zpow_right₀ (by norm_num) hlt
  rw [zpow_add_one₀ two_ne_zero] at hpower
  calc (m : ℚ) * 2 ^ e < 2 ^ 53 * 2 ^ e := by gcongr
    _ = 2 ^ 52 * (2 ^ e * 2) := by ring
    _ ≤ n * 2 ^ k := by gcongr

theorem magnitude_inj {n : ℕ} {k : ℤ} {hm : 0 < m} {hn : 0 < n}
    (hf : Canonical (.finite .positive m e hm)) (hg : Canonical (.finite .positive n k hn))
    (h : (m : ℚ) * 2 ^ e = n * 2 ^ k) : m = n ∧ e = k := by
  rcases lt_trichotomy e k with hlt | rfl | hgt
  · exact absurd h (magnitude_lt hf hg hlt).ne
  · exact ⟨by exact_mod_cast mul_right_cancel₀ (by positivity) h, rfl⟩
  · exact absurd h (magnitude_lt hg hf hgt).ne'

theorem eq_of_valueOf_eq (hf : Canonical f) (hg : Canonical g) (h : valueOf f = valueOf g)
    (hsome : valueOf f ≠ 0) : f = g := by
  rcases f with s | _ | s | ⟨s, m, e, hm⟩
  · cases hf
  · cases hf
  · exact absurd rfl hsome
  · rcases g with t | _ | t | ⟨t, n, k, hn⟩
    · cases hg
    · cases hg
    · exact absurd h hsome
    · have hm' : (0 : ℚ) < m * 2 ^ e := by positivity
      have hn' : (0 : ℚ) < n * 2 ^ k := by positivity
      rw [valueOf, valueOf] at h
      have hmagnitude : (m : ℚ) * 2 ^ e = n * 2 ^ k := by
        rw [← abs_of_pos hm', ← abs_signed s, h, abs_signed, abs_of_pos hn']
      have hf' : Canonical (.finite .positive m e hm) := hf
      have hg' : Canonical (.finite .positive n k hn) := hg
      obtain ⟨rfl, rfl⟩ := magnitude_inj hf' hg' hmagnitude
      cases s <;> cases t
      · rfl
      · rw [signed, signed] at h
        linarith
      · rw [signed, signed] at h
        linarith
      · rfl

theorem compareMagnitude_lt_iff {n : ℕ} {k : ℤ} (hm : 0 < m) (hn : 0 < n)
    (hf : Canonical (.finite .positive m e hm)) (hg : Canonical (.finite .positive n k hn)) :
    (compare e k).then (compare m n) = .lt ↔ (m : ℚ) * 2 ^ e < n * 2 ^ k := by
  rcases lt_trichotomy e k with hlt | rfl | hgt
  · simp [Int.compare_eq_lt.mpr hlt, magnitude_lt hf hg hlt]
  · rw [mul_lt_mul_iff_of_pos_right (by positivity), Nat.cast_lt]
    simp [Nat.compare_eq_lt]
  · simp [Int.compare_eq_gt.mpr hgt, (magnitude_lt hg hf hgt).le]

theorem compare_eq_lt_iff (hf : Canonical f) (hg : Canonical g) :
    f.compare g = some .lt ↔ valueOf f < valueOf g := by
  have hpos (m : ℕ) (e : ℤ) (hm : 0 < m) : (0 : ℚ) < m * 2 ^ e := by positivity
  rcases f with s | _ | s | ⟨s, m, e, hm⟩
  · cases hf
  · cases hf
  · rcases g with t | _ | t | ⟨_ | _, n, k, hn⟩
    · cases hg
    · cases hg
    · simp [UnpackedFloat.compare, valueOf]
    · simp [UnpackedFloat.compare, valueOf, signed, (hpos n k hn).le]
    · simp [UnpackedFloat.compare, valueOf, signed, hpos n k hn]
  · rcases g with t | _ | t | ⟨t, n, k, hn⟩
    · cases hg
    · cases hg
    · cases s
      · simp [UnpackedFloat.compare, valueOf, signed, hpos m e hm]
      · simp [UnpackedFloat.compare, valueOf, signed, (hpos m e hm).le]
    -- Two numbers that are not zero: by their signs first, by their magnitudes where these agree.
    · cases s <;> cases t
      · change some _ = _ ↔ -_ < -_
        rw [neg_lt_neg_iff, ← compareMagnitude_lt_iff hn hm hg hf,
          swap_compareMagnitude, Option.some_inj]
      · have hlower : -(m * 2 ^ e : ℚ) < 0 := neg_neg_of_pos (hpos m e hm)
        exact iff_of_true rfl (hlower.trans (hpos n k hn))
      · have hlower : -(n * 2 ^ k : ℚ) < 0 := neg_neg_of_pos (hpos n k hn)
        exact iff_of_false (fun h => by cases h) (hlower.trans (hpos m e hm)).not_gt
      · change some _ = _ ↔ _ < _
        rw [Option.some_inj]
        exact compareMagnitude_lt_iff hm hn hf hg

theorem Canonical.isNaN_eq_false (hf : Canonical f) : f.isNaN = false := by
  rcases f with s | _ | s | ⟨s, m, e, hm⟩
  · cases hf
  · cases hf
  · rfl
  · rfl

theorem compare_eq_eq_iff (hf : Canonical f) (hg : Canonical g) :
    f.compare g = some .eq ↔ valueOf f = valueOf g := by
  have hlt := compare_eq_lt_iff hf hg
  have hgt := compare_eq_lt_iff hg hf
  obtain ⟨order, horder⟩ := Option.isSome_iff_exists.mp
    (isSome_compare hf.isNaN_eq_false hg.isNaN_eq_false)
  rw [← swap_compare f g, horder] at hgt
  rw [horder] at hlt ⊢
  cases order with
  | lt => exact iff_of_false (by simp) (hlt.mp rfl).ne
  | eq =>
    have hnot : ¬valueOf f < valueOf g := fun h => absurd (hlt.mpr h) (by simp)
    have hnot' : ¬valueOf g < valueOf f := fun h => absurd (hgt.mpr h) (by simp)
    exact iff_of_true rfl (le_antisymm (not_lt.mp hnot') (not_lt.mp hnot))
  | gt => exact iff_of_false (by simp) (hgt.mp rfl).ne'

theorem Holdable.exists_multiple (h : Holdable v) : ∃ z : ℤ, v = z * 2 ^ (-1074 : ℤ) := by
  obtain ⟨r, k, -, hk, rfl⟩ := h
  generalize (-1074 : ℤ) = least at hk ⊢
  obtain ⟨n, rfl⟩ := Int.le.dest hk
  refine ⟨r * 2 ^ n, ?_⟩
  rw [add_comm, zpow_add₀ two_ne_zero, zpow_natCast, ← mul_assoc]
  push_cast
  rfl

theorem Nearest.sub_pos (hv : Holdable v) (hw : Holdable w) (hlt : w < v) {r : ℚ}
    (h : Nearest (v - w) r) : 0 < r := by
  obtain ⟨a, rfl⟩ := hv.exists_multiple
  obtain ⟨b, rfl⟩ := hw.exists_multiple
  have hunit : (0 : ℚ) < 2 ^ (-1074 : ℤ) := by positivity
  have hab : b + 1 ≤ a := by
    have hab : (b : ℚ) < a := lt_of_mul_lt_mul_right hlt hunit.le
    exact_mod_cast hab
  have hab' : (b : ℚ) + 1 ≤ a := by exact_mod_cast hab
  refine hunit.trans_le (h.ge ⟨1, -1074, by norm_num, le_refl _, by rw [Int.cast_one, one_mul]⟩ ?_)
  rw [← sub_mul]
  exact le_mul_of_one_le_left hunit.le (by linarith)

theorem Holds.holdable (hx : Holds x v) : Holdable v := by
  rw [← hx.value]
  exact holdable_valueOf (canonical_unpack hx.finite)

theorem lt_iff_exact_lt (hx : x.isFinite = true) (hy : y.isFinite = true) :
    x < y ↔ exact x < exact y :=
  lt_iff.trans (compare_eq_lt_iff (canonical_unpack hx) (canonical_unpack hy))

theorem beq_iff_exact_eq {x y : Float} (hx : x.isFinite = true) (hy : y.isFinite = true) :
    (x == y) = true ↔ exact x = exact y := by
  change (x.toModel.unpack.compare y.toModel.unpack == some .eq) = true ↔ _
  rw [beq_iff_eq]
  exact compare_eq_eq_iff (canonical_unpack hx) (canonical_unpack hy)

end SkillPipeline.Number
