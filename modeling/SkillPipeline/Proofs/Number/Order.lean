import Mathlib

namespace SkillPipeline.Number

open Float.Model

theorem isSome_compare {a b : UnpackedFloat} (ha : a.isNaN = false) (hb : b.isNaN = false) :
    (a.compare b).isSome = true := by
  rcases a with (_ | _) | _ | _ | ⟨(_ | _), _⟩ <;> rcases b with (_ | _) | _ | _ | ⟨(_ | _), _⟩ <;>
    simp_all [UnpackedFloat.compare, UnpackedFloat.isNaN]

theorem swap_compareMagnitude (e f : Int) (m n : Nat) :
    ((compare e f).then (compare m n)).swap = (compare f e).then (compare n m) := by
  rw [Ordering.swap_then, Int.compare_swap, Nat.compare_swap]

theorem swap_compare (a b : UnpackedFloat) : (a.compare b).map Ordering.swap = b.compare a := by
  rcases a with (_ | _) | _ | _ | ⟨(_ | _), _⟩ <;> rcases b with (_ | _) | _ | _ | ⟨(_ | _), _⟩ <;>
    first
    | rfl
    | simp [UnpackedFloat.compare, swap_compareMagnitude]

theorem lt_iff {a b : Float} : a < b ↔ a.toModel.unpack.compare b.toModel.unpack = some .lt := by
  change decide (a.toModel < b.toModel) = true ↔ _
  rw [decide_eq_true_iff]
  change (_ == _) = true ↔ _
  rw [beq_iff_eq]

theorem le_iff {a b : Float} :
    a ≤ b ↔ (a.toModel.unpack.compare b.toModel.unpack).any Ordering.isLE = true := by
  change decide (a.toModel ≤ b.toModel) = true ↔ _
  rw [decide_eq_true_iff]
  exact Iff.rfl

/-- Of two numbers, one that is not below the other is not above it the other way round. -/
theorem le_of_not_lt {a b : Float} (ha : a.isNaN = false) (hb : b.isNaN = false) (h : ¬a < b) :
    b ≤ a := by
  obtain ⟨o, ho⟩ := Option.isSome_iff_exists.mp (isSome_compare ha hb)
  rw [lt_iff, ho] at h
  rw [le_iff, ← swap_compare, ho]
  cases o with
  | lt => exact absurd rfl h
  | eq => rfl
  | gt => rfl

theorem not_lt_of_le {a b : Float} (h : a ≤ b) : ¬b < a := by
  rw [le_iff] at h
  rw [lt_iff, ← swap_compare]
  cases hab : a.toModel.unpack.compare b.toModel.unpack with
  | none => nofun
  | some o =>
    rw [hab] at h
    cases o with
    | lt | eq => nofun
    | gt => cases h

inductive Nonnegative : UnpackedFloat → Prop
  | infinity : Nonnegative (.infinity .positive)
  | zero (s : UnpackedFloat.Sign) : Nonnegative (.zero s)
  | finite (m : Nat) (e : Int) (hm : 0 < m) : Nonnegative (.finite .positive m e hm)

variable {spec : Format} {f g : UnpackedFloat}

theorem Nonnegative.isNaN_eq_false (hf : Nonnegative f) : f.isNaN = false := by
  cases hf <;> rfl

theorem Nonnegative.zero_le (hf : Nonnegative f) :
    ((UnpackedFloat.zero .positive).compare f).any Ordering.isLE = true := by
  cases hf <;> rfl

theorem nonnegative_roundWithAccuracy (m : Nat) (e : Int) (acc : UnpackedFloat.Accuracy) :
    Nonnegative (UnpackedFloat.roundWithAccuracy spec .positive m e acc) := by
  rw [UnpackedFloat.roundWithAccuracy]
  dsimp only
  split
  · exact .zero _
  · exact .finite _ _ _

theorem nonnegative_normalize {m : Int} (hm : 0 ≤ m) (e : Int) (s : UnpackedFloat.Sign) :
    Nonnegative (UnpackedFloat.normalize spec m e s) := by
  rw [UnpackedFloat.normalize]
  split
  · next hlt =>
    have hneg : m < 0 := Int.compare_eq_lt.mp hlt
    omega
  · exact .zero s
  · exact nonnegative_roundWithAccuracy _ _ _

theorem Nonnegative.add (hf : Nonnegative f) (hg : Nonnegative g) :
    Nonnegative (UnpackedFloat.add spec f g) := by
  cases hf with
  | infinity => cases hg <;> exact .infinity
  | zero s =>
    cases hg with
    | infinity => exact .infinity
    | zero t =>
      rw [UnpackedFloat.add]
      split
      · exact .zero s
      · exact .zero .positive
    | finite n e hn => exact .finite n e hn
  | finite m e hm =>
    cases hg with
    | infinity => exact .infinity
    | zero t => exact .finite m e hm
    | finite n e' hn =>
      exact nonnegative_normalize (Int.add_nonneg (Int.natCast_nonneg _) (Int.natCast_nonneg _)) _ _

theorem Nonnegative.mul (hf : Nonnegative f) {m : Nat} {e : Int} (hm : 0 < m) :
    Nonnegative (UnpackedFloat.mul spec f (.finite .positive m e hm)) := by
  cases hf with
  | infinity => exact .infinity
  | zero s => exact .zero _
  | finite n e' hn => exact nonnegative_roundWithAccuracy _ _ _

theorem Nonnegative.div (hf : Nonnegative f) {m : Nat} {e : Int} (hm : 0 < m) :
    Nonnegative (UnpackedFloat.div spec f (.finite .positive m e hm)) := by
  cases hf with
  | infinity => exact .infinity
  | zero s => exact .zero _
  | finite n e' hn => exact nonnegative_roundWithAccuracy _ _ _

/-- What is packed with a positive sign is not negative, unless its exponent is the reserved one. -/
theorem nonnegative_unpack_packComponents {e : BitVec 11} (he : e ≠ -1#11) (m : BitVec 52) :
    Nonnegative (UnpackedFloat.unpack .binary64
      (UnpackedFloat.packComponents .binary64 .positive e m)) := by
  rw [UnpackedFloat.unpack]
  simp only [UnpackedFloat.unpackExponent_packComponents,
    UnpackedFloat.unpackMantissa_packComponents, UnpackedFloat.unpackSign_packComponents,
    UnpackedFloat.Sign.ofBitVec_toBitVec]
  rw [if_neg he]
  split
  · split
    · exact .zero _
    · exact .finite _ _ _
  · exact .finite _ _ _

theorem nonnegative_unpack_packedInfinity : Nonnegative (UnpackedFloat.unpack .binary64
    (UnpackedFloat.packedInfinity .binary64 .positive)) := by
  have hbits : UnpackedFloat.unpack .binary64
      (UnpackedFloat.packedInfinity .binary64 .positive) = .infinity .positive := rfl
  rw [hbits]
  exact .infinity

theorem Nonnegative.unpack_pack (hf : Nonnegative f) : Nonnegative (pack f).unpack := by
  change Nonnegative (UnpackedFloat.unpack .binary64 (UnpackedFloat.pack .binary64 f))
  cases hf with
  | infinity => exact nonnegative_unpack_packedInfinity
  | zero s =>
    rw [UnpackedFloat.pack, UnpackedFloat.unpack_packedZero]
    exact .zero s
  | finite m e hm =>
    rw [UnpackedFloat.pack]
    dsimp only
    split
    · exact nonnegative_unpack_packedInfinity
    · next hsmall =>
      split
      · refine nonnegative_unpack_packComponents (fun heq => hsmall ?_) _
        have hbits := congrArg BitVec.toNat heq
        rw [BitVec.toNat_ofNat] at hbits
        change _ % 2 ^ 11 = 2047 at hbits
        change 2 ^ 11 ≤ _
        omega
      · exact nonnegative_unpack_packComponents (by decide) _

def NotNegative (x : Float) : Prop := Nonnegative x.toModel.unpack

def isPositive (x : Float) : Bool :=
  match x.toModel.unpack with
  | .finite .positive _ _ _ => true
  | _ => false

variable {x y : Float}

theorem exists_of_isPositive (h : isPositive x = true) :
    ∃ m e, ∃ hm : 0 < m, x.toModel.unpack = .finite .positive m e hm := by
  rw [isPositive] at h
  split at h
  · next m e hm hx => exact ⟨m, e, hm, hx⟩
  · cases h

theorem NotNegative.notNaN (h : NotNegative x) : x.isNaN = false := h.isNaN_eq_false

theorem NotNegative.nonneg (h : NotNegative x) : 0 ≤ x := by
  have hzero : (0 : Float).toModel.unpack = .zero .positive := rfl
  rw [le_iff, hzero]
  exact h.zero_le

theorem NotNegative.add (hx : NotNegative x) (hy : NotNegative y) : NotNegative (x + y) :=
  (Nonnegative.add hx hy).unpack_pack

theorem NotNegative.mul (hx : NotNegative x) (hy : isPositive y = true) : NotNegative (x * y) := by
  obtain ⟨m, e, hm, hy⟩ := exists_of_isPositive hy
  change Nonnegative (pack (UnpackedFloat.mul .binary64 x.toModel.unpack y.toModel.unpack)).unpack
  rw [hy]
  exact (Nonnegative.mul hx hm).unpack_pack

theorem NotNegative.div (hx : NotNegative x) (hy : isPositive y = true) : NotNegative (x / y) := by
  obtain ⟨m, e, hm, hy⟩ := exists_of_isPositive hy
  change Nonnegative (pack (UnpackedFloat.div .binary64 x.toModel.unpack y.toModel.unpack)).unpack
  rw [hy]
  exact (Nonnegative.div hx hm).unpack_pack

theorem notNegative_ofUInt64 (n : UInt64) : NotNegative n.toFloat :=
  (nonnegative_normalize (Int.natCast_nonneg _) _ _).unpack_pack

theorem isPositive_powersOfTen (i : Fin 23) :
    isPositive Float.exactlyRepresentablePowersOfTen[i] = true := by
  revert i
  decide

theorem nonnegative_ofScientific (m : Nat) (e : Int) :
    Nonnegative (UnpackedFloat.ofScientific .binary64 m e) := by
  rw [UnpackedFloat.ofScientific]
  split
  · exact .zero _
  · split
    · exact .infinity
    · split
      · exact .zero _
      · split
        · exact (Nonnegative.finite _ _ _).mul _
        · exact (Nonnegative.finite _ _ _).div _

theorem notNegative_ofScientific (m : Nat) (s : Bool) (e : Nat) :
    NotNegative (Float.ofScientific m s e) := by
  rw [Float.ofScientific]
  split
  · next h =>
    have hpower := isPositive_powersOfTen ⟨e, by omega⟩
    dsimp only
    split
    · exact (notNegative_ofUInt64 _).div hpower
    · exact (notNegative_ofUInt64 _).mul hpower
  · exact (nonnegative_ofScientific _ _).unpack_pack

end SkillPipeline.Number
