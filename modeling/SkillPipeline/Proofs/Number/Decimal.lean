import SkillPipeline.Number.Reader
import SkillPipeline.Proofs.Number.Whole

namespace SkillPipeline.Number

open Float.Model

theorem digitsValue_append (a b : List Char) :
    digitsValue (a ++ b) = digitsValue a * 10 ^ b.length + digitsValue b := by
  induction b using List.reverseRecOn with
  | nil => simp [digitsValue]
  | append_singleton b c ih =>
    have hlast (s : List Char) : digitsValue (s ++ [c]) =
        10 * digitsValue s + (c.toNat - '0'.toNat) := by
      simp [digitsValue]
    rw [← List.append_assoc, hlast, hlast, ih, List.length_append, List.length_singleton, pow_succ]
    ring

theorem digitsValue_cons (c : Char) (s : List Char) :
    digitsValue (c :: s) = (c.toNat - '0'.toNat) * 10 ^ s.length + digitsValue s := by
  have hcons := digitsValue_append [c] s
  simpa [digitsValue] using hcons

theorem digitsValue_zeros (n : ℕ) (s : List Char) :
    digitsValue (List.replicate n '0' ++ s) = digitsValue s := by
  induction n with
  | zero => rfl
  | succ n ih =>
    rw [List.replicate_succ, List.cons_append, digitsValue_cons, ih, Nat.sub_self, Nat.zero_mul,
      Nat.zero_add]

theorem digitsValue_lt {s : List Char} (h : ∀ c ∈ s, isDigit c = true) :
    digitsValue s < 10 ^ s.length := by
  induction s with
  | nil => simp [digitsValue]
  | cons c s ih =>
    obtain ⟨hc, hs⟩ := List.forall_mem_cons.mp h
    have hdigit : c.toNat - '0'.toNat ≤ 9 := by
      simp only [isDigit, Bool.and_eq_true, decide_eq_true_eq] at hc
      have hmost : c.toNat ≤ '9'.toNat := hc.2
      change _ ≤ 57 at hmost
      change _ - 48 ≤ 9
      omega
    rw [digitsValue_cons, List.length_cons, pow_succ]
    have hrest := ih hs
    nlinarith

theorem isDigit_of_mem_digitChars {n : ℕ} : ∀ c ∈ digitChars n, isDigit c = true := by
  intro c hc
  have hdigit := Nat.isDigit_of_mem_toDigits (by norm_num) (by norm_num) hc
  rw [Char.isDigit, Bool.and_eq_true, decide_eq_true_iff, decide_eq_true_iff] at hdigit
  rw [isDigit, Bool.and_eq_true, decide_eq_true_iff, decide_eq_true_iff]
  exact hdigit

theorem digitsValue_digitChars (n : ℕ) : digitsValue (digitChars n) = n :=
  Nat.ofDigitChars_toDigits (by norm_num) (by norm_num)

theorem digitChars_ne_nil (n : ℕ) : digitChars n ≠ [] :=
  List.length_pos_iff.mp Nat.length_toDigits_pos

theorem head?_digitChars {n : ℕ} (hn : 0 < n) : (digitChars n).head? ≠ some '0' := by
  intro hhead
  obtain ⟨rest, hrest⟩ := List.head?_eq_some_iff.mp hhead
  have hdigits (c : Char) (hc : c ∈ rest) : isDigit c = true :=
    isDigit_of_mem_digitChars (n := n) c (hrest ▸ List.mem_cons_of_mem _ hc)
  have hsmall : n < 10 ^ rest.length := by
    have hvalue := digitsValue_digitChars n
    rw [hrest, digitsValue_cons, Nat.sub_self, Nat.zero_mul, Nat.zero_add] at hvalue
    exact hvalue.symm.trans_lt (digitsValue_lt hdigits)
  have hsome : rest ≠ [] := by
    rintro rfl
    rw [List.length_nil, pow_zero] at hsmall
    omega
  have hshort := (Nat.length_toDigits_le_iff (by norm_num)
    (List.length_pos_iff.mpr hsome)).mpr hsmall
  change (digitChars n).length ≤ _ at hshort
  rw [hrest, List.length_cons] at hshort
  omega

def Decimal.value (d : Decimal) : ℚ := d.digits * 10 ^ d.exponent

/-- Digits before the point and behind it, and a power of ten if one is written. -/
structure Numeral where
  whole : List Char
  fraction : List Char
  power : Option ℤ

def powerChars (power : ℤ) : List Char :=
  'e' :: (if power < 0 then '-' else '+') :: digitChars power.natAbs

def pointChars (fraction : List Char) : List Char :=
  if fraction = [] then [] else '.' :: fraction

namespace Numeral

def chars (n : Numeral) : List Char :=
  n.whole ++ (pointChars n.fraction ++ n.power.elim [] powerChars)

def decimal (n : Numeral) : Decimal :=
  ⟨digitsValue (n.whole ++ n.fraction), n.power.getD 0 - n.fraction.length⟩

/-- There are digits before the point, and nothing else around it. -/
structure Proper (n : Numeral) : Prop where
  nonempty : n.whole ≠ []
  whole : ∀ c ∈ n.whole, isDigit c = true
  fraction : ∀ c ∈ n.fraction, isDigit c = true

/-- No digit before the point could be left out. -/
def Plain (n : Numeral) : Prop := n.whole = ['0'] ∨ n.whole.head? ≠ some '0'

variable {n : Numeral}

theorem span_digits {digits rest : List Char} (hdigits : ∀ c ∈ digits, isDigit c = true)
    (hrest : ∀ c ∈ rest.head?, isDigit c = false) :
    (digits ++ rest).takeWhile isDigit = digits ∧ (digits ++ rest).dropWhile isDigit = rest := by
  rw [List.takeWhile_append_of_pos hdigits, List.dropWhile_append_of_pos hdigits]
  cases rest with
  | nil => exact ⟨List.append_nil _, rfl⟩
  | cons c rest =>
    have hc : ¬isDigit c = true := Bool.eq_false_iff.mp (hrest c rfl)
    rw [List.takeWhile_cons_of_neg hc, List.dropWhile_cons_of_neg hc, List.append_nil]
    exact ⟨rfl, rfl⟩

theorem readExponent_powerChars (power : ℤ) : readExponent (powerChars power) = some power := by
  have hall : (digitChars power.natAbs).all isDigit = true :=
    List.all_eq_true.mpr isDigit_of_mem_digitChars
  have hsome : (digitChars power.natAbs).isEmpty = false :=
    List.isEmpty_eq_false_iff.mpr (digitChars_ne_nil _)
  by_cases hneg : power < 0
  · have habs : -(power.natAbs : ℤ) = power := by omega
    rw [powerChars, if_pos hneg, readExponent]
    simp only [true_or, if_true, hsome, hall, Bool.not_true, Bool.or_false, Bool.false_eq_true,
      if_false, digitsValue_digitChars, habs]
  · have habs : (power.natAbs : ℤ) = power := by omega
    rw [powerChars, if_neg hneg, readExponent]
    simp only [true_or, if_true, hsome, hall, Bool.not_true, Bool.or_false, Bool.false_eq_true,
      if_false, digitsValue_digitChars, habs]

theorem readExponent_power (power : Option ℤ) :
    readExponent (power.elim [] powerChars) = some (power.getD 0) := by
  cases power with
  | none => rfl
  | some power => exact readExponent_powerChars power

theorem head?_power (power : Option ℤ) : ∀ c ∈ (power.elim [] powerChars).head?, c = 'e' := by
  cases power with
  | none => simp
  | some power => simp [powerChars]

theorem Proper.readDecimal (h : n.Proper) : readDecimal n.chars = some n.decimal := by
  have hpower (c : Char) (hc : c ∈ (n.power.elim [] powerChars).head?) : isDigit c = false := by
    rw [head?_power n.power c hc]
    rfl
  have hempty : n.whole.isEmpty = false := List.isEmpty_eq_false_iff.mpr h.nonempty
  obtain ⟨whole, fraction, power⟩ := n
  rw [chars, decimal, Number.readDecimal]
  by_cases hfraction : fraction = []
  · obtain ⟨htake, hdrop⟩ := span_digits h.whole hpower
    subst hfraction
    cases power with
    | none =>
      simp only [pointChars, if_true, List.nil_append, htake, hdrop, hempty]
      rfl
    | some power =>
      simp only [pointChars, if_true, List.nil_append, htake, hdrop, hempty]
      exact congrArg (Option.map fun p : ℤ => Decimal.mk (digitsValue (whole ++ [])) (p - 0))
        (readExponent_powerChars power)
  · obtain ⟨htake, hdrop⟩ := span_digits h.fraction hpower
    have hpoint : ∀ c ∈ ('.' :: (fraction ++ power.elim [] powerChars)).head?,
        isDigit c = false := by
      simp [isDigit]
    obtain ⟨htake', hdrop'⟩ := span_digits h.whole hpoint
    simp only [pointChars, hfraction, if_false, List.cons_append, htake', hdrop', htake, hdrop,
      hempty, readExponent_power]
    rfl

end Numeral

theorem digitsValue_replicate (n : ℕ) : digitsValue (List.replicate n '0') = 0 := by
  have hzeros := digitsValue_zeros n []
  rwa [List.append_nil] at hzeros

theorem isDigit_zeros (n : ℕ) : ∀ c ∈ List.replicate n '0', isDigit c = true := by
  intro c hc
  rw [List.eq_of_mem_replicate hc]
  rfl

def Numeral.split (digits : List Char) (first : ℕ) (power : Option ℤ) : Numeral :=
  ⟨digits.take first, digits.drop first, power⟩

section Split

variable {digits : List Char} {first : ℕ} {power : Option ℤ}

theorem proper_split (hdigits : ∀ c ∈ digits, isDigit c = true) (hsome : digits ≠ [])
    (hfirst : 0 < first) : (Numeral.split digits first power).Proper where
  nonempty := by simp [Numeral.split, hsome, hfirst.ne']
  whole c hc := hdigits c (List.mem_of_mem_take hc)
  fraction c hc := hdigits c (List.mem_of_mem_drop hc)

theorem plain_split (hhead : digits.head? ≠ some '0') (hfirst : 0 < first) :
    (Numeral.split digits first power).Plain := by
  refine .inr ?_
  rwa [Numeral.split, List.head?_take, if_neg hfirst.ne']

theorem value_split : (Numeral.split digits first power).decimal.value =
    digitsValue digits * 10 ^ (power.getD 0 - (digits.length - first : ℕ) : ℤ) := by
  rw [Decimal.value, Numeral.decimal, Numeral.split, List.take_append_drop, List.length_drop]

theorem placePoint_eq (hdigits : ∀ c ∈ digits, isDigit c = true) (hhead : digits.head? ≠ some '0')
    (hsome : digits ≠ []) (exponent : ℤ) :
    ∃ n : Numeral, n.chars = placePoint digits (exponent + digits.length) ∧ n.Proper ∧ n.Plain ∧
      n.decimal.value = digitsValue digits * 10 ^ exponent := by
  have hlength := List.length_pos_iff.mpr hsome
  -- By where the point stands: in front of all digits, behind them, or between two.
  rw [placePoint]
  split
  · next hsmall =>
    obtain ⟨zeros, hzeros⟩ : ∃ zeros, zeros = (-(exponent + digits.length)).toNat := ⟨_, rfl⟩
    refine ⟨.split ('0' :: (List.replicate zeros '0' ++ digits)) 1 none, ?_, ?_, .inl rfl, ?_⟩
    · simp [Numeral.chars, Numeral.split, pointChars, hsome, hzeros]
    · refine proper_split ?_ (List.cons_ne_nil _ _) one_pos
      exact List.forall_mem_cons.mpr ⟨rfl, List.forall_mem_append.mpr ⟨isDigit_zeros _, hdigits⟩⟩
    · rw [value_split, digitsValue_cons, digitsValue_zeros, Nat.sub_self, Nat.zero_mul,
        Nat.zero_add, List.length_cons, List.length_append, List.length_replicate, Option.getD_none]
      congr 2
      omega
  · next hlarge =>
    split
    · next hinside =>
      obtain ⟨zeros, hzeros⟩ : ∃ zeros, zeros = (exponent + digits.length).toNat - digits.length :=
        ⟨_, rfl⟩
      refine ⟨.split (digits ++ List.replicate zeros '0') (digits.length + zeros) none,
        ?_, ?_, ?_, ?_⟩
      · simp [Numeral.chars, Numeral.split, pointChars, hzeros]
      · refine proper_split ?_ (by simp [hsome]) (by omega)
        exact List.forall_mem_append.mpr ⟨hdigits, isDigit_zeros _⟩
      · exact plain_split (by simpa [List.head?_append_of_ne_nil _ hsome] using hhead) (by omega)
      · obtain rfl : exponent = zeros := by omega
        rw [value_split, digitsValue_append, digitsValue_replicate, List.length_append,
          List.length_replicate, Nat.sub_self, Option.getD_none, zpow_natCast]
        push_cast
        norm_num
    · next houtside =>
      refine ⟨.split digits (exponent + digits.length).toNat none, ?_, ?_, ?_, ?_⟩
      · have hrest : digits.drop (exponent + digits.length).toNat ≠ [] := by
          rw [Ne, List.drop_eq_nil_iff]
          exact houtside
        simp [Numeral.chars, Numeral.split, pointChars, hrest]
      · exact proper_split hdigits hsome (by omega)
      · exact plain_split hhead (by omega)
      · rw [value_split, Option.getD_none]
        congr 2
        omega

theorem placeExponent_eq (hdigits : ∀ c ∈ digits, isDigit c = true)
    (hhead : digits.head? ≠ some '0') (hsome : digits ≠ []) (exponent : ℤ) :
    ∃ n : Numeral, n.chars = placeExponent digits (exponent + digits.length) ∧ n.Proper ∧ n.Plain ∧
      n.decimal.value = digitsValue digits * 10 ^ exponent := by
  have hlength := List.length_pos_iff.mpr hsome
  refine ⟨.split digits 1 (some (exponent + digits.length - 1)), ?_, ?_, ?_, ?_⟩
  · have hone : digits.drop 1 = [] ↔ digits.length ≤ 1 := List.drop_eq_nil_iff
    simp only [Numeral.chars, Numeral.split, pointChars, placeExponent, powerChars, hone,
      Option.elim_some, List.append_assoc]
  · exact proper_split hdigits hsome one_pos
  · exact plain_split hhead one_pos
  · rw [value_split, Option.getD_some]
    congr 2
    omega

end Split

theorem exists_numeral {d : Decimal} (hd : 0 < d.digits) :
    ∃ n : Numeral, n.chars = d.chars ∧ n.Proper ∧ n.Plain ∧ n.decimal.value = d.value := by
  have hdigits := isDigit_of_mem_digitChars (n := d.digits)
  have hhead := head?_digitChars hd
  have hsome := digitChars_ne_nil d.digits
  have hvalue : d.value = digitsValue (digitChars d.digits) * 10 ^ d.exponent := by
    rw [Decimal.value, digitsValue_digitChars]
  rw [Decimal.chars, hvalue]
  split
  · exact placePoint_eq hdigits hhead hsome d.exponent
  · exact placeExponent_eq hdigits hhead hsome d.exponent

theorem exists_numeral_places (places count : ℕ) :
    ∃ n : Numeral, n.chars = placesChars places count ∧ n.Proper ∧
      n.decimal.value = count / 10 ^ places := by
  obtain ⟨padded, hpadded⟩ : ∃ padded, padded =
    List.replicate (places + 1 - (digitChars count).length) '0' ++ digitChars count := ⟨_, rfl⟩
  have hlength : places + 1 ≤ padded.length := by
    rw [hpadded, List.length_append, List.length_replicate]
    omega
  have hdigits : ∀ c ∈ padded, isDigit c = true := by
    rw [hpadded]
    exact List.forall_mem_append.mpr ⟨isDigit_zeros _, isDigit_of_mem_digitChars⟩
  have hsome : padded ≠ [] := List.length_pos_iff.mp (by omega)
  refine ⟨.split padded (padded.length - places) none, ?_,
    proper_split hdigits hsome (by omega), ?_⟩
  · rw [placesChars]
    simp only [← hpadded]
    split
    · next hnone => simp [Numeral.chars, Numeral.split, pointChars, hnone]
    · next hplaces =>
      have hrest : padded.drop (padded.length - places) ≠ [] := by
        rw [Ne, List.drop_eq_nil_iff]
        omega
      simp [Numeral.chars, Numeral.split, pointChars, hrest]
  · have hrest : padded.length - (padded.length - places) = places := by omega
    rw [value_split, hpadded, digitsValue_zeros, digitsValue_digitChars, ← hpadded, hrest,
      Option.getD_none, zero_sub, zpow_neg, zpow_natCast, div_eq_mul_inv]

variable {m : ℕ} {e : ℤ} {hm : 0 < m} {v : ℚ} {f : UnpackedFloat}

/-- The number is rounded to the mantissa at the exponent. It is at most half a unit away, a whole
half just from an even mantissa; below the least mantissa the units are half as large. -/
structure RoundsInto (m : ℕ) (e : ℤ) (v : ℚ) : Prop where
  half : |v / 2 ^ e - m| ≤ 1 / 2
  even : |v / 2 ^ e - m| = 1 / 2 → m % 2 = 0
  narrow : m = 2 ^ 52 → e ≠ -1074 → (m : ℚ) - 1 / 4 ≤ v / 2 ^ e

theorem div_zpow_mul (v : ℚ) (e t : ℤ) : v / 2 ^ t = v / 2 ^ e * 2 ^ (e - t) := by
  rw [zpow_sub₀ two_ne_zero]
  field_simp

theorem eq_of_halves {u : ℚ} {r : ℕ} (hm : |u - m| ≤ 1 / 2) (hm' : |u - m| = 1 / 2 → m % 2 = 0)
    (hr : |u - r| ≤ 1 / 2) (hr' : |u - r| = 1 / 2 → r % 2 = 0) : r = m := by
  obtain ⟨hlow, hhigh⟩ := abs_le.mp hm
  obtain ⟨hlow', hhigh'⟩ := abs_le.mp hr
  rcases lt_trichotomy r m with hlt | heq | hgt
  · have hle : (r : ℚ) + 1 ≤ m := by exact_mod_cast hlt
    have hsucc : m = r + 1 := by
      have hnext : (m : ℚ) ≤ r + 1 := by linarith
      exact le_antisymm (by exact_mod_cast hnext) hlt
    have heven := hm' (by rw [abs_of_nonpos (by linarith)]; linarith)
    have heven' := hr' (by rw [abs_of_nonneg (by linarith)]; linarith)
    omega
  · exact heq
  · have hle : (m : ℚ) + 1 ≤ r := by exact_mod_cast hgt
    have hsucc : r = m + 1 := by
      have hnext : (r : ℚ) ≤ m + 1 := by linarith
      exact le_antisymm (by exact_mod_cast hnext) hgt
    have heven := hm' (by rw [abs_of_nonneg (by linarith)]; linarith)
    have heven' := hr' (by rw [abs_of_nonpos (by linarith)]; linarith)
    omega

/-- A smaller unit than that of the mantissa is the next smaller one, and the number just below the
least mantissa of its length. -/
theorem RoundsInto.value_eq_of_lt {r : ℕ} {t : ℤ} (h : RoundsInto m e v) (hlong : 2 ^ 52 ≤ m)
    (hr : RoundedTo v r t) (hlt : t < e) : (r * 2 ^ t : ℚ) = m * 2 ^ e := by
  have hlow := neg_le_of_abs_le h.half
  have hlong' : (2 : ℚ) ^ 52 ≤ m := by exact_mod_cast hlong
  have hsmall := hr.small
  rw [div_zpow_mul v e t] at hsmall
  -- A unit four times as large would need a mantissa of 54 bits.
  have hnext : e = t + 1 := by
    by_contra hne
    have hpower : (2 : ℚ) ^ (2 : ℤ) ≤ 2 ^ (e - t) := zpow_le_zpow_right₀ (by norm_num) (by omega)
    have hover : (2 ^ 52 - 1 / 2 : ℚ) * 2 ^ (2 : ℤ) ≤ v / 2 ^ e * 2 ^ (e - t) :=
      mul_le_mul (by linarith) hpower (by positivity) (by linarith)
    norm_num at hover hsmall
    linarith
  subst hnext
  rw [add_sub_cancel_left, zpow_one] at hsmall
  obtain rfl : m = 2 ^ 52 := by
    refine le_antisymm ?_ hlong
    have hshort : (m : ℚ) < 2 ^ 52 + 1 := by linarith
    exact Nat.lt_succ_iff.mp (by exact_mod_cast hshort)
  have hnarrow := h.narrow rfl (by have := hr.least; omega)
  have hhalf := hr.half
  have heven := hr.even
  rw [div_zpow_mul v (t + 1) t, add_sub_cancel_left, zpow_one] at hhalf heven
  push_cast at hnarrow
  -- Anything smaller is at best a tie with an odd mantissa.
  have hr' : r = 2 ^ 53 := by
    refine le_antisymm hr.le (not_lt.mp fun hless => ?_)
    have hless' : (r : ℚ) + 1 ≤ 2 ^ 53 := by exact_mod_cast hless
    have hclose := le_of_abs_le hhalf
    have hodd : r + 1 = 2 ^ 53 := by
      refine le_antisymm hless ?_
      have hnear : (2 : ℚ) ^ 53 ≤ r + 1 := by linarith
      exact_mod_cast hnear
    have htie := heven (by rw [abs_of_nonneg (by linarith)]; linarith)
    omega
  rw [hr', zpow_add_one₀ two_ne_zero]
  push_cast
  ring

theorem RoundsInto.le_unit {r : ℕ} {t : ℤ} (h : RoundsInto m e v) (hshort : m < 2 ^ 53)
    (hleast : -1074 ≤ e) (hr : RoundedTo v r t) : t ≤ e := by
  by_contra! hlt
  obtain ⟨hlow, hhigh⟩ := abs_le.mp h.half
  have hshort' : (m : ℚ) + 1 ≤ 2 ^ 53 := by exact_mod_cast hshort
  have hlarge := hr.large.resolve_right (by omega)
  have hpower : (2 : ℚ) ^ (e - t) ≤ 2 ^ (-1 : ℤ) := zpow_le_zpow_right₀ (by norm_num) (by omega)
  have hunder : v / 2 ^ e * 2 ^ (e - t) ≤ (2 ^ 53 - 1 / 2) * 2 ^ (-1 : ℤ) :=
    mul_le_mul (by linarith) hpower (by positivity) (by norm_num)
  rw [div_zpow_mul v e t] at hlarge
  norm_num at hunder hlarge
  linarith

/-- What is rounded gets the value of the mantissa to whose interval it belongs. -/
theorem RoundsInto.value_eq {r : ℕ} {t : ℤ} (h : RoundsInto m e v)
    (hf : Canonical (.finite .positive m e hm)) (hr : RoundedTo v r t) :
    (r * 2 ^ t : ℚ) = m * 2 ^ e := by
  obtain ⟨hshort, hleast, hform⟩ := hf
  obtain hlt | rfl := (h.le_unit hshort hleast hr).lt_or_eq
  · exact h.value_eq_of_lt (hform.resolve_right (by have := hr.least; omega)) hr hlt
  · rw [eq_of_halves h.half h.even hr.half hr.even]

theorem RoundsInto.eq (h : RoundsInto m e v) (hcanonical : Canonical (.finite .positive m e hm))
    (hf : RoundsEven .positive v f) : f = .finite .positive m e hm := by
  obtain ⟨r, t, hr, hform, hvalue⟩ := hf
  have hmagnitude : valueOf f = m * 2 ^ e := hvalue.trans (h.value_eq hcanonical hr)
  refine eq_of_valueOf_eq hform hcanonical hmagnitude ?_
  rw [hmagnitude]
  positivity

section Reading

variable {x y : Float} {w : ℚ} {n k : ℕ} {s : UnpackedFloat.Sign}

theorem Holds.exists_positive (hx : Holds x v) (hv : 0 < v) : ∃ (m : ℕ) (e : ℤ) (hm : 0 < m),
    x.toModel.unpack = .finite .positive m e hm ∧ Canonical (.finite .positive m e hm) ∧
      v = m * 2 ^ e := by
  have hcanonical := canonical_unpack hx.finite
  have hvalue : valueOf x.toModel.unpack = v := hx.value
  generalize x.toModel.unpack = f at hcanonical hvalue
  rcases f with s | _ | s | ⟨s, m, e, hm⟩
  · cases hcanonical
  · cases hcanonical
  · exact absurd hvalue hv.ne
  · have hmagnitude : (0 : ℚ) < m * 2 ^ e := by positivity
    cases s
    · rw [valueOf, signed] at hvalue
      linarith
    · exact ⟨m, e, hm, rfl, hcanonical, hvalue.symm⟩

theorem exists_product (hx : Holds x v) (hy : Holds y w) (hv : 0 < v) (hw : 0 < w) :
    ∃ f, x * y = .ofModel (pack f) ∧ RoundsEven .positive (v * w) f := by
  obtain ⟨m, e, hm, hxform, hcanonical, rfl⟩ := hx.exists_positive hv
  obtain ⟨n, k, hn, hyform, hcanonical', rfl⟩ := hy.exists_positive hw
  refine ⟨UnpackedFloat.mul .binary64 x.toModel.unpack y.toModel.unpack, rfl, ?_⟩
  rw [hxform, hyform]
  exact roundsEven_mul (length_mul hcanonical hcanonical')

theorem exists_quotient (hx : Holds x v) (hy : Holds y w) (hv : 0 < v) (hw : 0 < w) :
    ∃ f, x / y = .ofModel (pack f) ∧ RoundsEven .positive (v / w) f := by
  obtain ⟨m, e, hm, hxform, hcanonical, rfl⟩ := hx.exists_positive hv
  obtain ⟨n, k, hn, hyform, hcanonical', rfl⟩ := hy.exists_positive hw
  refine ⟨UnpackedFloat.div .binary64 x.toModel.unpack y.toModel.unpack, rfl, ?_⟩
  rw [hxform, hyform]
  exact roundsEven_div

def isPowerOfTen (i : ℕ) : UnpackedFloat → Bool
  | .finite .positive m e _ => m * 2 ^ e.toNat == 10 ^ i * 2 ^ (-e).toNat
  | _ => false

theorem isPowerOfTen_powersOfTen (i : Fin 23) :
    isPowerOfTen i Float.exactlyRepresentablePowersOfTen[i].toModel.unpack = true := by
  revert i
  decide

theorem zpow_eq_div (b : ℚ) (hb : b ≠ 0) (e : ℤ) : b ^ e = b ^ e.toNat / b ^ (-e).toNat := by
  rw [← zpow_natCast, ← zpow_natCast, ← zpow_sub₀ hb]
  congr 1
  omega

theorem holds_powersOfTen (i : Fin 23) :
    Holds Float.exactlyRepresentablePowersOfTen[i] (10 ^ (i : ℕ)) := by
  have hpower := isPowerOfTen_powersOfTen i
  generalize Float.exactlyRepresentablePowersOfTen[i] = x at hpower ⊢
  cases hform : x.toModel.unpack with
  | notANumber | infinity s | zero s =>
    rw [hform] at hpower
    cases hpower
  | finite s m e hm =>
    rw [hform] at hpower
    cases s with
    | negative => cases hpower
    | positive =>
      rw [isPowerOfTen, beq_iff_eq] at hpower
      refine ⟨?_, ?_⟩
      · change x.toModel.unpack.isFinite = true
        rw [hform]
        rfl
      · have hscaled : (m : ℚ) * 2 ^ e.toNat = 10 ^ (i : ℕ) * 2 ^ (-e).toNat := by
          exact_mod_cast hpower
        rw [exact, hform, valueOf, signed, zpow_eq_div 2 two_ne_zero, ← mul_div_assoc, hscaled,
          mul_div_cancel_right₀ _ (by positivity)]

theorem roundsEven_ofScientific (hn : 0 < n) (hlow : -(2048 + n.log2 : ℤ) ≤ e) (hhigh : e ≤ 2048) :
    RoundsEven .positive (Decimal.value ⟨n, e⟩) (UnpackedFloat.ofScientific .binary64 n e) := by
  have hbits : Format.binary64.mantissaBits = 53 := rfl
  rw [UnpackedFloat.ofScientific, dif_neg hn.ne', if_neg (by exact not_lt.mpr hhigh),
    if_neg (by exact not_lt.mpr hlow), Decimal.value]
  -- A power of ten that is positive multiplies; the digits are shifted first, to be long enough.
  split
  · next hup =>
    obtain ⟨k, rfl⟩ := Int.eq_ofNat_of_zero_le hup
    have hvalue : (n * 10 ^ (k : ℤ) : ℚ) =
        (n <<< 53 : ℕ) * 2 ^ (-53 : ℤ) * ((10 ^ k : ℕ) * 2 ^ (0 : ℤ)) := by
      have hshift := shiftLeft_mul_zpow n 53 0
      rw [zero_sub, zpow_zero, mul_one] at hshift
      rw [zpow_natCast, zpow_zero, mul_one, Nat.cast_pow]
      exact congrArg (· * (10 : ℚ) ^ k) hshift.symm
    have hlong : 2 ^ 52 ≤ n <<< 53 * 10 ^ k := by
      rw [Nat.shiftLeft_eq]
      nlinarith [Nat.one_le_pow k 10 (by norm_num)]
    simp only [hbits, Int.toNat_natCast, hvalue]
    exact roundsEven_mul (.inl hlong)
  · next hdown =>
    have hvalue : (n * 10 ^ e : ℚ) =
        n * 2 ^ (0 : ℤ) / ((10 ^ (-e).toNat : ℕ) * 2 ^ (0 : ℤ)) := by
      rw [zpow_zero, mul_one, mul_one, div_eq_mul_inv, Nat.cast_pow, ← zpow_natCast, ← zpow_neg]
      congr 2
      omega
    rw [hvalue]
    exact roundsEven_div

theorem exists_ofScientific (hn : 0 < n) (hlow : -(2048 + n.log2 : ℤ) ≤ e) (hhigh : e ≤ 2048) :
    ∃ f, Float.ofScientific n (decide (e < 0)) e.natAbs = .ofModel (pack f) ∧
      RoundsEven .positive (Decimal.value ⟨n, e⟩) f := by
  have hsome : (0 : ℚ) < n := by exact_mod_cast hn
  rw [Float.ofScientific]
  -- Few digits and a small power are exact doubles, so one rounding is all there is.
  split
  · next hfast =>
    have hmantissa := holds_toFloat hfast.1
    have hpower := holds_powersOfTen ⟨e.natAbs, by omega⟩
    rw [Decimal.value]
    by_cases hneg : e < 0
    · have hquotient := exists_quotient hmantissa hpower hsome (by positivity)
      have hexponent : (10 : ℚ) ^ e = (10 ^ e.natAbs)⁻¹ := by
        rw [← zpow_natCast, ← zpow_neg]
        congr 1
        omega
      rw [hexponent, ← div_eq_mul_inv, decide_eq_true hneg]
      exact hquotient
    · have hproduct := exists_product hmantissa hpower hsome (by positivity)
      have hexponent : (10 : ℚ) ^ e = 10 ^ e.natAbs := by
        rw [← zpow_natCast]
        congr 1
        omega
      rw [hexponent, decide_eq_false hneg]
      exact hproduct
  · have hexponent : (if decide (e < 0) = true then Int.negOfNat e.natAbs else Int.ofNat e.natAbs) =
        e := by
      by_cases hneg : e < 0
      · rw [decide_eq_true hneg, if_pos rfl, Int.negOfNat_eq, Int.ofNat_eq_natCast]
        omega
      · rw [decide_eq_false hneg, if_neg Bool.false_ne_true, Int.ofNat_eq_natCast]
        omega
    refine ⟨UnpackedFloat.ofScientific .binary64 n e, ?_, roundsEven_ofScientific hn hlow hhigh⟩
    simp only [hexponent]
    rfl

theorem length_digits_le (n : ℕ) : (Nat.toDigits 10 n).length ≤ n.log2 + 1 := by
  refine (Nat.length_toDigits_le_iff (by norm_num) (Nat.succ_pos _)).mpr ?_
  exact Nat.lt_log2_self.trans_le (Nat.pow_le_pow_left (by norm_num) _)

theorem Decimal.value_bounds {d : Decimal} (hd : d.digits ≠ 0) :
    10 ^ ((Nat.toDigits 10 d.digits).length + d.exponent - 1) ≤ d.value ∧
      d.value < 10 ^ ((Nat.toDigits 10 d.digits).length + d.exponent) := by
  obtain ⟨count, hcount⟩ : ∃ count, (Nat.toDigits 10 d.digits).length = count + 1 :=
    ⟨_, (Nat.succ_pred_eq_of_pos Nat.length_toDigits_pos).symm⟩
  have hunit : (0 : ℚ) < 10 ^ d.exponent := by positivity
  have hhigh : d.digits < 10 ^ (count + 1) :=
    (Nat.length_toDigits_le_iff (by norm_num) (Nat.succ_pos _)).mp hcount.le
  have hlow : 10 ^ count ≤ d.digits := by
    rcases Nat.eq_zero_or_pos count with rfl | hpos
    · exact Nat.one_le_iff_ne_zero.mpr hd
    · refine not_lt.mp fun hless => ?_
      have hshort := (Nat.length_toDigits_le_iff (by norm_num) hpos).mpr hless
      omega
  have hlow' : (10 : ℚ) ^ count ≤ d.digits := by exact_mod_cast hlow
  have hhigh' : (d.digits : ℚ) < 10 ^ (count + 1) := by exact_mod_cast hhigh
  rw [hcount, Decimal.value]
  constructor
  · rw [show ((count + 1 : ℕ) : ℤ) + d.exponent - 1 = count + d.exponent by push_cast; ring,
      zpow_add₀ (by norm_num), zpow_natCast]
    exact mul_le_mul_of_nonneg_right hlow' hunit.le
  · rw [zpow_add₀ (by norm_num), zpow_natCast]
    exact mul_lt_mul_of_pos_right hhigh' hunit

theorem two_zpow_le_ten_pow {t : ℤ} {n : ℕ} (h : t ≤ 3 * n) : (2 : ℚ) ^ t ≤ 10 ^ n := by
  calc (2 : ℚ) ^ t ≤ 2 ^ ((3 * n : ℕ) : ℤ) := zpow_le_zpow_right₀ (by norm_num) (by omega)
    _ = (2 ^ 3) ^ n := by rw [zpow_natCast, pow_mul]
    _ ≤ 10 ^ n := pow_le_pow_left₀ (by norm_num) (by norm_num) n

theorem RoundsInto.bounds (h : RoundsInto m e v) (hcanonical : Canonical (.finite .positive m e hm))
    (he : e ≤ 971) : (10 : ℚ) ^ (-(400 : ℕ) : ℤ) ≤ v ∧ v < 10 ^ ((400 : ℕ) : ℤ) := by
  obtain ⟨hshort, hleast, -⟩ := hcanonical
  obtain ⟨hlow, hhigh⟩ := abs_le.mp h.half
  have hunit : (0 : ℚ) < 2 ^ e := by positivity
  have hsome : (1 : ℚ) ≤ m := by exact_mod_cast hm
  have hshort' : (m : ℚ) + 1 ≤ 2 ^ 53 := by exact_mod_cast hshort
  have hlower : 2⁻¹ * 2 ^ e ≤ v := (le_div_iff₀ hunit).mp (by linarith)
  have hupper : v ≤ 2 ^ 53 * 2 ^ e := (div_le_iff₀ hunit).mp (by linarith)
  constructor
  · calc (10 : ℚ) ^ (-(400 : ℕ) : ℤ) = (10 ^ 400)⁻¹ := by rw [zpow_neg, zpow_natCast]
      _ ≤ (2 ^ (1 - e))⁻¹ := inv_anti₀ (by positivity) (two_zpow_le_ten_pow (n := 400) (by omega))
      _ = 2⁻¹ * 2 ^ e := by rw [← zpow_neg, neg_sub, sub_eq_neg_add, zpow_add₀ two_ne_zero]; rfl
      _ ≤ v := hlower
  · calc v ≤ 2 ^ 53 * 2 ^ e := hupper
      _ = 2 ^ (53 + e) := by rw [zpow_add₀ two_ne_zero]; rfl
      _ ≤ 10 ^ 399 := two_zpow_le_ten_pow (n := 399) (by omega)
      _ < 10 ^ ((400 : ℕ) : ℤ) := by
          rw [zpow_natCast]
          exact pow_lt_pow_right₀ (by norm_num) (by norm_num)

/-- A decimal in the interval of a double is read as the double. -/
theorem RoundsInto.unpack_toFloat {d : Decimal} (h : RoundsInto m e d.value)
    (hcanonical : Canonical (.finite .positive m e hm)) (he : e ≤ 971) :
    d.toFloat.toModel.unpack = .finite .positive m e hm := by
  obtain ⟨hlow, hhigh⟩ := h.bounds hcanonical he
  have hsome : d.digits ≠ 0 := by
    intro hzero
    rw [Decimal.value, hzero, Nat.cast_zero, zero_mul] at hlow
    exact absurd hlow (not_le.mpr (by positivity))
  obtain ⟨hleading, hnext⟩ := Decimal.value_bounds hsome
  have hsize : ¬(Decimal.toFloat.digitsCount d.digits : ℤ) + d.exponent > 400 := by
    rw [Decimal.toFloat.digitsCount]
    have hless :=
      (zpow_lt_zpow_iff_right₀ (by norm_num : (1 : ℚ) < 10)).mp (hleading.trans_lt hhigh)
    omega
  have hsize' : ¬(Decimal.toFloat.digitsCount d.digits : ℤ) + d.exponent < -400 := by
    rw [Decimal.toFloat.digitsCount]
    have hless := (zpow_lt_zpow_iff_right₀ (by norm_num : (1 : ℚ) < 10)).mp (hlow.trans_lt hnext)
    omega
  -- So the decimal is none of those that are recognised by their size alone.
  have hlength := length_digits_le d.digits
  obtain ⟨f, hread, hrounds⟩ := exists_ofScientific (n := d.digits) (e := d.exponent)
    (Nat.pos_of_ne_zero hsome) (by rw [Decimal.toFloat.digitsCount] at hsize'; omega)
    (by rw [Decimal.toFloat.digitsCount] at hsize; omega)
  rw [Decimal.toFloat, if_neg hsome]
  dsimp only
  rw [if_neg hsize, if_neg hsize', hread, h.eq hcanonical hrounds]
  exact unpack_pack_finite hcanonical he

end Reading

section Shortest

variable {n p fuel places : ℕ} {k : ℤ} {negative : Bool} {d : Decimal} {i : Interval}

/-- The lower end of the interval of a mantissa, in its units. -/
def lowerEnd (m : ℕ) (e : ℤ) : ℚ := if m = 2 ^ 52 ∧ e ≠ -1074 then m - 1 / 4 else m - 1 / 2

theorem lowerEnd_bounds (m : ℕ) (e : ℤ) : (m : ℚ) - 1 / 2 ≤ lowerEnd m e := by
  rw [lowerEnd]
  split <;> linarith

theorem interval_ends (negative : Bool) (e : ℤ) (hm : 0 < m) : ∃ low up,
    (Binary.interval ⟨negative, m, e⟩) =
    ⟨low * up, 4 * m * up, (4 * m + 2) * up, 2 ^ (2 - e).toNat, m % 2 == 0⟩ ∧
      (low : ℚ) / 4 = lowerEnd m e ∧ (up : ℚ) / 2 ^ (2 - e).toNat = 2 ^ e / 4 := by
  have hunit : ((2 ^ (e - 2).toNat : ℕ) : ℚ) / 2 ^ (2 - e).toNat = 2 ^ e / 4 := by
    have hpower := zpow_eq_div 2 two_ne_zero (e - 2)
    rw [neg_sub, zpow_sub₀ two_ne_zero] at hpower
    rw [Nat.cast_pow]
    norm_num at hpower ⊢
    exact hpower.symm
  rw [Binary.interval]
  -- Below a power of two the next double is only half as far.
  by_cases hnarrow : m = 2 ^ 52 ∧ e ≠ -1074
  · refine ⟨4 * m - 1, 2 ^ (e - 2).toNat, ?_, ?_, hunit⟩
    · have hcheck : (m == Nat.pow 2 52 && e != -1074) = true := by
        simpa using hnarrow
      simp only [hcheck, if_true, neg_sub]
      rfl
    · rw [lowerEnd, if_pos hnarrow, Nat.cast_sub (by omega)]
      push_cast
      ring
  · refine ⟨4 * m - 2, 2 ^ (e - 2).toNat, ?_, ?_, hunit⟩
    · have hcheck : (m == Nat.pow 2 52 && e != -1074) = false := by
        rw [Bool.eq_false_iff]
        simpa using hnarrow
      simp only [hcheck, neg_sub]
      rfl
    · rw [lowerEnd, if_neg hnarrow, Nat.cast_sub (by omega)]
      push_cast
      ring

theorem holds_iff (hm : 0 < m) : (Binary.interval ⟨negative, m, e⟩).holds n k = true ↔
    if m % 2 = 0 then lowerEnd m e ≤ Decimal.value ⟨n, k⟩ / 2 ^ e ∧
        Decimal.value ⟨n, k⟩ / 2 ^ e ≤ m + 1 / 2
      else lowerEnd m e < Decimal.value ⟨n, k⟩ / 2 ^ e ∧
        Decimal.value ⟨n, k⟩ / 2 ^ e < m + 1 / 2 := by
  obtain ⟨low, up, hform, hlow, hup⟩ := interval_ends negative e hm
  obtain ⟨unit, hunit⟩ : ∃ unit : ℚ, unit = 2 ^ e := ⟨_, rfl⟩
  obtain ⟨common, hcommon⟩ : ∃ common : ℚ, common = 2 ^ (2 - e).toNat * unit * 10 ^ (-k).toNat :=
    ⟨_, rfl⟩
  have hpositive : 0 < common := by
    rw [hcommon, hunit]
    positivity
  -- Both comparisons are made over one denominator, which cancels.
  have hend (a : ℕ) : ((a * up * 10 ^ (-k).toNat : ℕ) : ℚ) = a / 4 * common := by
    rw [div_eq_iff (by positivity), ← hunit] at hup
    push_cast
    rw [hup, hcommon]
    ring
  have hpoint : ((n * 10 ^ k.toNat * 2 ^ (2 - e).toNat : ℕ) : ℚ) =
      Decimal.value ⟨n, k⟩ / unit * common := by
    rw [Decimal.value, zpow_eq_div 10 (by norm_num), hcommon, hunit]
    push_cast
    field_simp
  have hhigh : ((4 * m + 2 : ℕ) : ℚ) / 4 = m + 1 / 2 := by
    push_cast
    ring
  have hle (a b : ℚ) : a * common ≤ b * common ↔ a ≤ b := mul_le_mul_iff_left₀ hpositive
  have hlt (a b : ℚ) : a * common < b * common ↔ a < b := mul_lt_mul_iff_left₀ hpositive
  rw [hform, Interval.holds, ← hunit, ← hlow, ← hhigh]
  simp only [Nat.pow_eq, beq_iff_eq]
  split
  · rw [Bool.and_eq_true, decide_eq_true_iff, decide_eq_true_iff, ← hle (low / 4),
      ← hle _ ((4 * m + 2 : ℕ) / 4), ← hend, ← hend, ← hpoint, Nat.cast_le, Nat.cast_le]
  · rw [Bool.and_eq_true, decide_eq_true_iff, decide_eq_true_iff, ← hlt (low / 4),
      ← hlt _ ((4 * m + 2 : ℕ) / 4), ← hend, ← hend, ← hpoint, Nat.cast_lt, Nat.cast_lt]

theorem roundsInto_of_holds (hm : 0 < m)
    (h : (Binary.interval ⟨negative, m, e⟩).holds n k = true) :
    RoundsInto m e (Decimal.value ⟨n, k⟩) := by
  rw [holds_iff hm] at h
  have hlower := lowerEnd_bounds m e
  generalize Decimal.value ⟨n, k⟩ = v at h
  have hends : lowerEnd m e ≤ v / 2 ^ e ∧ v / 2 ^ e ≤ m + 1 / 2 := by
    split at h
    · exact h
    · exact ⟨h.1.le, h.2.le⟩
  refine ⟨abs_le.mpr ⟨by linarith [hends.1], by linarith [hends.2]⟩, fun hhalf => ?_, ?_⟩
  · by_contra hodd
    rw [if_neg hodd] at h
    exact (abs_lt.mpr ⟨by linarith [h.1], by linarith [h.2]⟩).ne hhalf
  · intro hleast hexponent
    have hnarrow := hends.1
    rwa [lowerEnd, if_pos ⟨hleast, hexponent⟩] at hnarrow

theorem holds_of_near (hm : 0 < m) (h : |Decimal.value ⟨n, k⟩ / 2 ^ e - m| < 1 / 2)
    (hleast : m = 2 ^ 52 → |Decimal.value ⟨n, k⟩ / 2 ^ e - m| < 1 / 4) :
    (Binary.interval ⟨negative, m, e⟩).holds n k = true := by
  rw [holds_iff hm]
  generalize Decimal.value ⟨n, k⟩ = v at *
  have hends : lowerEnd m e < v / 2 ^ e ∧ v / 2 ^ e < m + 1 / 2 := by
    obtain ⟨hlow, hhigh⟩ := abs_lt.mp h
    refine ⟨?_, by linarith⟩
    rw [lowerEnd]
    split
    · next hnarrow => linarith [(abs_lt.mp (hleast hnarrow.1)).1]
    · linarith
  split
  · exact ⟨hends.1.le, hends.2.le⟩
  · exact hends

theorem leadingUp_le (fuel : ℕ) {numerator denominator : ℕ} (h : denominator ≤ numerator) :
    (10 : ℚ) ^ leadingUp fuel numerator denominator * denominator ≤ numerator := by
  induction fuel generalizing denominator with
  | zero =>
    rw [leadingUp, zpow_zero, one_mul]
    exact_mod_cast h
  | succ fuel ih =>
    rw [leadingUp]
    split
    · rw [zpow_zero, one_mul]
      exact_mod_cast h
    · next hlarge =>
      have hnext := ih (not_lt.mp hlarge)
      rw [zpow_add₀ (by norm_num), zpow_one]
      push_cast at hnext
      linarith

theorem leadingDown_le {numerator denominator : ℕ} (h : denominator ≤ numerator * 10 ^ fuel) :
    (10 : ℚ) ^ leadingDown fuel numerator denominator * denominator ≤ numerator := by
  induction fuel generalizing numerator with
  | zero =>
    rw [leadingDown, zpow_zero, one_mul]
    rw [pow_zero, mul_one] at h
    exact_mod_cast h
  | succ fuel ih =>
    rw [leadingDown]
    split
    · next hlarge =>
      rw [zpow_zero, one_mul]
      exact_mod_cast hlarge
    · have hmore : denominator ≤ 10 * numerator * 10 ^ fuel := by
        rw [pow_succ] at h
        linarith
      have hnext := ih hmore
      rw [zpow_sub₀ (by norm_num), zpow_one]
      push_cast at hnext
      linarith

/-- The value of a double has its leading digit at most one place before the power. -/
theorem leading_le (negative : Bool) (hcanonical : Canonical (.finite .positive m e hm)) :
    (10 : ℚ) ^ (Binary.interval ⟨negative, m, e⟩).leading ≤ m * 2 ^ e := by
  obtain ⟨low, up, hform, -, hup⟩ := interval_ends negative e hm
  have hdenominator : (0 : ℚ) < 2 ^ (2 - e).toNat := by positivity
  have hvalue : ((4 * m * up : ℕ) : ℚ) = m * 2 ^ e * 2 ^ (2 - e).toNat := by
    rw [div_eq_iff hdenominator.ne'] at hup
    push_cast
    rw [hup]
    ring
  refine le_of_mul_le_mul_right ?_ hdenominator
  rw [← hvalue, hform, Interval.leading]
  dsimp only
  -- Doubles are so far from zero that the search downwards does not run out of fuel.
  split
  · next hup =>
    have hleading := leadingUp_le 400 hup
    push_cast at hleading ⊢
    exact hleading
  · have hsome : 0 < 4 * m * up := by
      have hpositive : (0 : ℚ) < (4 * m * up : ℕ) := by
        rw [hvalue]
        positivity
      exact_mod_cast hpositive
    have hsmall : 2 ^ (2 - e).toNat ≤ 10 ^ 400 := by
      have hleast := hcanonical.2.1
      have hpower := two_zpow_le_ten_pow (t := (2 - e).toNat) (n := 400) (by omega)
      rw [zpow_natCast] at hpower
      exact_mod_cast hpower
    have hfuel := hsmall.trans (Nat.le_mul_of_pos_left (10 ^ 400) hsome)
    have hleading := leadingDown_le hfuel
    push_cast at hleading ⊢
    exact hleading

/-- One of the neighbours of the value is on a grid, if either of them is in the interval. -/
theorem grid_neighbours (negative : Bool) (hm : 0 < m) (k : ℤ) : ∃ below : ℕ,
    (below : ℚ) * 10 ^ k ≤ m * 2 ^ e ∧ (m * 2 ^ e : ℚ) < (below + 1 : ℕ) * 10 ^ k ∧
      ((Binary.interval ⟨negative, m, e⟩).onGrid k = none →
        (Binary.interval ⟨negative, m, e⟩).holds below k = false ∧
          (Binary.interval ⟨negative, m, e⟩).holds (below + 1) k = false) := by
  obtain ⟨low, up, hform, -, hup⟩ := interval_ends negative e hm
  obtain ⟨common, hcommon⟩ : ∃ common : ℚ, common = 2 ^ (2 - e).toNat * 10 ^ (-k).toNat := ⟨_, rfl⟩
  have hpositive : 0 < common := by
    rw [hcommon]
    positivity
  have hvalue : ((4 * m * up * 10 ^ (-k).toNat : ℕ) : ℚ) = m * 2 ^ e * common := by
    rw [div_eq_iff (by positivity)] at hup
    push_cast
    rw [hup, hcommon]
    ring
  have hgrid (n : ℕ) : ((n * (2 ^ (2 - e).toNat * 10 ^ k.toNat) : ℕ) : ℚ) =
      n * 10 ^ k * common := by
    rw [zpow_eq_div 10 (by norm_num) k, hcommon]
    push_cast
    field_simp
  have hunit : 0 < 2 ^ (2 - e).toNat * 10 ^ k.toNat := by positivity
  refine ⟨4 * m * up * 10 ^ (-k).toNat / (2 ^ (2 - e).toNat * 10 ^ k.toNat), ?_, ?_, ?_⟩
  · have hdiv := Nat.div_mul_le_self (4 * m * up * 10 ^ (-k).toNat)
      (2 ^ (2 - e).toNat * 10 ^ k.toNat)
    rw [← Nat.cast_le (α := ℚ), hgrid, hvalue] at hdiv
    exact le_of_mul_le_mul_right hdiv hpositive
  · have hdiv := Nat.lt_mul_of_div_lt (Nat.lt_succ_self (4 * m * up * 10 ^ (-k).toNat / _)) hunit
    rw [← Nat.cast_lt (α := ℚ), hgrid, hvalue] at hdiv
    exact lt_of_mul_lt_mul_right hdiv hpositive.le
  · intro hnone
    rw [hform] at hnone ⊢
    rw [Interval.onGrid] at hnone
    simp only at hnone
    split at hnone
    · cases hnone
    · cases hnone
    · cases hnone
    · next hbelow habove => exact ⟨hbelow, habove⟩

theorem holds_onGrid {i : Interval} (h : i.onGrid k = some d) :
    i.holds d.digits d.exponent = true := by
  rw [Interval.onGrid] at h
  split at h
  · next hbelow habove =>
    cases h
    split
    · exact habove
    · exact hbelow
  · next hbelow habove =>
    cases h
    exact hbelow
  · next hbelow habove =>
    cases h
    exact habove
  · cases h

theorem holds_firstHit {i : Interval} {leading : ℤ} (hle : places ≤ p) (hfuel : p < places + fuel)
    (hhit : i.onGrid (leading - p + 1) ≠ none) :
    i.holds (i.firstHit leading fuel places).digits (i.firstHit leading fuel places).exponent =
      true := by
  induction fuel generalizing places with
  | zero => omega
  | succ fuel ih =>
    rw [Interval.firstHit]
    split
    · next d hd => exact holds_onGrid hd
    · next hnone =>
      have hne : places ≠ p := by
        rintro rfl
        exact hhit hnone
      exact ih (by omega) (by omega)

theorem value_strip (d : Decimal) (fuel : ℕ) : (d.strip fuel).value = d.value := by
  induction fuel generalizing d with
  | zero => rfl
  | succ fuel ih =>
    rw [Decimal.strip]
    split
    · next hzero =>
      have hdigits : (d.digits : ℚ) = (d.digits / 10 : ℕ) * 10 := by
        exact_mod_cast (Nat.div_mul_cancel (Nat.dvd_of_mod_eq_zero hzero.2)).symm
      rw [ih, Decimal.value, Decimal.value, hdigits, zpow_add_one₀ (by norm_num)]
      ring
    · rfl

/-- Among 17 digits there is one in the interval: the grid is finer than a quarter of a unit. -/
theorem onGrid_ne_none (hcanonical : Canonical (.finite .positive m e hm))
    (hk : (10 : ℚ) ^ (k + 16) ≤ m * 2 ^ e) :
    (Binary.interval ⟨negative, m, e⟩).onGrid k ≠ none := by
  intro hnone
  obtain ⟨below, hlow, hhigh, hmissed⟩ := grid_neighbours negative hm k
  obtain ⟨hmissed, hmissed'⟩ := hmissed hnone
  have hunit : (0 : ℚ) < 2 ^ e := by positivity
  obtain ⟨step, hstep⟩ : ∃ step : ℚ, step = 10 ^ k / 2 ^ e := ⟨_, rfl⟩
  have hpositive : 0 < step := by
    rw [hstep]
    positivity
  have hfine : step * 10 ^ 16 ≤ m := by
    rw [hstep, div_mul_eq_mul_div, div_le_iff₀ hunit]
    rwa [zpow_add₀ (by norm_num)] at hk
  have hscaled (n : ℕ) : Decimal.value ⟨n, k⟩ / 2 ^ e = n * step := by
    rw [Decimal.value, hstep, mul_div_assoc]
  have hlow' : below * step ≤ m := by
    rwa [hstep, ← mul_div_assoc, div_le_iff₀ hunit]
  have hhigh' : (m : ℚ) < (below + 1 : ℕ) * step := by
    rwa [hstep, ← mul_div_assoc, lt_div_iff₀ hunit]
  have hshort : (m : ℚ) < 2 ^ 53 := by exact_mod_cast hcanonical.1
  have hnear (n : ℕ) (hn : |n * step - m| ≤ step / 2) :
      (Binary.interval ⟨negative, m, e⟩).holds n k = true := by
    refine holds_of_near hm ?_ fun hleast => ?_
    · rw [hscaled]
      linarith
    · have hleast' : (m : ℚ) = 2 ^ 52 := by exact_mod_cast hleast
      rw [hscaled]
      linarith
  push_cast at hhigh'
  -- The nearer neighbour is half a step away at most.
  rcases le_or_gt (m - below * step) (step / 2) with hclose | hfar
  · have hholds := hnear below (by rw [abs_of_nonpos (by linarith)]; linarith)
    rw [hmissed] at hholds
    cases hholds
  · have hholds := hnear (below + 1) (by
      push_cast
      rw [abs_of_nonneg (by linarith)]
      linarith)
    rw [hmissed'] at hholds
    cases hholds

/-- The shortest decimal is rounded to the mantissa that it is made from. -/
theorem roundsInto_shortest (hcanonical : Canonical (.finite .positive m e hm)) :
    RoundsInto m e (Binary.shortest ⟨negative, m, e⟩).value := by
  rw [Binary.shortest, value_strip]
  generalize hi : Binary.interval ⟨negative, m, e⟩ = i
  have hhit : i.onGrid (i.leading - (17 : ℕ) + 1) ≠ none := by
    have hpower : i.leading - (17 : ℕ) + 1 + 16 = i.leading := by
      push_cast
      ring
    subst hi
    refine onGrid_ne_none hcanonical ?_
    rw [hpower]
    exact leading_le negative hcanonical
  have hholds : i.holds (i.firstHit i.leading 17 1).digits (i.firstHit i.leading 17 1).exponent =
      true := holds_firstHit (by norm_num) (by norm_num) hhit
  generalize i.firstHit i.leading 17 1 = d at hholds ⊢
  rw [← hi] at hholds
  exact roundsInto_of_holds hm hholds

end Shortest

section Text

variable {x : Float} {s : UnpackedFloat.Sign}

theorem RoundsInto.nearest (h : RoundsInto m e v)
    (hcanonical : Canonical (.finite .positive m e hm)) : Nearest v (m * 2 ^ e) := by
  obtain ⟨hshort, hleast, hform⟩ := hcanonical
  obtain ⟨hlow, hhigh⟩ := abs_le.mp h.half
  have hself (t : ℤ) : v / 2 ^ t * 2 ^ t = v := div_mul_cancel₀ v (by positivity)
  by_cases hwide : 2 ^ 52 ≤ v / 2 ^ e ∨ e = -1074
  · have hnearest := nearest_of_half hshort.le hleast hwide h.half
    rwa [hself] at hnearest
  · -- Just below the least mantissa of its length the units are half as large.
    obtain ⟨hbelow, hexponent⟩ := not_or.mp hwide
    have hlong := hform.resolve_right hexponent
    have hlong' : (2 : ℚ) ^ 52 ≤ m := by exact_mod_cast hlong
    obtain rfl : m = 2 ^ 52 := by
      refine le_antisymm ?_ hlong
      have hless : (m : ℚ) < 2 ^ 52 + 1 := by linarith
      exact Nat.lt_succ_iff.mp (by exact_mod_cast hless)
    have hnarrow := h.narrow rfl hexponent
    have hhalved : v / 2 ^ (e - 1) = 2 * (v / 2 ^ e) := by
      rw [div_zpow_mul v e (e - 1), sub_sub_cancel, zpow_one, mul_comm]
    push_cast at hnarrow hlow hhigh
    have hnearest := nearest_of_half (r := 2 ^ 53) (t := e - 1) le_rfl (by omega)
      (u := v / 2 ^ (e - 1)) (.inl (by rw [hhalved]; linarith))
      (by rw [hhalved]; push_cast; exact abs_le.mpr ⟨by linarith, by linarith⟩)
    have hsame : ((2 ^ 53 : ℕ) : ℚ) * 2 ^ (e - 1) = (2 ^ 52 : ℕ) * 2 ^ e := by
      rw [zpow_sub_one₀ two_ne_zero]
      push_cast
      ring
    rwa [hself, hsame] at hnearest

def mirrored {α : Type} [Neg α] (negative : Bool) (a : α) : α := if negative then -a else a

/-- The numeral that a double is written as, after its sign. It is read as the double again, and the
double is a nearest one to its value. -/
structure Written (x : Float) (negative : Bool) (n : Numeral) : Prop where
  chars : (text x).toList = (if negative then ['-'] else []) ++ n.chars
  proper : n.Proper
  plain : n.Plain
  read : Holds (mirrored negative n.decimal.toFloat) (exact x)
  nearest : Nearest (mirrored negative n.decimal.value) (exact x)

theorem written_zero (hzero : x.toModel.unpack = .zero s) :
    Written x false ⟨['0'], [], none⟩ where
  chars := by
    rw [text, reading_eq, hzero]
    change (String.ofList ['0']).toList = _
    rw [String.toList_ofList]
    rfl
  proper := by
    refine ⟨List.cons_ne_nil _ _, fun c hc => ?_, fun c hc => absurd hc List.not_mem_nil⟩
    rw [List.mem_singleton.mp hc]
    rfl
  plain := .inl rfl
  read := by
    rw [exact, hzero]
    exact ⟨rfl, rfl⟩
  nearest := by
    have hvalue : (Numeral.decimal ⟨['0'], [], none⟩).value = 0 := zero_mul _
    rw [exact, hzero, mirrored, if_neg Bool.false_ne_true, hvalue]
    exact nearest_self holdable_zero

theorem written_finite (hcanonical : Canonical (.finite s m e hm)) (he : e ≤ 971)
    (hform : x.toModel.unpack = .finite s m e hm) : ∃ n, Written x (s == .negative) n := by
  have hpositive : Canonical (.finite .positive m e hm) := hcanonical
  have hinto : RoundsInto m e (Binary.shortest ⟨s == .negative, m, e⟩).value :=
    roundsInto_shortest hpositive
  have hsome : 0 < (Binary.shortest ⟨s == .negative, m, e⟩).digits := by
    refine Nat.pos_of_ne_zero fun hzero => ?_
    have hbound := (hinto.bounds hpositive he).1
    rw [Decimal.value, hzero, Nat.cast_zero, zero_mul] at hbound
    exact absurd hbound (not_le.mpr (by positivity))
  -- The shortest decimal is in the interval, and so it is read as the double.
  obtain ⟨n, hchars, hproper, hplain, hvalue⟩ := exists_numeral hsome
  rw [← hvalue] at hinto
  have hread := hinto.unpack_toFloat hpositive he
  have hholds : Holds n.decimal.toFloat (m * 2 ^ e) := by
    refine ⟨?_, ?_⟩
    · change n.decimal.toFloat.toModel.unpack.isFinite = true
      rw [hread]
      rfl
    · rw [exact, hread]
      rfl
  have hnearest := hinto.nearest hpositive
  refine ⟨n, ⟨?_, hproper, hplain, ?_, ?_⟩⟩
  · rw [text, reading_eq, hform, readingOf, hchars]
    simp only [hm.ne', if_false, String.toList_ofList]
  · rw [exact, hform]
    cases s
    · exact hholds.neg
    · exact hholds
  · rw [exact, hform]
    cases s
    · exact hnearest.neg
    · exact hnearest

theorem exists_written (hx : x.isFinite = true) : ∃ negative n, Written x negative n := by
  have hcanonical := canonical_unpack hx
  cases hform : x.toModel.unpack with
  | notANumber | infinity s =>
    rw [hform] at hcanonical
    cases hcanonical
  | zero s => exact ⟨_, _, written_zero hform⟩
  | finite s m e hm =>
    rw [hform] at hcanonical
    exact ⟨_, written_finite hcanonical (exponent_le hform) hform⟩

end Text

section Equality

variable {x y z : Float}

theorem eq_or_zeros {f g : UnpackedFloat} (h : f.compare g = some .eq) :
    f = g ∨ ∃ s t, f = .zero s ∧ g = .zero t := by
  rcases f with (_ | _) | _ | s | ⟨(_ | _), m, e, hm⟩ <;>
    rcases g with (_ | _) | _ | t | ⟨(_ | _), n, k, hn⟩ <;>
    simp_all [UnpackedFloat.compare, Ordering.then_eq_eq]

theorem beq_symm (h : (x == y) = true) : (y == x) = true := by
  change (x.toModel.unpack.compare y.toModel.unpack == some .eq) = true at h
  change (y.toModel.unpack.compare x.toModel.unpack == some .eq) = true
  rw [← swap_compare, beq_iff_eq.mp h]
  rfl

theorem beq_trans (h : (x == y) = true) (h' : (y == z) = true) : (x == z) = true := by
  change (x.toModel.unpack.compare y.toModel.unpack == some .eq) = true at h
  change (y.toModel.unpack.compare z.toModel.unpack == some .eq) = true at h'
  change (x.toModel.unpack.compare z.toModel.unpack == some .eq) = true
  rw [beq_iff_eq] at h h' ⊢
  obtain heq | ⟨s, t, hx, hy⟩ := eq_or_zeros h
  · rwa [heq]
  · obtain heq | ⟨-, u, -, hz⟩ := eq_or_zeros h'
    · rwa [← heq]
    · rw [hx, hz]
      rfl

theorem text_congr (h : (x == y) = true) : text x = text y := by
  change (x.toModel.unpack.compare y.toModel.unpack == some .eq) = true at h
  rw [text, text, reading_eq, reading_eq]
  obtain heq | ⟨s, t, hx, hy⟩ := eq_or_zeros (beq_iff_eq.mp h)
  · rw [heq]
  · rw [hx, hy]
    rfl

end Equality

section Order

variable {f g : UnpackedFloat} {x y t : Float} {v : ℚ}

theorem unpack_pack_of_finite (hf : Canonical f) (hfinite : (pack f).unpack.isFinite = true) :
    (pack f).unpack = f := by
  rcases f with s | _ | s | ⟨s, m, e, hm⟩
  · cases hf
  · cases hf
  · exact UnpackedFloat.unpack_packedZero
  · refine unpack_pack_finite hf (not_lt.mp fun hlarge => ?_)
    have hreserved : 2 ^ 11 ≤ (e + (1023 : ℕ) + (52 : ℕ)).toNat + 1 := by omega
    change (UnpackedFloat.unpack .binary64 (if 2 ^ 11 ≤ (e + (1023 : ℕ) + (52 : ℕ)).toNat + 1 then
      UnpackedFloat.packedInfinity .binary64 s else _)).isFinite = true at hfinite
    rw [if_pos hreserved] at hfinite
    cases s <;> cases hfinite

theorem unpack_pack_of_le (hf : Canonical f) (hg : Canonical g)
    (hfinite : (pack g).unpack.isFinite = true) (hle : |valueOf f| ≤ |valueOf g|) :
    (pack f).unpack = f := by
  have hg' := unpack_pack_of_finite hg hfinite
  rcases f with s | _ | s | ⟨s, m, e, hm⟩
  · cases hf
  · cases hf
  · exact UnpackedFloat.unpack_packedZero
  · have hsome : (0 : ℚ) < m * 2 ^ e := by positivity
    rw [valueOf, abs_signed, abs_of_pos hsome] at hle
    rcases g with t | _ | t | ⟨t, n, k, hn⟩
    · cases hg
    · cases hg
    · exact absurd hle (not_le.mpr (abs_zero.trans_lt hsome))
    · have hk : k ≤ 971 := exponent_le (x := .ofModel (pack (.finite t n k hn))) hg'
      rw [valueOf, abs_signed, abs_of_pos (by positivity)] at hle
      have hf' : Canonical (.finite .positive m e hm) := hf
      have hg'' : Canonical (.finite .positive n k hn) := hg
      exact unpack_pack_finite hf (not_lt.mp fun he =>
        absurd (magnitude_lt hg'' hf' (hk.trans_lt he)) (not_lt.mpr hle))

theorem not_isFinite_pack (hf : f.isFinite = false) : (pack f).unpack.isFinite = false := by
  cases f with
  | notANumber => rfl
  | infinity s => cases s <;> rfl
  | zero s | finite s m e hm => cases hf

theorem isFinite_of_add (h : (x + y).isFinite = true) : x.isFinite = true ∧ y.isFinite = true := by
  change (pack (UnpackedFloat.add .binary64 x.toModel.unpack y.toModel.unpack)).unpack.isFinite =
    true at h
  change x.toModel.unpack.isFinite = true ∧ y.toModel.unpack.isFinite = true
  generalize x.toModel.unpack = f at h ⊢
  generalize y.toModel.unpack = g at h ⊢
  by_contra hnot
  have hinfinite : (UnpackedFloat.add .binary64 f g).isFinite = false := by
    rcases f with s | _ | s | ⟨s, m, e, hm⟩ <;> rcases g with t | _ | t | ⟨t, n, k, hn⟩ <;>
      first
      | rfl
      | exact absurd ⟨rfl, rfl⟩ hnot
      | cases s <;> cases t <;> rfl
  rw [not_isFinite_pack hinfinite] at h
  cases h

theorem isFinite_of_div (h : (x / y).isFinite = true) : x.isFinite = true := by
  change (pack (UnpackedFloat.div .binary64 x.toModel.unpack y.toModel.unpack)).unpack.isFinite =
    true at h
  change x.toModel.unpack.isFinite = true
  generalize x.toModel.unpack = f at h ⊢
  generalize y.toModel.unpack = g at h ⊢
  cases f with
  | zero s | finite s m e hm => rfl
  | infinity s | notANumber =>
    rw [not_isFinite_pack (by cases g <;> rfl)] at h
    cases h

theorem holds_div_infinite (hx : x.isFinite = true) (hpositive : 0 < y)
    (hinfinite : y.isFinite = false) : Holds (x / y) 0 := by
  have hcanonical := canonical_unpack hx
  have hless : (UnpackedFloat.zero .positive).compare y.toModel.unpack = some .lt :=
    lt_iff.mp hpositive
  change y.toModel.unpack.isFinite = false at hinfinite
  obtain ⟨s, hquotient⟩ : ∃ s, (x / y).toModel.unpack = .zero s := by
    change ∃ s, (pack (UnpackedFloat.div .binary64 x.toModel.unpack y.toModel.unpack)).unpack =
      .zero s
    -- Zero and every finite number come to a zero, and a positive infinity is the only case left.
    generalize y.toModel.unpack = g at hinfinite hless
    generalize x.toModel.unpack = f at hcanonical
    rcases g with s | _ | s | ⟨s, m, e, hm⟩
    · rcases f with t | _ | t | ⟨t, n, k, hn⟩
      · cases hcanonical
      · cases hcanonical
      · exact ⟨_, UnpackedFloat.unpack_packedZero⟩
      · exact ⟨_, UnpackedFloat.unpack_packedZero⟩
    · cases hless
    · cases hinfinite
    · cases hinfinite
  constructor
  · change (x / y).toModel.unpack.isFinite = true
    rw [hquotient]
    rfl
  · rw [exact, hquotient]
    rfl

/-- Two finite doubles in their order, neither of them negative. -/
structure InOrder (x y : Float) : Prop where
  finite : x.isFinite = true
  finite' : y.isFinite = true
  nonneg : 0 ≤ exact x
  le : exact x ≤ exact y

theorem inOrder_of_roundsTo (hf : RoundsTo v f) (hg : Canonical g) (hnonneg : 0 ≤ v)
    (hle : valueOf f ≤ valueOf g) (hfinite : (Float.ofModel (pack g)).isFinite = true) :
    InOrder (.ofModel (pack f)) (.ofModel (pack g)) := by
  have hleast : 0 ≤ valueOf f := hf.2.ge holdable_zero hnonneg
  have hgform : (pack g).unpack = g := unpack_pack_of_finite hg hfinite
  have hfform : (pack f).unpack = f := by
    refine unpack_pack_of_le hf.1 hg hfinite ?_
    rwa [abs_of_nonneg hleast, abs_of_nonneg (hleast.trans hle)]
  refine ⟨?_, hfinite, ?_, ?_⟩
  · change (pack f).unpack.isFinite = true
    rw [hfform]
    exact hf.1.isFinite
  · change 0 ≤ valueOf (pack f).unpack
    rwa [hfform]
  · change valueOf (pack f).unpack ≤ valueOf (pack g).unpack
    rwa [hfform, hgform]

theorem InOrder.map {F : UnpackedFloat → UnpackedFloat} {w : ℚ → ℚ} (h : InOrder x y)
    (hrounds : ∀ f, Canonical f → RoundsTo (w (valueOf f)) (F f)) (hgrows : StrictMono w)
    (hzero : 0 ≤ w 0) (hholdable : Holdable (w 0))
    (hfinite : (Float.ofModel (pack (F y.toModel.unpack))).isFinite = true) :
    InOrder (.ofModel (pack (F x.toModel.unpack))) (.ofModel (pack (F y.toModel.unpack))) := by
  have hcx := canonical_unpack h.finite
  have hcy := canonical_unpack h.finite'
  refine inOrder_of_roundsTo (hrounds _ hcx) (hrounds _ hcy).1
    (hzero.trans (hgrows.monotone h.nonneg)) ?_ hfinite
  have hnx : Nearest (w (exact x)) (valueOf (F x.toModel.unpack)) := (hrounds _ hcx).2
  have hny : Nearest (w (exact y)) (valueOf (F y.toModel.unpack)) := (hrounds _ hcy).2
  obtain hlt | heq := h.le.lt_or_eq
  · exact hnx.mono hny (hgrows hlt)
  · -- Equal numbers are one double, zeros aside, and of zeros the result is exact.
    obtain hsome | hnone := h.nonneg.lt_or_eq
    · rw [eq_of_valueOf_eq hcx hcy heq hsome.ne']
    · rw [← heq, ← hnone] at hny
      rw [← hnone] at hnx
      rw [hnx.eq hholdable, hny.eq hholdable]

theorem InOrder.div (h : InOrder x y) (ht : 0 < exact t) (hfinite : (y / t).isFinite = true) :
    InOrder (x / t) (y / t) := by
  have hcanonical := canonical_unpack (isFinite_of_exact_ne_zero ht.ne')
  refine h.map (F := (UnpackedFloat.div .binary64 · t.toModel.unpack)) (w := (· / exact t))
    (fun f hf => roundsTo_div hf hcanonical ht.ne') (fun a b hab => div_lt_div_of_pos_right hab ht)
    ?_ ?_ hfinite
  · exact (zero_div _).ge
  · rw [zero_div]
    exact holdable_zero

theorem InOrder.add (h : InOrder x y) (ht : 0 ≤ exact t) (hfinite : (t + y).isFinite = true) :
    InOrder (t + x) (t + y) := by
  have hcanonical := canonical_unpack (isFinite_of_add hfinite).1
  refine h.map (F := UnpackedFloat.add .binary64 t.toModel.unpack) (w := (exact t + ·))
    (fun f hf => roundsTo_add hcanonical hf) (fun a b hab => add_lt_add_right hab _) ?_ ?_ hfinite
  · rwa [add_zero]
  · rw [add_zero]
    exact holdable_valueOf hcanonical

theorem inOrder_ofNat {n : ℕ} (hfinite : (Float.ofNat (n + 1)).isFinite = true) :
    InOrder (Float.ofNat n) (Float.ofNat (n + 1)) := by
  have hofNat {k : ℕ} (hk : 0 < k) : ∃ f, Float.ofNat k = .ofModel (pack f) ∧ RoundsTo k f := by
    obtain ⟨f, hf, hrounds⟩ := exists_ofScientific (e := 0) hk (by omega) (by norm_num)
    refine ⟨f, hf, ?_⟩
    have hvalue : Decimal.value ⟨k, 0⟩ = k := by rw [Decimal.value, zpow_zero, mul_one]
    rw [hvalue] at hrounds
    exact hrounds.roundsTo
  cases n with
  | zero =>
    have hzero := holds_ofNat (n := 0) (by norm_num)
    have hone := holds_ofNat (n := 1) (by norm_num)
    refine ⟨hzero.finite, hone.finite, hzero.value.ge.trans' ?_, ?_⟩
    · rw [Nat.cast_zero]
    · rw [hzero.value, hone.value]
      norm_num
  | succ n =>
    obtain ⟨f, hf, hroundsF⟩ := hofNat n.succ_pos
    obtain ⟨g, hg, hroundsG⟩ := hofNat (n + 1).succ_pos
    rw [hg] at hfinite
    rw [hf, hg]
    refine inOrder_of_roundsTo hroundsF hroundsG.1 (Nat.cast_nonneg _) ?_ hfinite
    exact hroundsF.2.mono hroundsG.2 (by push_cast; linarith)

end Order

section Places

variable {x y : Float} {places : ℕ}

/-- The value of a text that is a decimal numeral. -/
def decimalValue (t : String) : Option ℚ := (readDecimal t.toList).map Decimal.value

theorem roundHalfUp_eq {a b : ℕ} (hb : 0 < b) : roundHalfUp a b = ⌊(a / b : ℚ) + 1 / 2⌋₊ := by
  have hb' : (b : ℚ) ≠ 0 := by exact_mod_cast hb.ne'
  have hratio : (a / b : ℚ) + 1 / 2 = ((2 * a + b : ℕ) : ℚ) / (2 * b : ℕ) := by
    push_cast
    field_simp
  rw [roundHalfUp, hratio, Nat.floor_div_natCast, Nat.floor_natCast]

theorem ratio_eq (b : Binary) :
    0 < b.ratio.2 ∧ (b.ratio.1 / b.ratio.2 : ℚ) = b.mantissa * 2 ^ b.exponent := by
  rw [Binary.ratio]
  split
  · next h =>
    obtain ⟨n, hn⟩ := Int.eq_ofNat_of_zero_le h
    refine ⟨one_pos, ?_⟩
    rw [hn]
    simp
  · next h =>
    refine ⟨Nat.pow_pos two_pos, ?_⟩
    have hwhole : b.exponent.toNat = 0 := by omega
    rw [zpow_eq_div 2 two_ne_zero, hwhole]
    simp [div_eq_mul_inv]

theorem exists_reading (hx : x.isFinite = true) (hnonneg : 0 ≤ exact x) : ∃ b : Binary,
    reading x = .finite b ∧ exact x = b.mantissa * 2 ^ b.exponent ∧
      (b.negative && b.mantissa != 0) = false := by
  have hcanonical := canonical_unpack hx
  rw [reading_eq, exact] at *
  generalize x.toModel.unpack = f at *
  rcases f with s | _ | s | ⟨s, m, e, hm⟩
  · cases hcanonical
  · cases hcanonical
  · exact ⟨_, rfl, by simp [valueOf], by simp⟩
  · have hsome : (0 : ℚ) < m * 2 ^ e := by positivity
    cases s with
    | negative =>
      rw [valueOf, signed] at hnonneg
      linarith
    | positive => exact ⟨_, rfl, rfl, rfl⟩

/-- Below `10^21` a number that is not negative is rounded to the places, a half upwards. -/
theorem decimalValue_fixedText (hx : x.isFinite = true) (hnonneg : 0 ≤ exact x)
    (hsmall : exact x < 10 ^ 21) : decimalValue (fixedText x places) =
      some ((⌊exact x * 10 ^ places + 1 / 2⌋₊ : ℚ) / 10 ^ places) := by
  obtain ⟨b, hreading, hvalue, hsign⟩ := exists_reading hx hnonneg
  obtain ⟨hdenominator, hratio⟩ := ratio_eq b
  have hdenominator' : (0 : ℚ) < b.ratio.2 := by exact_mod_cast hdenominator
  rw [← hvalue] at hratio
  have hroom : b.ratio.1 < Nat.pow 10 21 * b.ratio.2 := by
    rw [← hratio, div_lt_iff₀ hdenominator'] at hsmall
    exact_mod_cast hsmall
  have hrounded : roundHalfUp (b.ratio.1 * Nat.pow 10 places) b.ratio.2 =
      ⌊exact x * 10 ^ places + 1 / 2⌋₊ := by
    rw [roundHalfUp_eq hdenominator, ← hratio]
    congr 2
    rw [show Nat.pow 10 places = 10 ^ places from rfl]
    push_cast
    ring
  obtain ⟨n, hchars, hproper, hplaces⟩ :=
    exists_numeral_places places ⌊exact x * 10 ^ places + 1 / 2⌋₊
  rw [decimalValue, fixedText, hreading]
  simp only [hroom, if_true, Binary.fixedChars, hsign, hrounded, String.toList_ofList,
    Bool.false_eq_true, if_false, List.nil_append]
  rw [← hchars, hproper.readDecimal, Option.map_some, hplaces]

/-- From `10^21` on a number is written as usual, and it is a nearest one to what is written. -/
theorem exists_decimalValue_text (hx : x.isFinite = true) (hpositive : 0 < exact x) :
    ∃ v, decimalValue (text x) = some v ∧ Nearest v (exact x) := by
  obtain ⟨negative, n, h⟩ := exists_written hx
  have hvalue : 0 ≤ n.decimal.value := by
    rw [Decimal.value]
    positivity
  have hsign : negative = false := by
    by_contra hnegative
    rw [Bool.not_eq_false] at hnegative
    have hnearest := h.nearest
    rw [hnegative, mirrored, if_pos rfl] at hnearest
    exact absurd (hnearest.le holdable_zero (by linarith)) (not_le.mpr hpositive)
  obtain rfl := hsign
  refine ⟨n.decimal.value, ?_, h.nearest⟩
  rw [decimalValue, h.chars]
  exact congrArg (Option.map Decimal.value) h.proper.readDecimal

theorem fixedText_large (hx : x.isFinite = true) (hlarge : 10 ^ 21 ≤ exact x) :
    fixedText x places = text x := by
  obtain ⟨b, hreading, hvalue, -⟩ := exists_reading hx (by linarith)
  obtain ⟨hdenominator, hratio⟩ := ratio_eq b
  have hdenominator' : (0 : ℚ) < b.ratio.2 := by exact_mod_cast hdenominator
  have hroom : ¬b.ratio.1 < Nat.pow 10 21 * b.ratio.2 := by
    rw [← hvalue] at hratio
    rw [← hratio, le_div_iff₀ hdenominator'] at hlarge
    exact not_lt.mpr (by exact_mod_cast hlarge)
  rw [fixedText, hreading]
  exact if_neg hroom

def placesEnd : Float := 1e21

theorem holds_placesEnd : Holds placesEnd (10 ^ 21) := by
  have hunpacked : placesEnd.toModel.unpack =
      .finite .positive 7629394531250000 17 (by norm_num) := rfl
  constructor
  · change placesEnd.toModel.unpack.isFinite = true
    rw [hunpacked]
    rfl
  · rw [exact, hunpacked]
    norm_num [valueOf, signed]

theorem decimalValue_placesEnd : decimalValue (text placesEnd) = some (10 ^ 21) := by
  have hdecimal : readDecimal (text placesEnd).toList = some ⟨1, 21⟩ := by decide +kernel
  rw [decimalValue, hdecimal, Option.map_some, Decimal.value, Nat.cast_one, one_mul]
  norm_num

theorem le_decimalValue_text {v : ℚ} (hx : x.isFinite = true) (hlarge : 10 ^ 21 ≤ exact x)
    (hv : decimalValue (text x) = some v) : 10 ^ 21 ≤ v := by
  obtain ⟨w, hw, hnearest⟩ := exists_decimalValue_text hx (by linarith)
  obtain rfl := Option.some.inj (hv.symm.trans hw)
  by_contra! hbelow
  have hle := hnearest.le holds_placesEnd.holdable hbelow.le
  have hsame : (x == placesEnd) = true := (beq_iff_exact_eq hx holds_placesEnd.finite).mpr
    ((le_antisymm hle hlarge).trans holds_placesEnd.value.symm)
  rw [text_congr hsame, decimalValue_placesEnd] at hv
  exact hbelow.ne' (Option.some.inj hv)

theorem InOrder.decimalValue (h : InOrder x y) (places : ℕ) : ∃ v w,
    decimalValue (fixedText x places) = some v ∧ decimalValue (fixedText y places) = some w ∧
      v ≤ w := by
  obtain ⟨hx, hy, hnonneg, hle⟩ := h
  have hpower : (0 : ℚ) < 10 ^ places := by positivity
  -- From `10^21` on a number is written without places, so there are three cases.
  obtain hsmall | hlarge := lt_or_ge (exact x) (10 ^ 21)
  · have hround {v : ℚ} (hv : exact x ≤ v) : (⌊exact x * 10 ^ places + 1 / 2⌋₊ : ℚ) / 10 ^ places ≤
        (⌊v * 10 ^ places + 1 / 2⌋₊ : ℚ) / 10 ^ places := by
      gcongr
    obtain hsmall' | hlarge' := lt_or_ge (exact y) (10 ^ 21)
    · exact ⟨_, _, decimalValue_fixedText hx hnonneg hsmall,
        decimalValue_fixedText hy (hnonneg.trans hle) hsmall', hround hle⟩
    · obtain ⟨w, hw, -⟩ := exists_decimalValue_text hy (by linarith)
      refine ⟨_, w, decimalValue_fixedText hx hnonneg hsmall, by rwa [fixedText_large hy hlarge'],
        (hround hsmall.le).trans ?_⟩
      have hwhole : ⌊(10 ^ 21 * 10 ^ places + 1 / 2 : ℚ)⌋₊ = 10 ^ 21 * 10 ^ places := by
        rw [Nat.floor_eq_iff (by positivity)]
        push_cast
        constructor <;> linarith
      rw [hwhole]
      push_cast
      rw [mul_div_cancel_right₀ _ hpower.ne']
      exact le_decimalValue_text hy hlarge' hw
  · have hlarge' := hlarge.trans hle
    obtain ⟨v, hv, hnearest⟩ := exists_decimalValue_text hx (by linarith)
    obtain ⟨w, hw, hnearest'⟩ := exists_decimalValue_text hy (by linarith)
    refine ⟨v, w, by rwa [fixedText_large hx hlarge], by rwa [fixedText_large hy hlarge'], ?_⟩
    -- If the texts fell back, both numbers would be nearest to both values, hence equal.
    by_contra! hfalls
    have hback := hnearest'.mono hnearest hfalls
    have hsame : (x == y) = true := (beq_iff_exact_eq hx hy).mpr (le_antisymm hle hback)
    rw [text_congr hsame] at hv
    exact hfalls.ne' (Option.some.inj (hv.symm.trans hw))

end Places

end SkillPipeline.Number
