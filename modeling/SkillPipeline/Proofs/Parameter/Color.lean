import SkillPipeline.Parameter.Check
import SkillPipeline.Proofs.Number.Decimal
import SkillPipeline.Proofs.Text.Regular
import SkillPipeline.Registry.Schema

namespace SkillPipeline.Color

open Text Regular
open scoped Computability

/-- One of six to eight hexadecimal digits after a mark, in the form in which an expression is
read. -/
def readMarked (mark : List Char) : Regular :=
  (mark.map fun c => oneOf [(c, c)]).foldr .seq (.seq (Pattern.times hexDigits 6 8).regular .blank)

def readPublished : Regular :=
  let colors := alt (alt (alt .never (.seq letters.regular .blank)) (readMarked ['#']))
    (readMarked ['0', 'x'])
  let digits := oneOf [('0', '9'), ('.', '.')]
  let opacity := alt .never (.seq (oneOf [('@', '@')]) (.seq (.seq digits (.star digits)) .blank))
  .alt .never (.seq colors (.seq (.alt .blank opacity) .blank))

theorem anchored_publishedText : Expression.anchored? publishedText = some readPublished := rfl

theorem language_character (c : Char) :
    (Pattern.literalRegular [c]).language = (oneOf [(c, c)]).language :=
  mul_one _

theorem language_zeroX : (Pattern.literalRegular "0x".toList).language =
    (oneOf [('0', '0')]).language * (oneOf [('x', 'x')]).language :=
  congrArg _ (mul_one _)

theorem language_readPublished : readPublished.language = published.regular.language := by
  have hhash : "#".toList = ['#'] := rfl
  have hat : "@".toList = ['@'] := rfl
  simp only [readPublished, readMarked, published, publishedColor, publishedOpacity,
    Pattern.regular, List.map, List.foldr, hhash, hat, language_character, language_zeroX,
    language_never, language_blank, language_seq, language_alt, language_star, zero_add, mul_one,
    mul_assoc, add_assoc]

theorem language_hexColor_le :
    hexColor.regular.language ≤ (Pattern.times hexDigits 6 8).regular.language := by
  have hpair (l : Language Char) : 1 + l ^ 2 ≤ 1 + l * (1 + l) := by
    rw [pow_two, mul_add, mul_one]
    exact add_le_add_right le_add_self 1
  simp only [hexColor, Pattern.regular, language_seq, language_alt, language_blank]
  rw [language_timesRegular 6 0, language_timesRegular 2 0, language_timesRegular 6 2]
  simp only [Pattern.timesRegular, language_seq, language_alt, language_blank, mul_one]
  exact mul_le_mul_right (hpair _) _

def decimals : List (Char × Char) := [('0', '9'), ('.', '.')]

theorem language_opacity_le :
    opacity.regular.language ≤ (Pattern.plus (.oneOf decimals)).regular.language := by
  have hzero : "0".toList = ['0'] := rfl
  have hone : "1".toList = ['1'] := rfl
  have hpoint : ".".toList = ['.'] := rfl
  simp only [opacity, digits, Pattern.regular, hzero, hone, hpoint, language_character,
    language_seq, language_alt, language_star, language_blank]
  set run := (oneOf decimals).language
  have zero_le : (oneOf [('0', '0')]).language ≤ run := language_character_le rfl
  have one_le : (oneOf [('1', '1')]).language ≤ run := language_character_le rfl
  have point_le : (oneOf [('.', '.')]).language ≤ run := language_character_le rfl
  have digit_le : (oneOf [('0', '9')]).language ≤ run :=
    language_oneOf_le fun c hc => by simp_all [isOneOf, decimals]
  have rest_le {first next : Language Char} (hfirst : first ≤ run) (hnext : next ≤ run) :
      1 + first * (next * next∗) ≤ run∗ := by
    refine add_le one_le_kstar ?_
    calc first * (next * next∗) ≤ run * (run * run∗) := by gcongr
      _ ≤ run * run∗ := by gcongr; exact mul_kstar_le_kstar
      _ ≤ run∗ := mul_kstar_le_kstar
  refine add_le ?_ (add_le ?_ ?_)
  · exact mul_le_mul' zero_le (rest_le point_le digit_le)
  · exact mul_le_mul' one_le (rest_le point_le zero_le)
  · refine mul_le_mul' point_le ?_
    exact (mul_le_mul' digit_le (kstar_mono digit_le)).trans mul_kstar_le_kstar

theorem language_accepted_le : accepted.regular.language ≤ published.regular.language := by
  simp only [accepted, published, publishedColor, publishedOpacity, Pattern.regular,
    language_seq, language_alt, language_blank]
  gcongr
  · exact language_hexColor_le
  · exact language_hexColor_le
  · exact language_opacity_le

theorem matches_publishedText {s : String} (h : isColor s = true) :
    Expression.Matches publishedText s := by
  refine ⟨readPublished, anchored_publishedText, ?_⟩
  rw [accepts_iff, language_readPublished]
  exact language_accepted_le (accepts_iff.mp h)

section Texts

open Number

variable {s color t : List Char} {opacity? : Option (List Char)}

def letterRanges : List (Char × Char) := [('A', 'Z'), ('a', 'z')]

def hexRanges : List (Char × Char) := [('0', '9'), ('A', 'F'), ('a', 'f')]

def IsName (s : List Char) : Prop := s ≠ [] ∧ ∀ c ∈ s, isOneOf letterRanges c = true

def IsHex (count : ℕ) (s : List Char) : Prop :=
  ∃ digits, (s = '#' :: digits ∨ s = '0' :: 'x' :: digits) ∧ digits.length = count ∧
    ∀ c ∈ digits, isOneOf hexRanges c = true

def IsRun (s : List Char) : Prop := s ≠ [] ∧ ∀ c ∈ s, isOneOf decimals c = true

/-- A decimal from 0 to 1 with at most one digit before the point, and no point without a digit
after it. -/
def IsOpacity (s : List Char) : Prop :=
  ∃ whole fraction, s = whole ++ pointChars fraction ∧ s ≠ [] ∧ whole.length ≤ 1 ∧
    (∀ c ∈ whole ++ fraction, isDigit c = true) ∧
      digitsValue (whole ++ fraction) ≤ 10 ^ fraction.length

def joined (color : List Char) (opacity? : Option (List Char)) : List Char :=
  color ++ opacity?.elim [] fun t => '@' :: t

theorem digit_bounds {c : Char} (hc : isDigit c = true) :
    '0'.toNat ≤ c.toNat ∧ c.toNat ≤ '9'.toNat := by
  rw [isDigit, Bool.and_eq_true, decide_eq_true_iff, decide_eq_true_iff] at hc
  exact hc

theorem eq_of_digit {c d : Char} (hc : isDigit c = true) (hd : '0'.toNat ≤ d.toNat)
    (h : c.toNat - '0'.toNat = d.toNat - '0'.toNat) : c = d := by
  have hleast := (digit_bounds hc).1
  exact Char.toNat_inj.mp (by omega)

theorem eq_zero_of_digitsValue {fraction : List Char} (hdigits : ∀ c ∈ fraction, isDigit c = true)
    (hvalue : digitsValue fraction = 0) : ∀ c ∈ fraction, c = '0' := by
  induction fraction with
  | nil => simp
  | cons c fraction ih =>
    obtain ⟨hc, hrest⟩ := List.forall_mem_cons.mp hdigits
    rw [digitsValue_cons, Nat.add_eq_zero_iff, Nat.mul_eq_zero] at hvalue
    refine List.forall_mem_cons.mpr ⟨eq_of_digit hc le_rfl ?_, ih hrest hvalue.2⟩
    rw [Nat.sub_self]
    exact hvalue.1.resolve_right (by positivity)

theorem mem_digits : t ∈ digits.regular.language ↔ t ≠ [] ∧ ∀ c ∈ t, isDigit c = true := by
  have hdigit (c : Char) : isOneOf [('0', '9')] c = isDigit c := by
    rw [isOneOf, List.any_cons, List.any_nil, Bool.or_false, isDigit]
  rw [digits, mem_plus_oneOf]
  simp only [hdigit]

theorem mem_zeros : t ∈ (Pattern.plus (.literal "0")).regular.language ↔
    t ≠ [] ∧ ∀ c ∈ t, c = '0' := by
  have hzero : "0".toList = ['0'] := rfl
  have hplus : (Pattern.plus (.literal "0")).regular.language =
      (Pattern.plus (.oneOf [('0', '0')])).regular.language := by
    simp only [Pattern.regular, hzero, language_seq, language_star, language_character]
  rw [hplus, mem_plus_oneOf]
  simp only [isOneOf_self]

theorem mem_fraction {p : Pattern} {P : Char → Prop}
    (hp : ∀ t, t ∈ p.regular.language ↔ t ≠ [] ∧ ∀ c ∈ t, P c) :
    t ∈ (Pattern.optional (.seq (.literal ".") p)).regular.language ↔
      ∃ fraction, t = pointChars fraction ∧ ∀ c ∈ fraction, P c := by
  have hpoint : ".".toList = ['.'] := rfl
  rw [mem_optional, mem_literal_seq, hpoint]
  simp only [hp]
  constructor
  · rintro (rfl | ⟨fraction, rfl, hsome, hfraction⟩)
    · exact ⟨[], rfl, by simp⟩
    · exact ⟨fraction, by rw [pointChars, if_neg hsome]; rfl, hfraction⟩
  · rintro ⟨fraction, rfl, hfraction⟩
    by_cases hsome : fraction = []
    · exact .inl (by rw [pointChars, if_pos hsome])
    · exact .inr ⟨fraction, by rw [pointChars, if_neg hsome]; rfl, hsome, hfraction⟩

theorem mem_opacity_cases : s ∈ opacity.regular.language ↔
    (∃ fraction, s = '0' :: pointChars fraction ∧ ∀ c ∈ fraction, isDigit c = true) ∨
      (∃ fraction, s = '1' :: pointChars fraction ∧ ∀ c ∈ fraction, c = '0') ∨
        ∃ fraction, s = '.' :: fraction ∧ fraction ≠ [] ∧ ∀ c ∈ fraction, isDigit c = true := by
  have hfirst {first : Char} {P : Char → Prop} :
      (∃ u, s = [first] ++ u ∧ ∃ fraction, u = pointChars fraction ∧ ∀ c ∈ fraction, P c) ↔
        ∃ fraction, s = first :: pointChars fraction ∧ ∀ c ∈ fraction, P c := by
    constructor
    · rintro ⟨_, hs, fraction, rfl, hfraction⟩
      exact ⟨fraction, hs, hfraction⟩
    · rintro ⟨fraction, hs, hfraction⟩
      exact ⟨_, hs, fraction, rfl, hfraction⟩
  have hzero : "0".toList = ['0'] := rfl
  have hone : "1".toList = ['1'] := rfl
  have hpoint : ".".toList = ['.'] := rfl
  rw [opacity, mem_alt, mem_alt, mem_literal_seq, mem_literal_seq, mem_literal_seq, hzero, hone,
    hpoint]
  simp only [mem_fraction fun t => mem_digits, mem_fraction fun t => mem_zeros, mem_digits, hfirst]
  rfl

theorem mem_opacity : s ∈ opacity.regular.language ↔ IsOpacity s := by
  rw [mem_opacity_cases]
  constructor
  · rintro (⟨fraction, rfl, hdigits⟩ | ⟨fraction, rfl, hzeros⟩ | ⟨fraction, rfl, hsome, hdigits⟩)
    · refine ⟨['0'], fraction, rfl, List.cons_ne_nil _ _, le_rfl,
        List.forall_mem_cons.mpr ⟨rfl, hdigits⟩, ?_⟩
      rw [List.singleton_append, digitsValue_cons, Nat.sub_self, Nat.zero_mul, Nat.zero_add]
      exact (digitsValue_lt hdigits).le
    · obtain ⟨count, rfl⟩ : ∃ count, fraction = List.replicate count '0' :=
        ⟨_, List.eq_replicate_of_mem hzeros⟩
      refine ⟨['1'], _, rfl, List.cons_ne_nil _ _, le_rfl,
        List.forall_mem_cons.mpr ⟨rfl, isDigit_zeros count⟩, ?_⟩
      rw [List.singleton_append, digitsValue_cons, digitsValue_replicate]
      exact le_of_eq (Nat.one_mul _)
    · exact ⟨[], fraction, by rw [pointChars, if_neg hsome]; rfl, List.cons_ne_nil _ _,
        Nat.zero_le _, hdigits, (digitsValue_lt hdigits).le⟩
  · rintro ⟨whole, fraction, rfl, hsome, hlength, hdigits, hvalue⟩
    cases whole with
    | nil =>
      rw [List.nil_append] at hsome ⊢
      by_cases hfraction : fraction = []
      · rw [pointChars, if_pos hfraction] at hsome
        exact absurd rfl hsome
      · rw [pointChars, if_neg hfraction]
        exact .inr (.inr ⟨fraction, rfl, hfraction, hdigits⟩)
    | cons c whole =>
      obtain rfl : whole = [] := by
        rw [List.length_cons] at hlength
        exact List.length_eq_zero_iff.mp (by omega)
      obtain ⟨hc, hrest⟩ := List.forall_mem_cons.mp hdigits
      rw [List.singleton_append, digitsValue_cons] at hvalue
      -- A first digit of two or more would be worth more than the whole.
      have hpower : 0 < 10 ^ fraction.length := by positivity
      have hone : c.toNat - '0'.toNat ≤ 1 := by
        by_contra! hlarge
        nlinarith
      obtain hone | hzero := hone.lt_or_eq.symm
      · rw [hone, Nat.one_mul] at hvalue
        obtain rfl := eq_of_digit (d := '1') hc (by decide) hone
        exact .inr (.inl ⟨fraction, rfl, eq_zero_of_digitsValue hrest (by omega)⟩)
      · obtain rfl := eq_of_digit (d := '0') hc le_rfl (by omega)
        exact .inl ⟨fraction, rfl, hrest⟩

theorem mem_joined (first tail : Pattern) :
    s ∈ (Pattern.seq first (.optional (.seq (.literal "@") tail))).regular.language ↔
      ∃ color opacity?, s = joined color opacity? ∧ color ∈ first.regular.language ∧
        ∀ t ∈ opacity?, t ∈ tail.regular.language := by
  have hat : "@".toList = ['@'] := rfl
  simp only [mem_seq (p := first), mem_optional, mem_literal_seq, hat]
  constructor
  · rintro ⟨color, hcolor, rest, rfl | ⟨t, rfl, ht⟩, rfl⟩
    · exact ⟨color, none, rfl, hcolor, by simp⟩
    · refine ⟨color, some t, rfl, hcolor, fun u hu => ?_⟩
      rwa [← Option.mem_some_iff.mp hu]
  · rintro ⟨color, opacity?, rfl, hcolor, htail⟩
    refine ⟨color, hcolor, _, ?_, rfl⟩
    cases opacity? with
    | none => exact .inl rfl
    | some t => exact .inr ⟨t, rfl, htail t rfl⟩

theorem mem_letters : s ∈ letters.regular.language ↔ IsName s := mem_plus_oneOf

theorem mem_hexColor : s ∈ hexColor.regular.language ↔
    (s.length = 6 ∨ s.length = 8) ∧ ∀ c ∈ s, isOneOf hexRanges c = true := by
  have htimes {count : ℕ} {t : List Char} :
      t ∈ (Pattern.times hexDigits count count).regular.language ↔
        t.length = count ∧ ∀ c ∈ t, isOneOf hexRanges c = true := by
    rw [Pattern.regular, hexDigits, Pattern.regular, Nat.sub_self, mem_timesRegular_oneOf,
      ← and_assoc, add_zero, ← le_antisymm_iff, eq_comm]
    rfl
  simp only [hexColor, mem_seq, mem_optional, htimes]
  constructor
  · rintro ⟨x, ⟨hx, hdigits⟩, y, rfl | ⟨hy, hdigits'⟩, rfl⟩
    · rw [List.append_nil]
      exact ⟨.inl hx, hdigits⟩
    · refine ⟨.inr (by rw [List.length_append, hx, hy]), ?_⟩
      exact List.forall_mem_append.mpr ⟨hdigits, hdigits'⟩
  · rintro ⟨hsix | height, hdigits⟩
    · exact ⟨s, ⟨hsix, hdigits⟩, [], .inl rfl, List.append_nil s⟩
    · refine ⟨s.take 6, ⟨by rw [List.length_take, height]; rfl, ?_⟩, s.drop 6, .inr ⟨?_, ?_⟩,
        List.take_append_drop 6 s⟩
      · exact fun c hc => hdigits c (List.mem_of_mem_take hc)
      · rw [List.length_drop, height]
      · exact fun c hc => hdigits c (List.mem_of_mem_drop hc)

theorem mem_marked {p : Pattern} {P : List Char → Prop}
    (hp : ∀ t, t ∈ p.regular.language ↔ P t ∧ ∀ c ∈ t, isOneOf hexRanges c = true) :
    s ∈ (Pattern.alt (.seq (.literal "#") p) (.seq (.literal "0x") p)).regular.language ↔
      ∃ digits, (s = '#' :: digits ∨ s = '0' :: 'x' :: digits) ∧ P digits ∧
        ∀ c ∈ digits, isOneOf hexRanges c = true := by
  have hhash : "#".toList = ['#'] := rfl
  have hzero : "0x".toList = ['0', 'x'] := rfl
  rw [mem_alt, mem_literal_seq, mem_literal_seq, hhash, hzero]
  simp only [hp]
  constructor
  · rintro (⟨t, rfl, ht⟩ | ⟨t, rfl, ht⟩)
    · exact ⟨t, .inl rfl, ht⟩
    · exact ⟨t, .inr rfl, ht⟩
  · rintro ⟨t, rfl | rfl, ht⟩
    · exact .inl ⟨t, rfl, ht⟩
    · exact .inr ⟨t, rfl, ht⟩

theorem mem_published : s ∈ published.regular.language ↔
    ∃ color opacity?, s = joined color opacity? ∧
      (IsName color ∨ ∃ count, 6 ≤ count ∧ count ≤ 8 ∧ IsHex count color) ∧
        ∀ t ∈ opacity?, IsRun t := by
  have hhex (t : List Char) : t ∈ (Pattern.times hexDigits 6 8).regular.language ↔
      (6 ≤ t.length ∧ t.length ≤ 8) ∧ ∀ c ∈ t, isOneOf hexRanges c = true := by
    rw [Pattern.regular, hexDigits, Pattern.regular, mem_timesRegular_oneOf, and_assoc]
    rfl
  have hcolor (t : List Char) : t ∈ publishedColor.regular.language ↔
      IsName t ∨ ∃ count, 6 ≤ count ∧ count ≤ 8 ∧ IsHex count t := by
    rw [publishedColor, mem_alt, mem_letters, mem_marked hhex]
    refine or_congr_right ⟨?_, ?_⟩
    · rintro ⟨digits, hmark, ⟨hleast, hmost⟩, hdigits⟩
      exact ⟨digits.length, hleast, hmost, digits, hmark, rfl, hdigits⟩
    · rintro ⟨count, hleast, hmost, digits, hmark, rfl, hdigits⟩
      exact ⟨digits, hmark, ⟨hleast, hmost⟩, hdigits⟩
  have hrun (t : List Char) : t ∈ (Pattern.plus (.oneOf decimals)).regular.language ↔ IsRun t :=
    mem_plus_oneOf
  have hjoined := mem_joined (s := s) publishedColor (.plus (.oneOf decimals))
  simp only [hcolor, hrun] at hjoined
  exact hjoined

theorem mem_accepted : s ∈ accepted.regular.language ↔
    ∃ color opacity?, s = joined color opacity? ∧
      (IsName color ∨ IsHex 6 color ∨ IsHex 8 color) ∧ ∀ t ∈ opacity?, IsOpacity t := by
  have hcolor (t : List Char) : t ∈ (Pattern.alt letters (.alt (.seq (.literal "#") hexColor)
      (.seq (.literal "0x") hexColor))).regular.language ↔ IsName t ∨ IsHex 6 t ∨ IsHex 8 t := by
    rw [mem_alt, mem_letters, mem_marked fun t => mem_hexColor]
    refine or_congr_right ⟨?_, ?_⟩
    · rintro ⟨digits, hmark, hsix | height, hdigits⟩
      · exact .inl ⟨digits, hmark, hsix, hdigits⟩
      · exact .inr ⟨digits, hmark, height, hdigits⟩
    · rintro (⟨digits, hmark, hsix, hdigits⟩ | ⟨digits, hmark, height, hdigits⟩)
      · exact ⟨digits, hmark, .inl hsix, hdigits⟩
      · exact ⟨digits, hmark, .inr height, hdigits⟩
  rw [accepted, mem_joined]
  simp only [hcolor, mem_opacity]

theorem at_notMem (h : IsName color ∨ ∃ count, IsHex count color) : '@' ∉ color := by
  intro hat
  obtain hname | ⟨count, digits, hmark, -, hdigits⟩ := h
  · exact absurd (hname.2 '@' hat) (by decide)
  · have hdigit : '@' ∈ digits := by
      obtain rfl | rfl := hmark <;> simpa using hat
    exact absurd (hdigits '@' hdigit) (by decide)

theorem joined_inj {color' : List Char} {opacity?' : Option (List Char)} (hcolor : '@' ∉ color)
    (hcolor' : '@' ∉ color') (h : joined color opacity? = joined color' opacity?') :
    color = color' ∧ opacity? = opacity?' := by
  -- Reading up to the first at sign gives back the colour, since it has none itself.
  have htake {color : List Char} {opacity? : Option (List Char)} (hcolor : '@' ∉ color) :
      (joined color opacity?).takeWhile (· != '@') = color ∧
        (joined color opacity?).dropWhile (· != '@') = opacity?.elim [] fun t => '@' :: t := by
    have hpass : ∀ c ∈ color, (c != '@') = true := fun c hc =>
      bne_iff_ne.mpr fun heq => hcolor (heq ▸ hc)
    rw [joined, List.takeWhile_append_of_pos hpass, List.dropWhile_append_of_pos hpass]
    cases opacity? with
    | none => exact ⟨List.append_nil _, rfl⟩
    | some t => exact ⟨List.append_nil _, rfl⟩
  have hcolors := (htake hcolor).1.symm.trans ((congrArg _ h).trans (htake hcolor').1)
  have htails := (htake hcolor).2.symm.trans ((congrArg _ h).trans (htake hcolor').2)
  refine ⟨hcolors, ?_⟩
  cases opacity? with
  | none =>
    cases opacity?' with
    | none => rfl
    | some t => cases htails
  | some t =>
    cases opacity?' with
    | none => cases htails
    | some t' =>
      injection htails with _ htails
      rw [htails]

theorem isHex_unique {count : ℕ} (h : IsHex count color) :
    ¬IsName color ∧ ∀ count', IsHex count' color → count = count' := by
  obtain ⟨digits, hmark, rfl, -⟩ := h
  constructor
  · rintro ⟨-, hletters⟩
    obtain rfl | rfl := hmark
    · exact absurd (hletters '#' List.mem_cons_self) (by decide)
    · exact absurd (hletters '0' List.mem_cons_self) (by decide)
  · rintro _ ⟨digits', hmark', rfl, -⟩
    obtain rfl | rfl := hmark <;> obtain heq | heq := hmark' <;> injection heq with hhead htail
    · rw [htail]
    · exact absurd hhead (by decide)
    · exact absurd hhead (by decide)
    · injection htail with _ htail
      rw [htail]

/-- What the published pattern takes and the validator does not: seven hexadecimal digits, or digits
and points after the at sign that are no decimal from 0 to 1. -/
def Lax (s : List Char) : Prop :=
  ∃ color opacity?, s = joined color opacity? ∧
    (IsName color ∨ ∃ count, 6 ≤ count ∧ count ≤ 8 ∧ IsHex count color) ∧
      (∀ t ∈ opacity?, IsRun t) ∧ (IsHex 7 color ∨ ∃ t ∈ opacity?, ¬IsOpacity t)

theorem lax_iff : Lax s ↔ s ∈ published.regular.language ∧ s ∉ accepted.regular.language := by
  rw [mem_published, mem_accepted]
  constructor
  · rintro ⟨color, opacity?, rfl, hcolor, hrun, hlax⟩
    refine ⟨⟨color, opacity?, rfl, hcolor, hrun⟩, ?_⟩
    rintro ⟨color', opacity?', heq, hcolor', hopacity⟩
    have hat : '@' ∉ color := at_notMem (hcolor.imp_right fun h => h.imp fun _ h => h.2.2)
    have hat' : '@' ∉ color' := at_notMem (hcolor'.imp_right fun h => h.elim (⟨_, ·⟩) (⟨_, ·⟩))
    -- Only one way to cut the text has to be excluded.
    obtain ⟨rfl, rfl⟩ := joined_inj hat hat' heq
    obtain hseven | ⟨t, ht, hbad⟩ := hlax
    · obtain ⟨hname, hunique⟩ := isHex_unique hseven
      obtain hname' | hsix | height := hcolor'
      · exact hname hname'
      · exact absurd (hunique _ hsix) (by norm_num)
      · exact absurd (hunique _ height) (by norm_num)
    · exact hbad (hopacity t ht)
  · rintro ⟨⟨color, opacity?, rfl, hcolor, hrun⟩, hnot⟩
    refine ⟨color, opacity?, rfl, hcolor, hrun, ?_⟩
    by_contra! hstrict
    obtain ⟨hseven, hopacity⟩ := hstrict
    refine hnot ⟨color, opacity?, rfl, ?_, hopacity⟩
    obtain hname | ⟨count, hleast, hmost, hhex⟩ := hcolor
    · exact .inl hname
    · obtain rfl | rfl | rfl : count = 6 ∨ count = 7 ∨ count = 8 := by omega
      · exact .inr (.inl hhex)
      · exact absurd hhex hseven
      · exact .inr (.inr hhex)

end Texts

theorem matches_iff {s : String} :
    Expression.Matches publishedText s ↔ s.toList ∈ published.regular.language := by
  rw [← language_readPublished, ← accepts_iff]
  constructor
  · rintro ⟨r, hread, hs⟩
    rw [anchored_publishedText] at hread
    cases hread
    exact hs
  · exact fun hs => ⟨readPublished, anchored_publishedText, hs⟩

theorem fit_iff {spec : ParameterSpec} (hcolor : spec.type = .color) {s : String} :
    (∃ v, spec.fit (.string s) = .ok v) ↔ isColor (Text.trim s) = true := by
  rw [ParameterSpec.fit, hcolor]
  dsimp only
  split
  · next h => exact iff_of_true ⟨_, rfl⟩ h
  · next h => exact iff_of_false (by rintro ⟨v, hv⟩; cases hv) h

/-- The schema publishes a pattern for a colour parameter. What the check accepts matches it, and
pattern and check agree on all other texts too but those with seven hexadecimal digits or with an
opacity that is no decimal from 0 to 1. -/
theorem published_agrees_iff {spec : ParameterSpec} (hcolor : spec.type = .color) (s : String)
    (htrim : Text.trim s = s) : ∃ pattern, spec.schema.pattern? = some pattern ∧
      ((∃ v, spec.fit (.string s) = .ok v) → Expression.Matches pattern s) ∧
        ((Expression.Matches pattern s ↔ ∃ v, spec.fit (.string s) = .ok v) ↔ ¬Lax s.toList) := by
  have haccepts : (Expression.Matches publishedText s ↔ ∃ v, spec.fit (.string s) = .ok v) ↔
      ¬Lax s.toList := by
    have hle : s.toList ∈ accepted.regular.language → s.toList ∈ published.regular.language :=
      fun h => language_accepted_le h
    rw [fit_iff hcolor, htrim, matches_iff, isColor, Pattern.accepts, accepts_iff, lax_iff]
    tauto
  refine ⟨publishedText, if_pos hcolor, ?_, haccepts⟩
  rw [fit_iff hcolor, htrim]
  exact matches_publishedText

def tint : ParameterSpec := { name := "tint", type := .color }

/-- A name with half of its opacity is trimmed, matches and is accepted. -/
theorem published_agrees_iff_half : Text.trim "black@0.5" = "black@0.5" ∧ ∃ pattern,
    tint.schema.pattern? = some pattern ∧ Expression.Matches pattern "black@0.5" ∧
      ¬Lax "black@0.5".toList := by
  have htrim : Text.trim "black@0.5" = "black@0.5" := by decide +kernel
  have hcolor : tint.type = .color := rfl
  have hfit : ∃ v, tint.fit (.string "black@0.5") = .ok v :=
    (fit_iff hcolor).mpr (by decide +kernel)
  obtain ⟨pattern, hpattern, hmatches, hagree⟩ :=
    published_agrees_iff hcolor "black@0.5" htrim
  exact ⟨htrim, pattern, hpattern, hmatches hfit,
    hagree.mp ⟨fun _ => hfit, fun _ => hmatches hfit⟩⟩

theorem lax_seven : Lax "#1234567".toList := by
  have htext : "#1234567".toList = ['#', '1', '2', '3', '4', '5', '6', '7'] := by decide +kernel
  rw [htext]
  have hseven : IsHex 7 ['#', '1', '2', '3', '4', '5', '6', '7'] :=
    ⟨['1', '2', '3', '4', '5', '6', '7'], .inl rfl, rfl, by simp [isOneOf, hexRanges]⟩
  refine ⟨_, none, (List.append_nil _).symm, .inr ⟨7, by norm_num, by norm_num, hseven⟩, ?_,
    .inl hseven⟩
  simp

/-- Seven hexadecimal digits match what the schema publishes, and the check refuses them. -/
theorem not_published_agrees : ¬∀ (spec : ParameterSpec) (s pattern : String), spec.type = .color →
    Text.trim s = s → spec.schema.pattern? = some pattern →
      (Expression.Matches pattern s ↔ ∃ v, spec.fit (.string s) = .ok v) := by
  intro hagree
  have htrim : Text.trim "#1234567" = "#1234567" := by decide +kernel
  obtain ⟨hpublished, hrefused⟩ := lax_iff.mp lax_seven
  have haccepted := (fit_iff rfl).mp
    ((hagree tint "#1234567" publishedText rfl htrim rfl).mp (matches_iff.mpr hpublished))
  rw [htrim] at haccepted
  exact hrefused (accepts_iff.mp haccepted)

end SkillPipeline.Color
