import Mathlib
import SkillPipeline.Text.Pattern
import SkillPipeline.Parameter.TimeText

open scoped Computability

namespace SkillPipeline.Text.Regular

def isOneOf (ranges : List (Char × Char)) (c : Char) : Bool :=
  ranges.any fun r => r.1 ≤ c && c ≤ r.2

/-- The texts that match. -/
def language : Regular → Language Char
  | .never => 0
  | .blank => 1
  | .oneOf ranges => {s | ∃ c, isOneOf ranges c = true ∧ s = [c]}
  | .seq a b => a.language * b.language
  | .alt a b => a.language + b.language
  | .star a => a.language∗

variable {c : Char} {s : List Char} {a b r : Regular} {l m : Language Char}

theorem mem_oneOf {ranges : List (Char × Char)} :
    s ∈ (oneOf ranges).language ↔ ∃ c, isOneOf ranges c = true ∧ s = [c] := Iff.rfl

theorem language_never : never.language = 0 := rfl

theorem language_blank : blank.language = 1 := rfl

theorem language_seq : (seq a b).language = a.language * b.language := rfl

theorem language_alt : (alt a b).language = a.language + b.language := rfl

theorem language_star : (star a).language = a.language∗ := rfl

theorem language_oneOf_le {few many : List (Char × Char)}
    (h : ∀ c, isOneOf few c = true → isOneOf many c = true) :
    (oneOf few).language ≤ (oneOf many).language := by
  rintro s ⟨c, hc, rfl⟩
  exact ⟨c, h c hc, rfl⟩

theorem language_character_le {ranges : List (Char × Char)} (h : isOneOf ranges c = true) :
    (oneOf [(c, c)]).language ≤ (oneOf ranges).language := by
  refine language_oneOf_le fun d hd => ?_
  obtain ⟨hleast, hmost⟩ : c ≤ d ∧ d ≤ c := by simpa [isOneOf] using hd
  obtain rfl := Char.le_antisymm hleast hmost
  exact h

theorem language_timesRegular (least extra : Nat) :
    (Pattern.timesRegular r least extra).language =
      r.language ^ least * (Pattern.timesRegular r 0 extra).language := by
  induction least with
  | zero => rw [pow_zero, one_mul]
  | succ least ih => rw [Pattern.timesRegular, language_seq, ih, pow_succ', mul_assoc]

theorem nil_mem_mul : [] ∈ l * m ↔ [] ∈ l ∧ [] ∈ m := by
  rw [Language.mem_mul]
  constructor
  · rintro ⟨x, hx, y, hy, hxy⟩
    obtain ⟨rfl, rfl⟩ := List.append_eq_nil_iff.mp hxy
    exact ⟨hx, hy⟩
  · rintro ⟨hl, hm⟩
    exact ⟨[], hl, [], hm, rfl⟩

/-- A text that starts with a character, cut in two: the character starts the first part, unless
that is empty. -/
theorem cons_mem_mul :
    c :: s ∈ l * m ↔ (∃ x, c :: x ∈ l ∧ ∃ y ∈ m, x ++ y = s) ∨ ([] ∈ l ∧ c :: s ∈ m) := by
  rw [Language.mem_mul]
  constructor
  · rintro ⟨x, hx, y, hy, hxy⟩
    cases x with
    | nil => exact .inr ⟨hx, hxy ▸ hy⟩
    | cons d x =>
      obtain ⟨rfl, rfl⟩ := List.cons.inj hxy
      exact .inl ⟨x, hx, y, hy, rfl⟩
  · rintro (⟨x, hx, y, hy, rfl⟩ | ⟨hl, hm⟩)
    · exact ⟨c :: x, hx, y, hy, rfl⟩
    · exact ⟨[], hl, c :: s, hm, rfl⟩

theorem cons_mem_kstar :
    c :: s ∈ l∗ ↔ ∃ x, c :: x ∈ l ∧ ∃ y ∈ l∗, x ++ y = s := by
  constructor
  · intro h
    obtain ⟨parts, hflat, hparts⟩ := Language.mem_kstar.mp h
    -- The first part that is not empty starts with the character.
    induction parts with
    | nil => cases hflat
    | cons part rest ih =>
      obtain ⟨hpart, hrest⟩ := List.forall_mem_cons.mp hparts
      cases part with
      | nil => exact ih hflat hrest
      | cons d x =>
        obtain ⟨rfl, rfl⟩ := List.cons.inj hflat
        exact ⟨x, hpart, rest.flatten, Language.join_mem_kstar hrest, rfl⟩
  · rintro ⟨x, hx, y, hy, rfl⟩
    obtain ⟨parts, rfl, hparts⟩ := Language.mem_kstar.mp hy
    exact Language.join_mem_kstar (List.forall_mem_cons.mpr ⟨hx, hparts⟩)

theorem nullable_iff : r.nullable = true ↔ [] ∈ r.language := by
  induction r with
  | never => simp [nullable, language]
  | blank => simp [nullable, language]
  | oneOf ranges => simp [nullable, mem_oneOf]
  | seq a b iha ihb => rw [nullable, language, nil_mem_mul, Bool.and_eq_true, iha, ihb]
  | alt a b iha ihb => rw [nullable, language, Language.mem_add, Bool.or_eq_true, iha, ihb]
  | star a ih => exact iff_of_true rfl (Language.nil_mem_kstar _)

theorem language_orElse : (orElse a b).language = a.language + b.language := by
  unfold orElse
  split
  · exact (zero_add _).symm
  · exact (add_zero _).symm
  · rfl

theorem language_andThen : (andThen a b).language = a.language * b.language := by
  unfold andThen
  split
  · exact (zero_mul _).symm
  · exact (one_mul _).symm
  · rfl

/-- A derivative matches what may follow the character. -/
theorem mem_derivative : s ∈ (r.derivative c).language ↔ c :: s ∈ r.language := by
  induction r generalizing s with
  | never => simp [derivative, language]
  | blank => simp [derivative, language]
  | oneOf ranges =>
    rw [mem_oneOf, derivative, ← isOneOf]
    split
    · next hc => simp [language, hc]
    · next hc => simp [language, hc]
  | seq a b iha ihb =>
    have hfirst : s ∈ (andThen (derivative c a) b).language ↔
        ∃ x, c :: x ∈ a.language ∧ ∃ y ∈ b.language, x ++ y = s := by
      rw [language_andThen, Language.mem_mul]
      exact exists_congr fun x => and_congr_left fun _ => iha
    rw [derivative, language, cons_mem_mul]
    split
    · next hnull =>
      rw [language_orElse, Language.mem_add, hfirst, ihb, and_iff_right (nullable_iff.mp hnull)]
    · next hnull => rw [hfirst, or_iff_left fun h => hnull (nullable_iff.mpr h.1)]
  | alt a b iha ihb =>
    rw [derivative, language_orElse, language, Language.mem_add, Language.mem_add, iha, ihb]
  | star a ih =>
    rw [derivative, language_andThen, Language.mem_mul]
    refine Iff.trans ?_ cons_mem_kstar.symm
    exact exists_congr fun x => and_congr_left fun _ => ih

theorem accepts_iff : r.accepts s = true ↔ s ∈ r.language := by
  induction s generalizing r with
  | nil => exact nullable_iff
  | cons c rest ih => rw [accepts, ih, mem_derivative]

section Ranges

variable {ranges : List (Char × Char)} {t : List Char}

theorem mem_oneOf_mul : s ∈ (oneOf ranges).language * m ↔
    ∃ c t, s = c :: t ∧ isOneOf ranges c = true ∧ t ∈ m := by
  rw [Language.mem_mul]
  constructor
  · rintro ⟨_, ⟨c, hc, rfl⟩, t, ht, rfl⟩
    exact ⟨c, t, rfl, hc, ht⟩
  · rintro ⟨c, t, rfl, hc, ht⟩
    exact ⟨[c], ⟨c, hc, rfl⟩, t, ht, rfl⟩

theorem mem_kstar_oneOf : s ∈ (oneOf ranges).language∗ ↔ ∀ c ∈ s, isOneOf ranges c = true := by
  induction s with
  | nil => exact iff_of_true (Language.nil_mem_kstar _) (by simp)
  | cons c s ih =>
    rw [cons_mem_kstar, List.forall_mem_cons, ← ih]
    constructor
    · rintro ⟨x, ⟨d, hd, heq⟩, y, hy, rfl⟩
      obtain ⟨rfl, rfl⟩ := List.cons.inj heq
      exact ⟨hd, hy⟩
    · rintro ⟨hc, hs⟩
      exact ⟨[], ⟨c, hc, rfl⟩, s, hs, rfl⟩

theorem mem_plus_oneOf : s ∈ (Pattern.plus (.oneOf ranges)).regular.language ↔
    s ≠ [] ∧ ∀ c ∈ s, isOneOf ranges c = true := by
  simp only [Pattern.regular, language_seq, language_star, mem_oneOf_mul, mem_kstar_oneOf]
  constructor
  · rintro ⟨c, t, rfl, hc, ht⟩
    exact ⟨List.cons_ne_nil c t, List.forall_mem_cons.mpr ⟨hc, ht⟩⟩
  · rintro ⟨hsome, hs⟩
    obtain ⟨c, t, rfl⟩ := List.exists_cons_of_ne_nil hsome
    obtain ⟨hc, ht⟩ := List.forall_mem_cons.mp hs
    exact ⟨c, t, rfl, hc, ht⟩

theorem mem_timesRegular_oneOf {least extra : ℕ} :
    s ∈ (Pattern.timesRegular (oneOf ranges) least extra).language ↔
      least ≤ s.length ∧ s.length ≤ least + extra ∧ ∀ c ∈ s, isOneOf ranges c = true := by
  -- First the repetitions that must come, then those that may.
  induction least generalizing s with
  | zero =>
    induction extra generalizing s with
    | zero =>
      rw [Pattern.timesRegular, language_blank, Language.mem_one]
      constructor
      · rintro rfl
        simp
      · rintro ⟨-, hlength, -⟩
        exact List.length_eq_zero_iff.mp (by omega)
    | succ extra ih =>
      rw [Pattern.timesRegular, language_alt, language_blank, language_seq, Language.mem_add,
        Language.mem_one, mem_oneOf_mul]
      constructor
      · rintro (rfl | ⟨c, t, rfl, hc, ht⟩)
        · simp
        · obtain ⟨-, hlength, ht⟩ := ih.mp ht
          exact ⟨Nat.zero_le _, by rw [List.length_cons]; omega, List.forall_mem_cons.mpr ⟨hc, ht⟩⟩
      · rintro ⟨-, hlength, hs⟩
        cases s with
        | nil => exact .inl rfl
        | cons c t =>
          obtain ⟨hc, ht⟩ := List.forall_mem_cons.mp hs
          rw [List.length_cons] at hlength
          exact .inr ⟨c, t, rfl, hc, ih.mpr ⟨Nat.zero_le _, by omega, ht⟩⟩
  | succ least ih =>
    rw [Pattern.timesRegular, language_seq, mem_oneOf_mul]
    constructor
    · rintro ⟨c, t, rfl, hc, ht⟩
      obtain ⟨hleast, hmost, ht⟩ := ih.mp ht
      exact ⟨by rw [List.length_cons]; omega, by rw [List.length_cons]; omega,
        List.forall_mem_cons.mpr ⟨hc, ht⟩⟩
    · rintro ⟨hleast, hmost, hs⟩
      cases s with
      | nil => simp at hleast
      | cons c t =>
        obtain ⟨hc, ht⟩ := List.forall_mem_cons.mp hs
        rw [List.length_cons] at hleast hmost
        exact ⟨c, t, rfl, hc, ih.mpr ⟨by omega, by omega, ht⟩⟩

theorem isOneOf_self {d : Char} : isOneOf [(c, c)] d = true ↔ d = c := by
  rw [isOneOf, List.any_cons, List.any_nil, Bool.or_false, Bool.and_eq_true, decide_eq_true_iff,
    decide_eq_true_iff]
  exact ⟨fun h => Char.le_antisymm h.2 h.1, fun h => h ▸ ⟨Char.le_refl _, Char.le_refl _⟩⟩

theorem mem_literalRegular : s ∈ (Pattern.literalRegular t).language ↔ s = t := by
  induction t generalizing s with
  | nil => rw [Pattern.literalRegular, language_blank, Language.mem_one]
  | cons d t ih =>
    rw [Pattern.literalRegular, language_seq, mem_oneOf_mul]
    constructor
    · rintro ⟨c, u, rfl, hc, hu⟩
      rw [isOneOf_self.mp hc, ih.mp hu]
    · rintro rfl
      exact ⟨d, t, rfl, isOneOf_self.mpr rfl, ih.mpr rfl⟩

theorem mem_literalRegular_mul : s ∈ (Pattern.literalRegular t).language * m ↔
    ∃ u, s = t ++ u ∧ u ∈ m := by
  rw [Language.mem_mul]
  constructor
  · rintro ⟨x, hx, u, hu, rfl⟩
    exact ⟨u, by rw [mem_literalRegular.mp hx], hu⟩
  · rintro ⟨u, rfl, hu⟩
    exact ⟨t, mem_literalRegular.mpr rfl, u, hu, rfl⟩

theorem mem_alt {p q : Pattern} : s ∈ (Pattern.alt p q).regular.language ↔
    s ∈ p.regular.language ∨ s ∈ q.regular.language := Iff.rfl

theorem mem_optional {p : Pattern} : s ∈ (Pattern.optional p).regular.language ↔
    s = [] ∨ s ∈ p.regular.language := by
  rw [Pattern.regular, language_alt, language_blank, Language.mem_add, Language.mem_one]

theorem mem_seq {p q : Pattern} : s ∈ (Pattern.seq p q).regular.language ↔
    ∃ x ∈ p.regular.language, ∃ y ∈ q.regular.language, x ++ y = s := Language.mem_mul

theorem mem_literal_seq {text : String} {p : Pattern} :
    s ∈ (Pattern.seq (.literal text) p).regular.language ↔
      ∃ u, s = text.toList ++ u ∧ u ∈ p.regular.language := mem_literalRegular_mul

end Ranges

end SkillPipeline.Text.Regular

namespace SkillPipeline.Text

structure Expression.Group where
  /-- The alternatives before the last bar. -/
  before : Regular := .never
  /-- What follows on that bar, the last first. -/
  pieces : List Regular := []
  /-- Whether a count may follow. -/
  countable : Bool := false

inductive Expression.Inside where
  | text
  | set (read : List Char)
  | count (read : List Char)
  deriving DecidableEq

structure Expression where
  /-- The groups around the one that is read, the innermost first. -/
  outer : List Expression.Group := []
  group : Expression.Group := {}
  inside : Expression.Inside := .text

namespace Expression

namespace Group

def regular (g : Group) : Regular :=
  .alt g.before (g.pieces.foldl (fun rest piece => .seq piece rest) .blank)

def bar (g : Group) : Group := { before := g.regular }

def push (g : Group) (piece : Regular) : Group :=
  { g with pieces := piece :: g.pieces, countable := true }

/-- The last piece, repeated. Nothing is counted twice. -/
def counted? (g : Group) (count : Regular → Regular) : Option Group :=
  match g.countable, g.pieces with
  | true, piece :: rest => some { g with pieces := count piece :: rest, countable := false }
  | _, _ => none

end Group

def ranges : List Char → List (Char × Char)
  | [] => []
  | a :: '-' :: b :: rest => (a, b) :: ranges rest
  | a :: rest => (a, a) :: ranges rest

/-- A set; its complement and escaped characters are not read. -/
def set? (read : List Char) : Option Regular :=
  if read.head? = some '^' || read.contains '\\' then none else some (.oneOf (ranges read))

def count? (read : List Char) : Option (Nat × Nat) :=
  match Text.splitBy (· == ',') read with
  | [least, most] =>
    if least.isEmpty || most.isEmpty || !(least ++ most).all Number.isDigit then none
    else some (Number.digitsValue least, Number.digitsValue most)
  | _ => none

/-- The characters that stand for something else and are not read. -/
def special : List Char := ['.', '\\', '^', '$', ']', '\x7d']

def step (e : Expression) (c : Char) : Option Expression :=
  match e.inside with
  | .set read =>
    if c = ']' then (set? read.reverse).map fun r => ⟨e.outer, e.group.push r, .text⟩
    else some { e with inside := .set (c :: read) }
  | .count read =>
    if c = '\x7d' then do
      let (least, most) ← count? read.reverse
      let group ← e.group.counted? fun r => Pattern.timesRegular r least (most - least)
      some ⟨e.outer, group, .text⟩
    else some { e with inside := .count (c :: read) }
  | .text =>
    if c = '(' then some ⟨e.group :: e.outer, {}, .text⟩
    else if c = ')' then
      match e.outer with
      | [] => none
      | group :: outer => some ⟨outer, group.push e.group.regular, .text⟩
    else if c = '|' then some { e with group := e.group.bar }
    else if c = '[' then some { e with inside := .set [] }
    else if c = '\x7b' then some { e with inside := .count [] }
    else if c = '+' then (e.group.counted? fun r => .seq r (.star r)).map ({ e with group := · })
    else if c = '*' then (e.group.counted? .star).map ({ e with group := · })
    else if c = '?' then (e.group.counted? (.alt .blank)).map ({ e with group := · })
    else if special.contains c then none
    else some { e with group := e.group.push (.oneOf [(c, c)]) }

/-- What a text between its anchors matches; bars stand in groups only. -/
def between? (s : List Char) : Option Regular := do
  let e ← s.foldlM step {}
  if e.outer.isEmpty && e.inside = .text && e.group.before = .never then some e.group.regular
  else none

/-- What an expression matches that is anchored at both ends. -/
def anchored? (text : String) : Option Regular :=
  match text.toList with
  | '^' :: rest => if rest.getLast? = some '$' then between? rest.dropLast else none
  | _ => none

/-- Whether a text matches an expression, which is anchored at both ends. -/
def Matches (expression text : String) : Prop :=
  ∃ r, anchored? expression = some r ∧ r.accepts text.toList = true

end Expression

end SkillPipeline.Text
