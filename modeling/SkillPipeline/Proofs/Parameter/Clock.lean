import SkillPipeline.Proofs.Skill.Values
import SkillPipeline.Proofs.Text.Basic

namespace SkillPipeline.TimeText

open Number

structure IsNumeral (s : List Char) : Prop where
  nonempty : s ≠ []
  digits : ∀ c ∈ s, isDigit c = true

/-- The number that digits make up in the decimal system. -/
def worth (digits : List Char) : ℕ :=
  Nat.ofDigits 10 (digits.reverse.map fun c => c.toNat - '0'.toNat)

/-- Digits with an optional fraction, those before the point, and the value of them all. -/
inductive DecimalText : (s whole : List Char) → ℚ → Prop
  | whole {digits : List Char} (h : IsNumeral digits) : DecimalText digits digits (worth digits)
  | fraction {digits fraction : List Char} (h : IsNumeral digits) (hfraction : IsNumeral fraction) :
      DecimalText (digits ++ '.' :: fraction) digits
        (worth digits + worth fraction / 10 ^ fraction.length)

/-- A clock time with its hours, minutes and seconds. Hours may be left out; minutes have one or two
digits, and so have seconds before the point. -/
inductive Clock : List Char → (h m : ℕ) → (s : ℚ) → Prop
  | short {minutes seconds whole : List Char} {s : ℚ} (hminutes : IsNumeral minutes)
      (hseconds : DecimalText seconds whole s) (two : minutes.length ≤ 2 ∧ whole.length ≤ 2) :
      Clock (minutes ++ ':' :: seconds) 0 (worth minutes) s
  | long {hours minutes seconds whole : List Char} {s : ℚ} (hhours : IsNumeral hours)
      (hminutes : IsNumeral minutes) (hseconds : DecimalText seconds whole s)
      (two : minutes.length ≤ 2 ∧ whole.length ≤ 2) :
      Clock (hours ++ ':' :: (minutes ++ ':' :: seconds)) (worth hours) (worth minutes) s

/-- The seconds that a text denotes. -/
inductive Denotes (text : List Char) : ℚ → Prop
  | plain {whole : List Char} {s : ℚ} (h : DecimalText text whole s) : Denotes text s
  | clock {h m : ℕ} {s : ℚ} (hclock : Clock text h m s) (hm : m < 60) (hs : s < 60) :
      Denotes text (3600 * h + 60 * m + s)

variable {s whole digits : List Char} {q : ℚ} {most : Option ℕ}

theorem digitsValue_eq_worth (digits : List Char) : digitsValue digits = worth digits := by
  induction digits using List.reverseRecOn with
  | nil => rfl
  | append_singleton digits c ih =>
    rw [worth, List.reverse_append, List.reverse_singleton, List.singleton_append, List.map_cons,
      Nat.ofDigits_cons, ← worth, ← ih, digitsValue, List.foldl_append, List.foldl_cons,
      List.foldl_nil, ← digitsValue, add_comm]

theorem worth_append (digits fraction : List Char) :
    worth (digits ++ fraction) = worth fraction + 10 ^ fraction.length * worth digits := by
  rw [worth, List.reverse_append, List.map_append, Nat.ofDigits_append, List.length_map,
    List.length_reverse]
  rfl

theorem worth_point (digits fraction : List Char) :
    (worth (digits ++ fraction) : ℚ) / 10 ^ fraction.length =
      worth digits + worth fraction / 10 ^ fraction.length := by
  rw [worth_append]
  push_cast
  field_simp
  ring

theorem isNumeral_iff : IsNumeral digits ↔ digits.isEmpty = false ∧ digits.all isDigit = true := by
  rw [List.isEmpty_eq_false_iff, List.all_eq_true]
  exact ⟨fun h => ⟨h.1, h.2⟩, fun h => ⟨h.1, h.2⟩⟩

theorem IsNumeral.ne_colon (h : IsNumeral digits) : ∀ c ∈ digits, (c == ':') = false := by
  intro c hc
  refine beq_false_of_ne ?_
  rintro rfl
  exact absurd (h.digits _ hc) (by decide)

theorem DecimalText.ne_colon (h : DecimalText s whole q) : ∀ c ∈ s, (c == ':') = false := by
  cases h with
  | whole h => exact h.ne_colon
  | fraction h hfraction =>
    intro c hc
    obtain hc | hc := List.mem_append.mp hc
    · exact h.ne_colon c hc
    · obtain rfl | hc := List.mem_cons.mp hc
      · rfl
      · exact hfraction.ne_colon c hc

theorem DecimalText.nonneg (h : DecimalText s whole q) : 0 ≤ q := by
  cases h <;> positivity

/-- The bound on the digits before the point is all that is asked beyond the form. -/
theorem readSeconds_eq_some {p : ℕ × ℕ} : readSeconds most s = some p ↔
    (∀ k, most = some k → (s.takeWhile isDigit).length ≤ k) ∧ readSeconds none s = some p := by
  cases most with
  | none => simp
  | some k => by_cases h : (s.takeWhile isDigit).length ≤ k <;> simp [readSeconds, h]

theorem DecimalText.takeWhile_eq (h : DecimalText s whole q) : s.takeWhile isDigit = whole := by
  cases h with
  | whole h => exact List.takeWhile_eq_self_iff.mpr h.digits
  | fraction h hfraction =>
    rw [List.takeWhile_append_of_pos h.digits, List.takeWhile_cons_of_neg (by decide),
      List.append_nil]

theorem readSeconds_of_decimalText (h : DecimalText s whole q) :
    ∃ n places, readSeconds none s = some (n, places) ∧ (n : ℚ) / 10 ^ places = q := by
  have htake := h.takeWhile_eq
  cases h with
  | whole h =>
    have hdrop : s.dropWhile isDigit = [] := List.dropWhile_eq_nil_iff.mpr h.digits
    refine ⟨worth s, 0, ?_, by simp⟩
    simp [readSeconds, htake, hdrop, h.nonempty, digitsValue_eq_worth]
  | @fraction _ fraction h hfraction =>
    have hdrop : (whole ++ '.' :: fraction).dropWhile isDigit = '.' :: fraction := by
      rw [List.dropWhile_append_of_pos h.digits, List.dropWhile_cons_of_neg (by decide)]
    obtain ⟨hsome, hdigits⟩ := isNumeral_iff.mp hfraction
    refine ⟨worth (whole ++ fraction), fraction.length, ?_, worth_point whole fraction⟩
    simp only [readSeconds, htake, hdrop, hsome, hdigits, digitsValue_eq_worth]
    simp [h.nonempty]

theorem decimalText_of_readSeconds {n places : ℕ} (h : readSeconds none s = some (n, places)) :
    DecimalText s (s.takeWhile isDigit) (n / 10 ^ places) := by
  have hparts := List.takeWhile_append_dropWhile (p := isDigit) (l := s)
  rw [readSeconds] at h
  simp only [Bool.not_true, Bool.or_false] at h
  split at h
  · cases h
  · next hsome =>
    have hwhole : IsNumeral (s.takeWhile isDigit) :=
      isNumeral_iff.mpr ⟨Bool.eq_false_iff.mpr hsome, List.all_takeWhile⟩
    split at h
    · next hdrop =>
      rw [hdrop, List.append_nil] at hparts
      cases h
      rw [digitsValue_eq_worth, pow_zero, div_one, hparts]
      exact .whole (hparts ▸ hwhole)
    · next fraction hdrop =>
      split at h
      · cases h
      · next hdigits =>
        have hfraction : IsNumeral fraction := isNumeral_iff.mpr (by simpa using hdigits)
        cases h
        have hdecimal := DecimalText.fraction hwhole hfraction
        rwa [← hdrop, hparts, ← worth_point, ← digitsValue_eq_worth] at hdecimal
    · cases h

theorem readHours_eq_some {n : ℕ} : readHours s = some n ↔ IsNumeral s ∧ worth s = n := by
  rw [isNumeral_iff, readHours, digitsValue_eq_worth]
  cases s.isEmpty <;> cases s.all isDigit <;> simp

theorem readMinutes_eq_some {n : ℕ} :
    readMinutes s = some n ↔ IsNumeral s ∧ s.length ≤ 2 ∧ worth s = n := by
  have hlength : s.length = 1 ∨ s.length = 2 ↔ s.isEmpty = false ∧ s.length ≤ 2 := by
    rw [List.isEmpty_eq_false_iff, ← List.length_pos_iff]
    omega
  rw [isNumeral_iff, readMinutes, digitsValue_eq_worth]
  by_cases h : s.length = 1 ∨ s.length = 2
  · obtain ⟨hsome, htwo⟩ := hlength.mp h
    cases s.all isDigit <;> simp [h, hsome, htwo]
  · rw [if_neg h]
    exact iff_of_false nofun fun hread => h (hlength.mpr ⟨hread.1.1, hread.2.1⟩)

theorem readSeconds_two (h : DecimalText s whole q) (two : whole.length ≤ 2) :
    ∃ n places, readSeconds (some 2) s = some (n, places) ∧ (n : ℚ) / 10 ^ places = q := by
  obtain ⟨n, places, hread, hq⟩ := readSeconds_of_decimalText h
  refine ⟨n, places, readSeconds_eq_some.mpr ⟨fun k hk => ?_, hread⟩, hq⟩
  rw [h.takeWhile_eq, ← Option.some.inj hk]
  exact two

theorem read_of_clock {h m : ℕ} (hclock : Clock s h m q) :
    ∃ n places, read s = some (.clock h m n places) ∧ (n : ℚ) / 10 ^ places = q := by
  cases hclock with
  | @short minutes seconds whole _ hminutes hseconds two =>
    obtain ⟨n, places, hread, hq⟩ := readSeconds_two hseconds two.2
    have hparts : Text.splitBy (· == ':') (minutes ++ ':' :: seconds) = [minutes, seconds] := by
      rw [Text.splitBy_append hminutes.ne_colon rfl, Text.splitBy_of_none hseconds.ne_colon]
    have hm := readMinutes_eq_some.mpr ⟨hminutes, two.1, rfl⟩
    exact ⟨n, places, by simp [read, hparts, hm, hread], hq⟩
  | @long hours minutes seconds whole _ hhours hminutes hseconds two =>
    obtain ⟨n, places, hread, hq⟩ := readSeconds_two hseconds two.2
    have hparts : Text.splitBy (· == ':') (hours ++ ':' :: (minutes ++ ':' :: seconds)) =
        [hours, minutes, seconds] := by
      rw [Text.splitBy_append hhours.ne_colon rfl, Text.splitBy_append hminutes.ne_colon rfl,
        Text.splitBy_of_none hseconds.ne_colon]
    have hh := readHours_eq_some.mpr ⟨hhours, rfl⟩
    have hm := readMinutes_eq_some.mpr ⟨hminutes, two.1, rfl⟩
    exact ⟨n, places, by simp [read, hparts, hh, hm, hread], hq⟩

theorem read_of_decimalText (h : DecimalText s whole q) :
    ∃ n places, read s = some (.plain n places) ∧ (n : ℚ) / 10 ^ places = q := by
  obtain ⟨n, places, hread, hq⟩ := readSeconds_of_decimalText h
  exact ⟨n, places, by simp [read, Text.splitBy_of_none h.ne_colon, hread], hq⟩

theorem decimalText_of_readSeconds_two {n places : ℕ}
    (h : readSeconds (some 2) s = some (n, places)) :
    ∃ whole, DecimalText s whole (n / 10 ^ places) ∧ whole.length ≤ 2 := by
  obtain ⟨htwo, hread⟩ := readSeconds_eq_some.mp h
  exact ⟨_, decimalText_of_readSeconds hread, htwo 2 rfl⟩

theorem read_cases {t : TimeText} (h : read s = some t) :
    (∃ n places whole, t = .plain n places ∧ DecimalText s whole (n / 10 ^ places)) ∨
      ∃ h m n places, t = .clock h m n places ∧ Clock s h m (n / 10 ^ places) := by
  -- By the number of parts: seconds alone, minutes and seconds, or all three.
  obtain hparts | ⟨first, c, rest, hc, rfl, hparts⟩ := Text.splitBy_cases (· == ':') s
  · rw [read, hparts] at h
    obtain ⟨⟨n, places⟩, hread, rfl⟩ := Option.map_eq_some_iff.mp h
    exact .inl ⟨n, places, _, rfl, decimalText_of_readSeconds hread⟩
  obtain rfl : c = ':' := beq_iff_eq.mp hc
  rw [read, hparts] at h
  obtain hrest | ⟨second, c, third, hc, rfl, hrest⟩ := Text.splitBy_cases (· == ':') rest
  · rw [hrest] at h
    obtain ⟨m, hm, h⟩ := Option.bind_eq_some_iff.mp h
    obtain ⟨⟨n, places⟩, hread, h⟩ := Option.bind_eq_some_iff.mp h
    obtain ⟨hminutes, htwo, rfl⟩ := readMinutes_eq_some.mp hm
    obtain ⟨whole, hseconds, hwhole⟩ := decimalText_of_readSeconds_two hread
    cases h
    exact .inr ⟨0, _, n, places, rfl, .short hminutes hseconds ⟨htwo, hwhole⟩⟩
  obtain rfl : c = ':' := beq_iff_eq.mp hc
  rw [hrest] at h
  obtain hthird | ⟨_, _, fourth, -, -, hthird⟩ := Text.splitBy_cases (· == ':') third
  · rw [hthird] at h
    obtain ⟨hours, hh, h⟩ := Option.bind_eq_some_iff.mp h
    obtain ⟨m, hm, h⟩ := Option.bind_eq_some_iff.mp h
    obtain ⟨⟨n, places⟩, hread, h⟩ := Option.bind_eq_some_iff.mp h
    obtain ⟨hhours, rfl⟩ := readHours_eq_some.mp hh
    obtain ⟨hminutes, htwo, rfl⟩ := readMinutes_eq_some.mp hm
    obtain ⟨whole, hseconds, hwhole⟩ := decimalText_of_readSeconds_two hread
    cases h
    exact .inr ⟨_, _, n, places, rfl, .long hhours hminutes hseconds ⟨htwo, hwhole⟩⟩
  · -- A fourth part is more than a clock time has.
    obtain ⟨part, parts, hfourth⟩ :=
      List.exists_cons_of_ne_nil (Text.splitBy_ne_nil (· == ':') fourth)
    rw [hthird, hfourth] at h
    cases h

theorem clock_of_read {h m n places : ℕ} (hread : read s = some (.clock h m n places)) :
    Clock s h m (n / 10 ^ places) := by
  obtain ⟨n, places, whole, heq, -⟩ | ⟨h, m, n, places, heq, hclock⟩ := read_cases hread
  · cases heq
  · cases heq
    exact hclock

theorem seconds?_clock (h m n places : ℕ) : ((clock h m n places).seconds? : Option ℚ) =
    if (m : ℚ) < 60 ∧ (n : ℚ) / 10 ^ places < 60 then
      some (3600 * (h : ℚ) + 60 * (m : ℚ) + (n : ℚ) / 10 ^ places) else none := by
  have hless (x y : ℚ) : Arithmetic.less x y = decide (x < y) := rfl
  have hnat (k : ℕ) : (Arithmetic.ofNat k : ℚ) = k := rfl
  have hplaces : (Arithmetic.ofPlaces n places : ℚ) = n / 10 ^ places := rfl
  simp only [seconds?, hless, hnat, hplaces, Nat.cast_ofNat, Bool.and_eq_true, decide_eq_true_eq,
    mul_comm]

/-- A text is read just if it is spelled as a time, and then as what it denotes. -/
theorem parse_eq_some_iff {text : String} :
    parse ℚ text = some q ↔ Denotes (Text.trimChars text.toList) q := by
  rw [parse, Option.bind_eq_some_iff]
  constructor
  · rintro ⟨t, hread, hseconds⟩
    obtain ⟨n, places, whole, rfl, hdecimal⟩ | ⟨h, m, n, places, rfl, hclock⟩ := read_cases hread
    · cases hseconds
      exact .plain hdecimal
    · rw [seconds?_clock] at hseconds
      split at hseconds
      · next hsixty =>
        cases hseconds
        exact .clock hclock (by exact_mod_cast hsixty.1) hsixty.2
      · cases hseconds
  · rintro (hdecimal | ⟨hclock, hm, hs⟩)
    · obtain ⟨n, places, hread, hq⟩ := read_of_decimalText hdecimal
      exact ⟨_, hread, congrArg some hq⟩
    · obtain ⟨n, places, hread, rfl⟩ := read_of_clock hclock
      exact ⟨_, hread, by rw [seconds?_clock, if_pos ⟨by exact_mod_cast hm, hs⟩]⟩

theorem Clock.nonneg {h m : ℕ} (hclock : Clock s h m q) : 0 ≤ q := by
  cases hclock with
  | short _ hseconds _ => exact hseconds.nonneg
  | long _ _ hseconds _ => exact hseconds.nonneg

theorem Denotes.nonneg (h : Denotes s q) : 0 ≤ q := by
  cases h with
  | plain hdecimal => exact hdecimal.nonneg
  | clock hclock _ _ =>
    have := hclock.nonneg
    positivity

theorem seconds_of_clock {text : String} {h m : ℕ} {sec : ℚ}
    (hclock : Clock (Text.trimChars text.toList) h m sec) (hparse : parse ℚ text = some q) :
    m < 60 ∧ sec < 60 ∧ q = 3600 * h + 60 * m + sec := by
  obtain ⟨n, places, hread, rfl⟩ := read_of_clock hclock
  rw [parse, hread, Option.bind_some, seconds?_clock] at hparse
  split at hparse
  · next hsixty =>
    exact ⟨by exact_mod_cast hsixty.1, hsixty.2, (Option.some.inj hparse).symm⟩
  · cases hparse

/-- Of two counts of a unit with a rest, the larger count decides, and then the rest. -/
theorem unit_lt_unit {unit r r' : ℚ} {n n' : ℕ} (hr : 0 ≤ r ∧ r < unit) (hr' : 0 ≤ r' ∧ r' < unit) :
    unit * n + r < unit * n' + r' ↔ n < n' ∨ n = n' ∧ r < r' := by
  have hunit : 0 ≤ unit := hr.1.trans hr.2.le
  have hless {k k' : ℕ} (h : k < k') : unit * k + unit ≤ unit * k' := by
    have hcast : (k : ℚ) + 1 ≤ k' := by exact_mod_cast h
    calc unit * k + unit = unit * (k + 1) := by ring
      _ ≤ unit * k' := by gcongr
  obtain h | rfl | h := lt_trichotomy n n'
  · exact iff_of_true (by linarith [hless h]) (.inl h)
  · simp
  · refine iff_of_false (by linarith [hless h]) ?_
    rintro (h' | ⟨rfl, -⟩)
    · exact h.not_gt h'
    · exact h.false

theorem clock_lt_clock {h m h' m' : ℕ} {sec sec' : ℚ} (hm : m < 60) (hsec : 0 ≤ sec ∧ sec < 60)
    (hm' : m' < 60) (hsec' : 0 ≤ sec' ∧ sec' < 60) :
    3600 * (h : ℚ) + 60 * m + sec < 3600 * h' + 60 * m' + sec' ↔
      toLex (h, toLex (m, sec)) < toLex (h', toLex (m', sec')) := by
  have hminutes {k : ℕ} {r : ℚ} (hk : k < 60) (hr : 0 ≤ r ∧ r < 60) :
      0 ≤ 60 * (k : ℚ) + r ∧ 60 * (k : ℚ) + r < 3600 := by
    have hcast : (k : ℚ) + 1 ≤ 60 := by exact_mod_cast hk
    constructor <;> linarith [hr.1, hr.2, Nat.cast_nonneg (α := ℚ) k]
  rw [add_assoc, add_assoc, unit_lt_unit (hminutes hm hsec) (hminutes hm' hsec'),
    unit_lt_unit hsec hsec']
  simp only [Prod.Lex.toLex_lt_toLex]

/-- Clock times are ordered as their parts are, and so no two of them are worth the same. -/
theorem parse_clock_lt {a b : String} {h m h' m' : ℕ} {sec sec' q' : ℚ}
    (ha : Clock (Text.trimChars a.toList) h m sec) (hb : Clock (Text.trimChars b.toList) h' m' sec')
    (hq : parse ℚ a = some q) (hq' : parse ℚ b = some q') :
    q < q' ↔ toLex (h, toLex (m, sec)) < toLex (h', toLex (m', sec')) := by
  obtain ⟨hm, hsec, rfl⟩ := seconds_of_clock ha hq
  obtain ⟨hm', hsec', rfl⟩ := seconds_of_clock hb hq'
  exact clock_lt_clock hm ⟨ha.nonneg, hsec⟩ hm' ⟨hb.nonneg, hsec'⟩

theorem parse_clock_inj {a b : String} {h m h' m' : ℕ} {sec sec' q' : ℚ}
    (ha : Clock (Text.trimChars a.toList) h m sec) (hb : Clock (Text.trimChars b.toList) h' m' sec')
    (hq : parse ℚ a = some q) (hq' : parse ℚ b = some q') :
    q = q' ↔ h = h' ∧ m = m' ∧ sec = sec' := by
  constructor
  · intro heq
    have hparts : toLex (h, toLex (m, sec)) = toLex (h', toLex (m', sec')) :=
      le_antisymm (not_lt.mp fun hlt => ((parse_clock_lt hb ha hq' hq).mpr hlt).ne heq.symm)
        (not_lt.mp fun hlt => ((parse_clock_lt ha hb hq hq').mpr hlt).ne heq)
    simpa using hparts
  · rintro ⟨rfl, rfl, rfl⟩
    obtain ⟨-, -, rfl⟩ := seconds_of_clock ha hq
    obtain ⟨-, -, rfl⟩ := seconds_of_clock hb hq'
    rfl

end SkillPipeline.TimeText

namespace SkillPipeline.ParameterSpec

open Number

section Seconds

variable {α : Type} [Arithmetic α] {least? most? : Option α} {finite : α → Prop} {s : String}
  {n : α}

/-- The number is not beyond a bound, where there is one. -/
structure InRange (least? most? : Option α) (n : α) : Prop where
  least : ∀ bound, least? = some bound → Arithmetic.less n bound = false
  most : ∀ bound, most? = some bound → Arithmetic.less bound n = false

/-- What a time parameter asks of a text, in any arithmetic. -/
def TakesText (least? most? : Option α) (s : String) : Prop :=
  ∃ n, TimeText.parse α s = some n ∧ InRange least? most? n

/-- What a time parameter asks of a number of seconds. -/
structure TakesSeconds (finite : α → Prop) (least? most? : Option α) (n : α) : Prop where
  finite : finite n
  nonnegative : Arithmetic.less n (Arithmetic.ofNat 0) = false
  range : InRange least? most? n

theorem takesText_iff_takesSeconds (hparse : TimeText.parse α s = some n) (hfinite : finite n)
    (hnonnegative : Arithmetic.less n (Arithmetic.ofNat 0) = false) :
    TakesText least? most? s ↔ TakesSeconds finite least? most? n := by
  constructor
  · rintro ⟨m, hm, hrange⟩
    obtain rfl : n = m := Option.some.inj (hparse.symm.trans hm)
    exact ⟨hfinite, hnonnegative, hrange⟩
  · exact fun h => ⟨n, hparse, h.range⟩

end Seconds

variable {spec : ParameterSpec} {s : String} {n : Float}

theorem inRange_iff : InRange spec.min? spec.max? n ↔ spec.checkBounds n = .ok () := by
  have hless (x y : Float) : Arithmetic.less x y = false ↔ ¬x < y := decide_eq_false_iff_not
  rw [checkBounds_eq_ok]
  exact ⟨fun h => ⟨fun bound hbound => (hless _ _).mp (h.least bound hbound),
      fun bound hbound => (hless _ _).mp (h.most bound hbound)⟩,
    fun h => ⟨fun bound hbound => (hless _ _).mpr (h.1 bound hbound),
      fun bound hbound => (hless _ _).mpr (h.2 bound hbound)⟩⟩

theorem exists_map_eq_ok {ε β : Type} {x : Except ε Unit} {f : Unit → β} :
    (∃ w, x.map f = .ok w) ↔ x = .ok () := by
  cases x <;> simp [Except.map]

theorem fit_text_iff (htype : spec.type = .time) :
    (∃ w, spec.fit (.string s) = .ok w) ↔ TakesText spec.min? spec.max? s := by
  simp only [fit, htype, checkTime, TakesText, inRange_iff]
  cases TimeText.parse Float s with
  | none => simp
  | some n => simp [exists_map_eq_ok]

theorem fit_number_iff (htype : spec.type = .time) : (∃ w, spec.fit (.number n) = .ok w) ↔
    TakesSeconds (fun n : Float => n.isFinite = true) spec.min? spec.max? n := by
  have hnonnegative : (Arithmetic.less n (Arithmetic.ofNat 0) = false) ↔ ¬n < 0 :=
    decide_eq_false_iff_not
  have htakes : TakesSeconds (fun n : Float => n.isFinite = true) spec.min? spec.max? n ↔
      n.isFinite = true ∧ ¬n < 0 ∧ spec.checkBounds n = .ok () := by
    rw [← hnonnegative, ← inRange_iff]
    exact ⟨fun h => ⟨h.1, h.2, h.3⟩, fun h => ⟨h.1, h.2.1, h.2.2⟩⟩
  rw [htakes]
  simp only [fit, htype, checkTime]
  split
  · next h =>
    constructor
    · rintro ⟨w, hw⟩
      cases hw
    · intro htaken
      simp [htaken.1, htaken.2.1] at h
  · next h =>
    rw [Bool.or_eq_true, not_or, Bool.not_eq_true', Bool.not_eq_false, decide_eq_true_iff] at h
    rw [exists_map_eq_ok, and_iff_right h.1, and_iff_right h.2]

end SkillPipeline.ParameterSpec

namespace SkillPipeline.TimeText

open Number ParameterSpec

/-- A time is read exactly: a text is a time just if it is spelled as one, and is worth what its
parts are worth, which is never negative. Clock times are ordered as their hours, minutes and
seconds are, so that distinct ones are worth distinct times. A time parameter takes a text just if
it takes the number of seconds that the text is worth; of doubles this holds as long as the number
is finite. -/
theorem parse_exact (a b : String) :
    (∀ q, parse ℚ a = some q ↔ Denotes (Text.trimChars a.toList) q) ∧
      (∀ q, parse ℚ a = some q → 0 ≤ q) ∧
      (∀ h m sec h' m' sec' q q', Clock (Text.trimChars a.toList) h m sec →
        Clock (Text.trimChars b.toList) h' m' sec' → parse ℚ a = some q → parse ℚ b = some q' →
          (q < q' ↔ toLex (h, toLex (m, sec)) < toLex (h', toLex (m', sec'))) ∧
            (q = q' ↔ h = h' ∧ m = m' ∧ sec = sec')) ∧
      (∀ least? most? : Option ℚ, TakesText least? most? a ↔
        ∃ q, parse ℚ a = some q ∧ TakesSeconds (fun _ => True) least? most? q) ∧
      ∀ spec : ParameterSpec, spec.type = .time →
        ((∃ w, spec.fit (.string a) = .ok w) ↔ TakesText spec.min? spec.max? a) ∧
          (∀ n, (∃ w, spec.fit (.number n) = .ok w) ↔
            TakesSeconds (fun n : Float => n.isFinite = true) spec.min? spec.max? n) ∧
          ∀ n, parse Float a = some n → n.isFinite = true →
            ((∃ w, spec.fit (.string a) = .ok w) ↔ ∃ w, spec.fit (.number n) = .ok w) := by
  have hnonneg : ∀ q, parse ℚ a = some q → 0 ≤ q := fun q hq => (parse_eq_some_iff.mp hq).nonneg
  refine ⟨fun q => parse_eq_some_iff, hnonneg, ?_, ?_, ?_⟩
  · intro h m sec h' m' sec' q q' ha hb hq hq'
    exact ⟨parse_clock_lt ha hb hq hq', parse_clock_inj ha hb hq hq'⟩
  -- A time that is not negative passes the lower test of a time parameter by itself.
  · intro least? most?
    constructor
    · rintro ⟨q, hq, hrange⟩
      have hless : Arithmetic.less q (Arithmetic.ofNat 0) = false :=
        decide_eq_false (not_lt.mpr (hnonneg q hq))
      exact ⟨q, hq, trivial, hless, hrange⟩
    · rintro ⟨q, hq, htakes⟩
      exact ⟨q, hq, htakes.range⟩
  · intro spec htype
    refine ⟨fit_text_iff htype, fun n => fit_number_iff htype, fun n hn hfinite => ?_⟩
    rw [fit_text_iff htype, fit_number_iff htype]
    have hless : Arithmetic.less n (Arithmetic.ofNat 0) = false :=
      decide_eq_false (not_lt_of_le (notNegative_of_parse hn).nonneg)
    exact takesText_iff_takesSeconds hn hfinite hless

def hourSpec : ParameterSpec := { name := "start", type := .time, max? := some 3600 }

theorem parse_exact_hour :
    Clock (Text.trimChars "0:59:59.75".toList) 0 59 (5975 / 10 ^ 2) ∧
      Clock (Text.trimChars " 1:00:00".toList) 1 0 0 ∧
      parse ℚ "0:59:59.75" = some (14399 / 4) ∧ parse ℚ " 1:00:00" = some 3600 ∧
      ((14399 / 4 : ℚ) < 3600 ↔
        toLex (0, toLex (59, (5975 / 10 ^ 2 : ℚ))) < toLex (1, toLex (0, (0 : ℚ)))) ∧
      ((∃ w, hourSpec.fit (.string "0:59:59.75") = .ok w) ↔
        ∃ w, hourSpec.fit (.number 3599.75) = .ok w) := by
  have hread : read (Text.trimChars "0:59:59.75".toList) = some (.clock 0 59 5975 2) := by
    decide +kernel
  have hread' : read (Text.trimChars " 1:00:00".toList) = some (.clock 1 0 0 0) := by
    decide +kernel
  have ha : Clock (Text.trimChars "0:59:59.75".toList) 0 59 (5975 / 10 ^ 2) :=
    clock_of_read hread
  have hb : Clock (Text.trimChars " 1:00:00".toList) 1 0 0 := by simpa using clock_of_read hread'
  have hq : parse ℚ "0:59:59.75" = some (14399 / 4) := by decide +kernel
  have hq' : parse ℚ " 1:00:00" = some 3600 := by decide +kernel
  have hseconds : parse Float "0:59:59.75" = some 3599.75 := by decide +kernel
  obtain ⟨-, -, hclock, -, hspec⟩ := parse_exact "0:59:59.75" " 1:00:00"
  obtain ⟨-, -, hdouble⟩ := hspec hourSpec rfl
  exact ⟨ha, hb, hq, hq', (hclock _ _ _ _ _ _ _ _ ha hb hq hq').1,
    hdouble 3599.75 hseconds (by decide)⟩

end SkillPipeline.TimeText
