import Mathlib.Data.List.Basic
import Mathlib.Data.List.DropRight
import Mathlib.Tactic.IntervalCases
import SkillPipeline.Text.Basic
import SkillPipeline.Text.Lowercase

namespace SkillPipeline.Text

variable {c x : Char} {s t : List Char}

theorem trimLeft_trimChars (s : List Char) : trimLeft (trimChars s) = trimChars s := by
  obtain ⟨rest, hrest⟩ : trimChars s <+: trimLeft s := List.rdropWhile_prefix isBlank (trimLeft s)
  refine List.dropWhile_eq_self_iff.mpr fun hpos => ?_
  have hlong : 0 < (trimLeft s).length := by
    rw [← hrest, List.length_append]
    exact Nat.lt_of_lt_of_le hpos (Nat.le_add_right _ _)
  have hfirst : ¬ isBlank ((trimLeft s)[0]) = true := List.dropWhile_get_zero_not isBlank s hlong
  have hsame : (trimLeft s)[0] = (trimChars s)[0] := by
    simp only [← hrest, List.getElem_append_left hpos]
  rwa [hsame] at hfirst

theorem trimChars_trimChars (s : List Char) : trimChars (trimChars s) = trimChars s := by
  rw [trimChars, trimLeft_trimChars]
  exact List.rdropWhile_idempotent isBlank (trimLeft s)

theorem toList_trim (s : String) : (trim s).toList = trimChars s.toList := String.toList_ofList

theorem trim_trim (s : String) : trim (trim s) = trim s := by
  rw [← String.toList_inj, toList_trim, toList_trim, trimChars_trimChars]

theorem trimChars_eq_nil {s : List Char} : trimChars s = [] ↔ ∀ c ∈ s, isBlank c = true := by
  rw [trimChars, trimRight, List.reverse_eq_nil_iff, trimLeft, trimLeft, List.dropWhile_eq_nil_iff]
  constructor
  · intro h c hc
    rw [← List.takeWhile_append_dropWhile (p := isBlank) (l := s)] at hc
    obtain hc | hc := List.mem_append.mp hc
    · exact List.mem_takeWhile_imp hc
    · exact h c (List.mem_reverse.mpr hc)
  · intro h c hc
    exact h c ((List.dropWhile_sublist isBlank).subset (List.mem_reverse.mp hc))

theorem trimLeft_eq_self (h : s.head?.map isBlank = some false) : trimLeft s = s := by
  cases s with
  | nil => cases h
  | cons c rest =>
    have hc : ¬isBlank c = true := by simpa using h
    exact List.dropWhile_cons_of_neg hc

/-- White space around a text that has none at its ends is all that trimming takes away. -/
theorem trimChars_append {before after : List Char} (hfirst : s.head?.map isBlank = some false)
    (hlast : s.getLast?.map isBlank = some false) (hbefore : ∀ c ∈ before, isBlank c = true)
    (hafter : ∀ c ∈ after, isBlank c = true) : trimChars (before ++ s ++ after) = s := by
  have hfirst' : (s ++ after).head?.map isBlank = some false := by
    cases s with
    | nil => cases hfirst
    | cons c rest => exact hfirst
  have hleft : trimLeft (before ++ s ++ after) = s ++ after := by
    rw [trimLeft, List.append_assoc, List.dropWhile_append_of_pos hbefore]
    exact trimLeft_eq_self hfirst'
  have hright : trimLeft (s ++ after).reverse = s.reverse := by
    rw [trimLeft, List.reverse_append,
      List.dropWhile_append_of_pos fun c hc => hafter c (List.mem_reverse.mp hc)]
    exact trimLeft_eq_self (by rwa [List.head?_reverse])
  rw [trimChars, hleft, trimRight, hright, List.reverse_reverse]

theorem ends_of_trimChars (h : trimChars s = s) (hs : s ≠ []) :
    s.head?.map isBlank = some false ∧ s.getLast?.map isBlank = some false := by
  have hleft : trimLeft s = s := by rw [← h, trimLeft_trimChars]
  have hright : s.rdropWhile isBlank = s := by
    rw [trimChars, hleft] at h
    exact h
  constructor
  · have hfirst := List.dropWhile_eq_self_iff.mp hleft (List.length_pos_of_ne_nil hs)
    rw [List.head?_eq_some_head hs, List.head_eq_getElem]
    simpa using hfirst
  · have hlast := List.rdropWhile_eq_self_iff.mp hright hs
    rw [List.getLast?_eq_some_getLast hs]
    simpa using hlast

theorem lowerChar_ne_nil (c : Char) : lowerChar c ≠ [] := by
  rw [lowerChar]
  split
  · exact List.cons_ne_nil _ _
  · split
    · exact List.cons_ne_nil _ _
    · split <;> exact List.cons_ne_nil _ _

theorem lowerChars_eq_nil {s : List Char} : lowerChars s = [] ↔ s = [] := by
  cases s with
  | nil => exact iff_of_true rfl rfl
  | cons c rest =>
    refine iff_of_false (fun h => ?_) (List.cons_ne_nil _ _)
    rw [lowerChars, lowerFrom, List.append_eq_nil_iff] at h
    split at h
    · cases h.1
    · exact lowerChar_ne_nil c h.1

def blankCodes : List Nat :=
  [0x9, 0xA, 0xB, 0xC, 0xD, 0x20, 0xA0, 0x1680, 0x2000, 0x2001, 0x2002, 0x2003, 0x2004, 0x2005,
    0x2006, 0x2007, 0x2008, 0x2009, 0x200A, 0x2028, 0x2029, 0x202F, 0x205F, 0x3000, 0xFEFF]

theorem mem_blankCodes (h : isBlank c = true) : c.toNat ∈ blankCodes := by
  simp only [isBlank, Bool.or_eq_true, Bool.and_eq_true, decide_eq_true_eq] at h
  rcases h with (((((((((rfl | ⟨hlow, hhigh⟩) | rfl) | rfl) | ⟨hlow, hhigh⟩) | rfl) | rfl) | rfl) |
    rfl) | rfl) | rfl
  any_goals decide
  · have hlow : 9 ≤ c.toNat := hlow
    have hhigh : c.toNat ≤ 13 := hhigh
    interval_cases c.toNat <;> decide
  · have hlow : 0x2000 ≤ c.toNat := hlow
    have hhigh : c.toNat ≤ 0x200A := hhigh
    interval_cases c.toNat <;> decide

theorem lowerChar_of_isBlank (h : isBlank c = true) : lowerChar c = [c] := by
  have hall : blankCodes.all (fun n => lowerChar (Char.ofNat n) == [Char.ofNat n]) = true := by
    decide +kernel
  have hcode := List.all_eq_true.mp hall c.toNat (mem_blankCodes h)
  rwa [Char.ofNat_toNat, beq_iff_eq] at hcode

theorem lowerRanges_apart : ∀ r ∈ lowerRanges, ∀ n ∈ blankCodes,
    ¬(r.first + r.shift ≤ n ∧ (n : Int) ≤ r.last + r.shift) := by
  have hall : lowerRanges.all (fun r => blankCodes.all fun n =>
      !decide (r.first + r.shift ≤ n ∧ (n : Int) ≤ r.last + r.shift)) = true := by
    decide +kernel
  intro r hr n hn
  have hapart := List.all_eq_true.mp (List.all_eq_true.mp hall r hr) n hn
  rwa [Bool.not_eq_true', decide_eq_false_iff_not] at hapart

theorem isBlank_of_toLower (hascii : c.toNat < 128) (h : isBlank c.toLower = true) :
    isBlank c = true := by
  have hall : (List.range 128).all (fun n =>
      !isBlank (Char.ofNat n).toLower || isBlank (Char.ofNat n)) = true := by decide +kernel
  have hcode := List.all_eq_true.mp hall c.toNat (List.mem_range.mpr hascii)
  rwa [Char.ofNat_toNat, h] at hcode

theorem isBlank_shifted {r : CaseRange} (hr : r ∈ lowerRanges) (hfirst : r.first ≤ c.toNat)
    (hlast : c.toNat ≤ r.last) : isBlank (Char.ofNat (c.toNat + r.shift).toNat) = false := by
  rw [← Bool.not_eq_true]
  intro h
  have hcode := mem_blankCodes h
  by_cases hvalid : ((c.toNat : Int) + r.shift).toNat.isValidChar
  · rw [Char.ofNat, dif_pos hvalid] at hcode
    change ((c.toNat : Int) + r.shift).toNat ∈ blankCodes at hcode
    have hpos : ((c.toNat : Int) + r.shift).toNat ≠ 0 := by
      intro hzero
      rw [hzero] at hcode
      exact absurd hcode (by decide)
    have hapart := lowerRanges_apart r hr _ hcode
    omega
  · rw [Char.ofNat, dif_neg hvalid] at hcode
    exact absurd hcode (by decide)

theorem isBlank_of_lowerChar (hx : x ∈ lowerChar c) (h : isBlank x = true) : isBlank c = true := by
  unfold lowerChar at hx
  dsimp only at hx
  split at hx
  · next hascii =>
    obtain rfl := List.mem_singleton.mp hx
    exact isBlank_of_toLower hascii h
  · split at hx
    · rcases List.mem_pair.mp hx with rfl | rfl
      · exact absurd h (by decide)
      · exact absurd h (by decide)
    · split at hx
      · next r hfind =>
        have hin := List.find?_some hfind
        simp only [Bool.and_eq_true, decide_eq_true_eq] at hin
        have hshifted := isBlank_shifted (List.mem_of_find?_eq_some hfind) hin.1.1 hin.1.2
        rw [List.mem_singleton.mp hx, hshifted] at h
        cases h
      · rwa [List.mem_singleton.mp hx] at h

theorem isBlank_of_mem_lowerChar (hx : x ∈ lowerChar c) : isBlank x = isBlank c := by
  rw [Bool.eq_iff_iff]
  constructor
  · exact isBlank_of_lowerChar hx
  · intro h
    rw [lowerChar_of_isBlank h, List.mem_singleton] at hx
    rwa [hx]

theorem exists_lowerFrom_cons (b : Bool) (c : Char) (rest : List Char) :
    ∃ form later, form ≠ [] ∧ (∀ x ∈ form, isBlank x = isBlank c) ∧
      lowerFrom b (c :: rest) = form ++ lowerFrom later rest := by
  rw [lowerFrom]
  split
  · next hsigma =>
    simp only [Bool.and_eq_true, decide_eq_true_eq] at hsigma
    obtain ⟨⟨rfl, -⟩, -⟩ := hsigma
    refine ⟨_, _, List.cons_ne_nil _ _, fun x hx => ?_, rfl⟩
    rw [List.mem_singleton.mp hx]
    decide
  · exact ⟨_, _, lowerChar_ne_nil c, fun x hx => isBlank_of_mem_lowerChar hx, rfl⟩

theorem head?_lowerFrom (b : Bool) (s : List Char) :
    (lowerFrom b s).head?.map isBlank = s.head?.map isBlank := by
  cases s with
  | nil => rfl
  | cons c rest =>
    obtain ⟨form, later, hform, hblank, heq⟩ := exists_lowerFrom_cons b c rest
    obtain ⟨x, others, rfl⟩ := List.exists_cons_of_ne_nil hform
    rw [heq]
    exact congrArg some (hblank x List.mem_cons_self)

theorem getLast?_lowerFrom (b : Bool) (s : List Char) :
    (lowerFrom b s).getLast?.map isBlank = s.getLast?.map isBlank := by
  induction s generalizing b with
  | nil => rfl
  | cons c rest ih =>
    obtain ⟨form, later, hform, hblank, heq⟩ := exists_lowerFrom_cons b c rest
    rw [heq, List.getLast?_append]
    cases rest with
    | nil =>
      rw [lowerFrom, List.getLast?_nil, Option.none_or, List.getLast?_eq_some_getLast hform]
      exact congrArg some (hblank _ (List.getLast_mem hform))
    | cons next others =>
      have hsome : ((lowerFrom later (next :: others)).getLast?.map isBlank).isSome = true := by
        rw [ih later]
        rfl
      rw [Option.isSome_map] at hsome
      rw [Option.or_of_isSome hsome, ih later]
      rfl

/-- A text in another case has white space at its ends only if the first text does. -/
theorem trimChars_of_lowerChars {before after : List Char} (hlower : lowerChars s = lowerChars t)
    (ht : trimChars t = t) (hne : t ≠ []) (hbefore : ∀ c ∈ before, isBlank c = true)
    (hafter : ∀ c ∈ after, isBlank c = true) : trimChars (before ++ s ++ after) = s := by
  obtain ⟨hfirst, hlast⟩ := ends_of_trimChars ht hne
  apply trimChars_append _ _ hbefore hafter
  · rw [← head?_lowerFrom false s, ← hfirst, ← head?_lowerFrom false t]
    exact congrArg (fun u => u.head?.map isBlank) hlower
  · rw [← getLast?_lowerFrom false s, ← hlast, ← getLast?_lowerFrom false t]
    exact congrArg (fun u => u.getLast?.map isBlank) hlower

end SkillPipeline.Text

namespace SkillPipeline.Text

variable {s t word : List Char} {ws : List (List Char)}

/-- The words of a text, one after the other. -/
inductive Worded : List Char → List (List Char) → Prop
  | blank {s : List Char} (blank : ∀ c ∈ s, isBlank c = true) : Worded s []
  | word {before word rest : List Char} {words : List (List Char)}
      (blank : ∀ c ∈ before, isBlank c = true) (nonempty : word ≠ [])
      (solid : ∀ c ∈ word, isBlank c = false) (ends : ∀ c ∈ rest.head?, isBlank c = true)
      (others : Worded rest words) : Worded (before ++ word ++ rest) (word :: words)

theorem Worded.cons_blank {c : Char} (hc : isBlank c = true) (h : Worded s ws) :
    Worded (c :: s) ws := by
  cases h with
  | blank blank => exact .blank (List.forall_mem_cons.mpr ⟨hc, blank⟩)
  | word blank nonempty solid ends others =>
    exact .word (List.forall_mem_cons.mpr ⟨hc, blank⟩) nonempty solid ends others

theorem Worded.first {rest : List Char} (nonempty : word ≠ [])
    (solid : ∀ c ∈ word, isBlank c = false) (ends : ∀ c ∈ rest.head?, isBlank c = true)
    (others : Worded rest ws) : Worded (word ++ rest) (word :: ws) := by
  have hnone : ∀ c ∈ ([] : List Char), isBlank c = true := nofun
  exact .word hnone nonempty solid ends others

theorem wordsFrom_cons_blank {c : Char} (hc : isBlank c = true) (s : List Char) :
    wordsFrom [] (c :: s) = wordsFrom [] s := by
  rw [wordsFrom, if_pos hc]
  rfl

theorem wordsFrom_blank (hs : ∀ c ∈ s, isBlank c = true) (t : List Char) :
    wordsFrom [] (s ++ t) = wordsFrom [] t := by
  induction s with
  | nil => rfl
  | cons c rest ih =>
    obtain ⟨hc, hrest⟩ := List.forall_mem_cons.mp hs
    rw [List.cons_append, wordsFrom_cons_blank hc, ih hrest]

theorem wordsFrom_cons_solid {c : Char} (hc : isBlank c = false) (s : List Char) :
    wordsFrom word (c :: s) = wordsFrom (c :: word) s := by
  rw [wordsFrom, hc]
  rfl

theorem wordsFrom_solid (hs : ∀ c ∈ s, isBlank c = false) (t : List Char) :
    wordsFrom word (s ++ t) = wordsFrom (s.reverse ++ word) t := by
  induction s generalizing word with
  | nil => rfl
  | cons c rest ih =>
    obtain ⟨hc, hrest⟩ := List.forall_mem_cons.mp hs
    rw [List.cons_append, wordsFrom_cons_solid hc, ih hrest, List.reverse_cons, List.append_assoc,
      List.singleton_append]

theorem wordsFrom_ends (hword : word ≠ []) (hs : ∀ c ∈ s.head?, isBlank c = true) :
    wordsFrom word s = word.reverse :: wordsFrom [] s := by
  have hsome : ¬word.isEmpty = true := by simpa using hword
  cases s with
  | nil =>
    rw [wordsFrom, if_neg hsome]
    rfl
  | cons c rest =>
    have hc : isBlank c = true := hs c rfl
    rw [wordsFrom, if_pos hc, if_neg hsome, wordsFrom_cons_blank hc]

theorem worded_wordsFrom (hword : ∀ c ∈ word, isBlank c = false) :
    Worded (word.reverse ++ s) (wordsFrom word s) := by
  -- On what is left of the text; the word being read lies before it.
  have hsolid : ∀ c ∈ word.reverse, isBlank c = false := fun c hc =>
    hword c (List.mem_reverse.mp hc)
  induction s generalizing word with
  | nil =>
    by_cases hempty : word = []
    · subst hempty
      exact .blank nofun
    · rw [wordsFrom_ends hempty (by simp)]
      exact .first (by simpa using hempty) hsolid (by simp) (.blank nofun)
  | cons c rest ih =>
    have hfresh : ∀ d ∈ ([] : List Char), isBlank d = false := nofun
    cases hc : isBlank c with
    | true =>
      have hrest : Worded (c :: rest) (wordsFrom [] (c :: rest)) := by
        rw [wordsFrom_cons_blank hc]
        exact (ih hfresh hfresh).cons_blank hc
      by_cases hempty : word = []
      · subst hempty
        exact hrest
      · rw [wordsFrom_ends hempty (by simpa using hc)]
        exact .first (by simpa using hempty) hsolid (by simpa using hc) hrest
    | false =>
      have hnext : ∀ d ∈ c :: word, isBlank d = false := List.forall_mem_cons.mpr ⟨hc, hword⟩
      have hread := ih hnext fun d hd => hnext d (List.mem_reverse.mp hd)
      rwa [List.reverse_cons, List.append_assoc, List.singleton_append,
        ← wordsFrom_cons_solid hc] at hread

/-- The words that are read are those that the text has, and no others. -/
theorem worded_iff : Worded s ws ↔ words s = ws := by
  constructor
  · intro h
    induction h with
    | blank blank =>
      have hread := wordsFrom_blank blank []
      rwa [List.append_nil] at hread
    | @word before word rest words blank nonempty solid ends others ih =>
      have hreverse : word.reverse ++ [] ≠ [] := by simpa using nonempty
      rw [Text.words, List.append_assoc, wordsFrom_blank blank, wordsFrom_solid solid,
        wordsFrom_ends hreverse ends, List.append_nil, List.reverse_reverse]
      exact congrArg (word :: ·) ih
  · rintro rfl
    have hfresh : ∀ d ∈ ([] : List Char), isBlank d = false := nofun
    exact worded_wordsFrom hfresh

end SkillPipeline.Text
