import Mathlib.Data.List.Infix
import Mathlib.Data.List.Lex
import Mathlib.Data.List.Sort
import SkillPipeline.Text.Basic

namespace SkillPipeline.Text

variable {separates finer : Char → Bool} {part rest s : List Char} {c : Char}

theorem splitBy_of_none (h : ∀ c ∈ part, separates c = false) :
    splitBy separates part = [part] := by
  induction part with
  | nil => rfl
  | cons c part ih =>
    obtain ⟨hc, hpart⟩ := List.forall_mem_cons.mp h
    rw [splitBy, hc, ih hpart]
    rfl

theorem splitBy_append (h : ∀ c ∈ part, separates c = false) (hc : separates c = true) :
    splitBy separates (part ++ c :: rest) = part :: splitBy separates rest := by
  induction part with
  | nil => rw [List.nil_append, splitBy, if_pos hc]
  | cons d part ih =>
    obtain ⟨hd, hpart⟩ := List.forall_mem_cons.mp h
    rw [List.cons_append, splitBy, hd, ih hpart]
    rfl

theorem splitBy_cases (separates : Char → Bool) (s : List Char) :
    splitBy separates s = [s] ∨ ∃ part c rest, separates c = true ∧ s = part ++ c :: rest ∧
      splitBy separates s = part :: splitBy separates rest := by
  cases h : s.find? separates with
  | none => exact .inl (splitBy_of_none (by simpa using h))
  | some c =>
    obtain ⟨hc, part, rest, rfl, hpart⟩ := List.find?_eq_some_iff_append.mp h
    exact .inr ⟨part, c, rest, hc, rfl, splitBy_append (by simpa using hpart) hc⟩

theorem splitBy_append_cons (s rest : List Char) (hc : separates c = true) :
    splitBy separates (s ++ c :: rest) = splitBy separates s ++ splitBy separates rest := by
  induction s with
  | nil => exact splitBy_append (by simp) hc
  | cons d s ih =>
    rw [List.cons_append, splitBy, splitBy, ih]
    split
    · rfl
    · cases hs : splitBy separates s with
      | nil => exact absurd hs (splitBy_ne_nil separates s)
      | cons part parts => rfl

theorem eq_false_of_mem_splitBy (h : part ∈ splitBy separates s) :
    ∀ c ∈ part, separates c = false := by
  induction s generalizing part with
  | nil =>
    rw [List.mem_singleton.mp h]
    simp
  | cons d s ih =>
    rw [splitBy] at h
    split at h
    · obtain rfl | h := List.mem_cons.mp h
      · simp
      · exact ih h
    · next hd =>
      cases hs : splitBy separates s with
      | nil => exact absurd hs (splitBy_ne_nil separates s)
      | cons first parts =>
        rw [hs] at h ih
        obtain rfl | h := List.mem_cons.mp h
        · exact List.forall_mem_cons.mpr ⟨eq_false_of_ne_true hd, ih List.mem_cons_self⟩
        · exact ih (List.mem_cons_of_mem first h)

theorem splitBy_intercalate {parts : List (List Char)} (hsome : parts ≠ [])
    (hparts : ∀ part ∈ parts, ∀ c ∈ part, separates c = false) (hc : separates c = true) :
    splitBy separates ([c].intercalate parts) = parts := by
  induction parts with
  | nil => exact absurd rfl hsome
  | cons part rest ih =>
    obtain ⟨hpart, hrest⟩ := List.forall_mem_cons.mp hparts
    cases rest with
    | nil => rw [List.intercalate_singleton, splitBy_of_none hpart]
    | cons next rest =>
      rw [List.intercalate_cons_cons, List.append_assoc, List.singleton_append,
        splitBy_append hpart hc, ih (List.cons_ne_nil next rest) hrest]

theorem mem_splitBy_of_finer (hfiner : ∀ c, separates c = true → finer c = true)
    (h : part ∈ splitBy separates s) (hpart : ∀ c ∈ part, finer c = false) :
    part ∈ splitBy finer s := by
  -- On the length of the text: the part is the first one, or one of the rest.
  induction hn : s.length using Nat.strongRecOn generalizing s with
  | ind n ih =>
    obtain hsplit | ⟨first, c, rest, hc, rfl, hsplit⟩ := splitBy_cases separates s
    · rw [hsplit, List.mem_singleton] at h
      subst h
      rw [splitBy_of_none hpart]
      exact List.mem_singleton_self _
    · rw [hsplit] at h
      rw [splitBy_append_cons _ _ (hfiner c hc), List.mem_append]
      obtain rfl | h := List.mem_cons.mp h
      · left
        rw [splitBy_of_none hpart]
        exact List.mem_singleton_self _
      · right
        rw [List.length_append, List.length_cons] at hn
        exact ih rest.length (by omega) h rfl

variable {separator : Char} {parts : List String}

theorem splitAt_join {text : String} (htext : text.toList = [separator]) (hsome : parts ≠ [])
    (h : ∀ part ∈ parts, separator ∉ part.toList) :
    splitAt separator (join text parts) = parts := by
  have hparts : ∀ part ∈ parts.map String.toList, ∀ c ∈ part, (c == separator) = false := by
    intro part hpart c hc
    obtain ⟨s, hs, rfl⟩ := List.mem_map.mp hpart
    refine beq_eq_false_iff_ne.mpr fun heq => h s hs (heq ▸ hc)
  rw [splitAt, join, String.toList_intercalate, htext,
    splitBy_intercalate (by simpa using hsome) hparts (beq_self_eq_true separator), List.map_map]
  simp

theorem not_mem_of_mem_splitAt {s part : String} (h : part ∈ splitAt separator s) :
    separator ∉ part.toList := by
  obtain ⟨chars, hchars, rfl⟩ := List.mem_map.mp h
  rw [String.toList_ofList]
  intro hmem
  have hfalse := eq_false_of_mem_splitBy hchars separator hmem
  rw [beq_self_eq_true] at hfalse
  cases hfalse

theorem splitAt_append_cons {s rest : String} {text : String} (htext : text.toList = [separator]) :
    splitAt separator (s ++ text ++ rest) = splitAt separator s ++ splitAt separator rest := by
  have hsplit : splitBy (· == separator) (s.toList ++ separator :: rest.toList) =
      splitBy (· == separator) s.toList ++ splitBy (· == separator) rest.toList :=
    splitBy_append_cons _ _ (beq_self_eq_true separator)
  rw [splitAt, String.toList_append, String.toList_append, htext, List.append_assoc,
    List.singleton_append, hsplit, List.map_append]
  rfl

theorem occursIn_iff {needle s : List Char} : occursIn needle s = true ↔ needle <:+: s := by
  induction s with
  | nil => rw [occursIn, List.isEmpty_iff, List.infix_nil]
  | cons c rest ih =>
    rw [occursIn, Bool.or_eq_true, List.isPrefixOf_iff_prefix, ih, List.infix_cons_iff]

end SkillPipeline.Text

namespace SkillPipeline.Text

variable {a b c : String} {texts : List String}

theorem unitsBefore_iff {x y : List ℕ} : unitsBefore x y = true ↔ x < y := by
  induction x generalizing y with
  | nil => cases y <;> simp [unitsBefore]
  | cons m x ih =>
    cases y with
    | nil => simp [unitsBefore]
    | cons n y => simp [unitsBefore, ih, List.cons_lt_cons_iff]

theorem before_iff : before a b = true ↔ units a < units b := unitsBefore_iff

theorem toNat_cases (c : Char) : c.toNat < 0xD800 ∨ 0xDFFF < c.toNat ∧ c.toNat < 0x110000 := c.valid

theorem unitsOf_append_inj {x y : Char} {r t : List ℕ} (h : unitsOf x ++ r = unitsOf y ++ t) :
    x = y ∧ r = t := by
  have hx := toNat_cases x
  have hy := toNat_cases y
  have hchar (heq : x.toNat = y.toNat) : x = y := Char.toNat_inj.mp heq
  unfold unitsOf at h
  simp only at h
  split at h <;> split at h <;>
    simp only [List.cons_append, List.nil_append, List.cons.injEq] at h
  · exact ⟨hchar h.1, h.2⟩
  · omega
  · omega
  · obtain ⟨hhigh, hlow, hrest⟩ := h
    exact ⟨hchar (by omega), hrest⟩

theorem units_injective : Function.Injective units := by
  intro a b h
  rw [← String.toList_inj]
  unfold units at h
  generalize a.toList = x at h ⊢
  generalize b.toList = y at h ⊢
  have hsome (z : Char) : unitsOf z ≠ [] := by
    unfold unitsOf
    simp only
    split <;> simp
  induction x generalizing y with
  | nil =>
    cases y with
    | nil => rfl
    | cons d y => simp [hsome] at h
  | cons c x ih =>
    cases y with
    | nil => simp [hsome] at h
    | cons d y =>
      obtain ⟨rfl, hrest⟩ := unitsOf_append_inj h
      rw [ih y hrest]

end SkillPipeline.Text
