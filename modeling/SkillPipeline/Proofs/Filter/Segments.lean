import SkillPipeline.Filter.Template
import SkillPipeline.Proofs.Text.WhiteSpace

namespace SkillPipeline.Template

open Text

variable {c : Char} {s t name rest : List Char} {segments others : List Segment}

/-- A letter or an underscore, and then letters, digits and underscores. -/
def IsName : List Char → Prop
  | [] => False
  | c :: rest => startsName c = true ∧ ∀ d ∈ rest, continuesName d = true

def placeholder (name : List Char) : List Char := '\x7b' :: name ++ ['\x7d']

def StartsHole (s : List Char) : Prop := ∃ name rest, IsName name ∧ s = placeholder name ++ rest

theorem continuesName_of_startsName (h : startsName c = true) : continuesName c = true := by
  rw [startsName, Bool.or_eq_true] at h
  rw [continuesName, Char.isAlphanum, Bool.or_eq_true, Bool.or_eq_true]
  exact h.imp_left .inl

theorem IsName.continues (h : IsName name) : ∀ c ∈ name, continuesName c = true := by
  cases name with
  | nil => exact h.elim
  | cons c rest => exact List.forall_mem_cons.mpr ⟨continuesName_of_startsName h.1, h.2⟩

theorem toNat_of_continuesName (h : continuesName c = true) :
    48 ≤ c.toNat ∧ c.toNat ≤ 122 := by
  have hupper (h : c.isUpper = true) : 65 ≤ c.toNat ∧ c.toNat ≤ 90 := of_decide_eq_true h
  have hlower (h : c.isLower = true) : 97 ≤ c.toNat ∧ c.toNat ≤ 122 :=
    (Bool.and_eq_true_iff.mp h).imp of_decide_eq_true of_decide_eq_true
  have hdigit (h : c.isDigit = true) : 48 ≤ c.toNat ∧ c.toNat ≤ 57 :=
    (Bool.and_eq_true_iff.mp h).imp of_decide_eq_true of_decide_eq_true
  rw [continuesName, Char.isAlphanum, Bool.or_eq_true, Bool.or_eq_true, decide_eq_true_iff] at h
  obtain (halpha | h) | rfl := h
  · obtain h | h := Bool.or_eq_true_iff.mp halpha
    · have := hupper h
      omega
    · have := hlower h
      omega
  · have := hdigit h
    omega
  · decide

theorem isBlank_of_continuesName (h : continuesName c = true) : isBlank c = false := by
  have hcodes : ∀ code ∈ blankCodes, code < 48 ∨ 122 < code := by decide
  have hcode := toNat_of_continuesName h
  rw [← Bool.not_eq_true]
  intro hblank
  have := hcodes c.toNat (mem_blankCodes hblank)
  omega

theorem isBlank_of_mem_placeholder (h : IsName name) (hc : c ∈ placeholder name) :
    isBlank c = false := by
  rw [placeholder, List.cons_append, List.mem_cons, List.mem_append, List.mem_singleton] at hc
  obtain rfl | hc | rfl := hc
  · decide
  · exact isBlank_of_continuesName (h.continues c hc)
  · decide

theorem holeName?_eq_some :
    holeName? s = some name ↔ IsName name ∧ ∃ rest, s = name ++ '\x7d' :: rest := by
  -- A name goes on up to the first character that cannot continue it, which has to be the brace.
  have hclose : ¬continuesName '\x7d' = true := by decide
  constructor
  · intro h
    rw [holeName?] at h
    split at h
    · next first tail rest htake hdrop =>
      split at h
      · next hstarts =>
        obtain rfl := Option.some.inj h
        have hwhole : s.takeWhile continuesName ++ s.dropWhile continuesName = s :=
          List.takeWhile_append_dropWhile
        rw [hdrop] at hwhole
        refine ⟨?_, rest, hwhole.symm⟩
        rw [htake]
        refine ⟨hstarts, fun d hd => ?_⟩
        have hmem : d ∈ s.takeWhile continuesName := htake ▸ List.mem_cons_of_mem first hd
        exact List.mem_takeWhile_imp hmem
      · cases h
    · cases h
  · rintro ⟨hname, rest, rfl⟩
    have htake : (name ++ '\x7d' :: rest).takeWhile continuesName = name := by
      rw [List.takeWhile_append_of_pos hname.continues, List.takeWhile_cons_of_neg hclose,
        List.append_nil]
    have hdrop : (name ++ '\x7d' :: rest).dropWhile continuesName = '\x7d' :: rest := by
      rw [List.dropWhile_append_of_pos hname.continues, List.dropWhile_cons_of_neg hclose]
    rw [holeName?, htake, hdrop]
    cases name with
    | nil => exact hname.elim
    | cons first tail => exact if_pos hname.1

inductive Splits : List Char → List Segment → Prop
  | nil : Splits [] []
  | hole {name rest : List Char} {segments : List Segment} (isName : IsName name)
      (others : Splits rest segments) :
      Splits (placeholder name ++ rest) (.hole (String.ofList name) :: segments)
  | literal {c : Char} {rest : List Char} {segments : List Segment}
      (plain : ¬StartsHole (c :: rest)) (others : Splits rest segments) :
      Splits (c :: rest) (.literal c :: segments)

theorem segmentsFrom_skip (skip : Nat) (s : List Char) :
    segmentsFrom skip s = segmentsFrom 0 (s.drop skip) := by
  induction s generalizing skip with
  | nil => rw [List.drop_nil, segmentsFrom, segmentsFrom]
  | cons c rest ih =>
    cases skip with
    | zero => rfl
    | succ skip => rw [segmentsFrom, ih, List.drop_succ_cons]

theorem segmentsFrom_hole (h : IsName name) (rest : List Char) :
    segmentsFrom 0 (placeholder name ++ rest) =
      .hole (String.ofList name) :: segmentsFrom 0 rest := by
  have hfound : holeName? (name ++ '\x7d' :: rest) = some name :=
    holeName?_eq_some.mpr ⟨h, rest, rfl⟩
  have hskip : segmentsFrom (name.length + 1) (name ++ '\x7d' :: rest) = segmentsFrom 0 rest := by
    rw [segmentsFrom_skip, ← List.drop_drop, List.drop_left]
    rfl
  have htext : placeholder name ++ rest = '\x7b' :: (name ++ '\x7d' :: rest) := by
    simp [placeholder]
  rw [htext, segmentsFrom, if_pos rfl, hfound]
  exact congrArg _ hskip

theorem segmentsFrom_literal (h : ¬StartsHole (c :: rest)) :
    segmentsFrom 0 (c :: rest) = .literal c :: segmentsFrom 0 rest := by
  rw [segmentsFrom]
  split
  · next hbrace =>
    split
    · next name hfound =>
      obtain ⟨hname, tail, rfl⟩ := holeName?_eq_some.mp hfound
      exact absurd ⟨name, tail, hname, by simp [placeholder, hbrace]⟩ h
    · rfl
  · rfl

theorem splits_iff : Splits s segments ↔ segmentsFrom 0 s = segments := by
  constructor
  · intro h
    induction h with
    | nil => rfl
    | hole isName others ih => rw [segmentsFrom_hole isName, ih]
    | literal plain others ih => rw [segmentsFrom_literal plain, ih]
  · rintro rfl
    -- On the length of the text, of which a hole uses up more than one character.
    induction hlength : s.length using Nat.strong_induction_on generalizing s with
    | _ n ih =>
      subst hlength
      cases s with
      | nil => exact .nil
      | cons c rest =>
        by_cases h : StartsHole (c :: rest)
        · obtain ⟨name, tail, hname, heq⟩ := h
          rw [heq, segmentsFrom_hole hname]
          refine .hole hname (ih tail.length ?_ rfl)
          rw [heq, placeholder]
          simp
          omega
        · rw [segmentsFrom_literal h]
          exact .literal h (ih rest.length (Nat.lt_succ_self _) rfl)

theorem splits_segments (template : String) :
    Splits template.toList (Template.segments template) :=
  splits_iff.mpr rfl

theorem eq_map_of_splits {texts : List (List Char)} {pieces : List (List Segment)}
    (h : List.Forall₂ Splits texts pieces) : pieces = texts.map (segmentsFrom 0) := by
  induction h with
  | nil => rfl
  | cons hfirst hrest ih => rw [List.map_cons, ← ih, splits_iff.mp hfirst]

theorem exactHole?_eq_some {template name : String} : exactHole? template = some name ↔
    IsName name.toList ∧ template.toList = placeholder name.toList := by
  constructor
  · intro h
    rw [exactHole?] at h
    split at h
    · next other hsegments =>
      obtain rfl := Option.some.inj h
      have hsplits : Splits template.toList [.hole other] := splits_iff.mpr hsegments
      generalize template.toList = s at hsplits
      cases hsplits with
      | hole isName others =>
        cases others
        rw [String.toList_ofList, List.append_nil]
        exact ⟨isName, rfl⟩
    · cases h
  · rintro ⟨hname, heq⟩
    have hsplits : Splits template.toList [.hole (String.ofList name.toList)] := by
      rw [heq, ← List.append_nil (placeholder _)]
      exact .hole hname .nil
    rw [exactHole?, Template.segments, splits_iff.mp hsplits, String.ofList_toList]

theorem startsHole_append (ht : ∀ c ∈ t.head?, isBlank c = true) (h : StartsHole (s ++ t)) :
    StartsHole s := by
  obtain ⟨name, rest, hname, heq⟩ := h
  obtain ⟨between, hplaceholder, rfl⟩ | ⟨between, rfl, -⟩ := List.append_eq_append_iff.mp heq
  · cases between with
    | nil => exact ⟨name, [], hname, by rw [hplaceholder, List.append_nil, List.append_nil]⟩
    | cons c later =>
      have hmem : c ∈ placeholder name :=
        hplaceholder ▸ List.mem_append_right s List.mem_cons_self
      have hsolid := isBlank_of_mem_placeholder hname hmem
      rw [ht c rfl] at hsolid
      cases hsolid
  · exact ⟨name, between, hname, rfl⟩

theorem Splits.append (hs : Splits s segments) (ht : Splits t others)
    (hends : ∀ c ∈ t.head?, isBlank c = true) : Splits (s ++ t) (segments ++ others) := by
  induction hs with
  | nil => exact ht
  | @hole name rest segments isName others ih =>
    rw [List.append_assoc]
    exact .hole isName ih
  | @literal c rest segments plain others ih =>
    have hplain : ¬StartsHole ((c :: rest) ++ t) := mt (startsHole_append hends) plain
    exact .literal hplain ih

theorem Splits.after_blank (ht : Splits t others) (hs : ∀ c ∈ s, isBlank c = true) :
    Splits (s ++ t) (s.map .literal ++ others) := by
  induction s with
  | nil => exact ht
  | cons c rest ih =>
    obtain ⟨hc, hrest⟩ := List.forall_mem_cons.mp hs
    refine .literal ?_ (ih hrest)
    rintro ⟨name, tail, hname, heq⟩
    obtain ⟨rfl, -⟩ := List.cons.inj heq
    cases hc

def names (segments : List Segment) : List String := segments.filterMap Segment.name?

theorem names_literals (s : List Char) : names (s.map .literal) = [] := by
  rw [names, List.filterMap_map]
  exact List.filterMap_eq_nil_iff.mpr fun _ _ => rfl

theorem names_of_worded {ws : List (List Char)} (h : Worded s ws) :
    names (segmentsFrom 0 s) = ws.flatMap fun word => names (segmentsFrom 0 word) := by
  induction h with
  | @blank s blank =>
    have hsplits := Splits.after_blank .nil blank
    rw [List.append_nil, List.append_nil] at hsplits
    rw [splits_iff.mp hsplits, names_literals]
    rfl
  | @word before word rest words blank nonempty solid ends others ih =>
    have hrest : Splits rest _ := splits_iff.mpr rfl
    have hword : Splits word _ := splits_iff.mpr rfl
    have hsplits := (hword.append hrest ends).after_blank blank
    rw [← List.append_assoc] at hsplits
    rw [splits_iff.mp hsplits, names, List.filterMap_append, ← names, names_literals,
      List.filterMap_append, List.flatMap_cons, ← ih]
    rfl

end SkillPipeline.Template
