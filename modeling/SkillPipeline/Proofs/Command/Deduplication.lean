import Mathlib.Data.List.Induction
import SkillPipeline.Proofs.Command.Grouping

namespace SkillPipeline.FlagGroup

variable {g : FlagGroup} {gs left : List FlagGroup} {flag : String} {flags : List String}

/-- The group at a place counts if its flag may repeat or no later group has it. -/
def Counts (gs : List FlagGroup) (place : Nat) : Prop :=
  ∃ g, gs[place]? = some g ∧
    (g.flag ∈ repeatable ∨ ∀ later ∈ gs.drop (place + 1), later.flag ≠ g.flag)

/-- What is left of groups: those at the places that count, in the order in which they stand. -/
def Leaves (gs left : List FlagGroup) : Prop :=
  ∃ places : List Nat, places.Pairwise (· < ·) ∧ (∀ place, place ∈ places ↔ Counts gs place) ∧
    left = places.filterMap (gs[·]?)

theorem counts_succ {place : Nat} : Counts (g :: gs) (place + 1) ↔ Counts gs place := by
  unfold Counts
  rw [List.getElem?_cons_succ, List.drop_succ_cons]

theorem counts_zero :
    Counts (g :: gs) 0 ↔ (repeatable.contains g.flag || !gs.any (·.flag == g.flag)) = true := by
  simp [Counts]

theorem filterMap_shift (places : List Nat) :
    (places.map (· + 1)).filterMap ((g :: gs)[·]?) = places.filterMap (gs[·]?) := by
  rw [List.filterMap_map]
  exact List.filterMap_congr fun place _ => List.getElem?_cons_succ

theorem leaves_survivors (gs : List FlagGroup) : Leaves gs (survivors gs) := by
  -- A group in front moves the places of all others by one, and place 0 counts if it is kept.
  induction gs with
  | nil => exact ⟨[], .nil, by simp [Counts], rfl⟩
  | cons g rest ih =>
    obtain ⟨places, hsorted, hcounts, hleft⟩ := ih
    have hshifted : (places.map (· + 1)).Pairwise (· < ·) :=
      hsorted.map _ fun _ _ h => Nat.succ_lt_succ h
    have hplace (place : Nat) :
        place ∈ places.map (· + 1) ↔ 0 < place ∧ Counts (g :: rest) place := by
      cases place with
      | zero => simp
      | succ place => simp [counts_succ, hcounts]
    unfold survivors
    split
    · next hkept =>
      refine ⟨0 :: places.map (· + 1), ?_, fun place => ?_, ?_⟩
      · exact List.pairwise_cons.mpr ⟨fun place h => ((hplace place).mp h).1, hshifted⟩
      · rw [List.mem_cons, hplace]
        cases place with
        | zero => simpa using counts_zero.mpr hkept
        | succ place => simp
      · rw [List.filterMap_cons_some List.getElem?_cons_zero, filterMap_shift, hleft]
    · next hdropped =>
      refine ⟨places.map (· + 1), hshifted, fun place => ?_, ?_⟩
      · rw [hplace]
        cases place with
        | zero => simpa using mt counts_zero.mp hdropped
        | succ place => simp
      · rw [filterMap_shift, hleft]

def ofFlag (flag : String) (gs : List FlagGroup) : List FlagGroup := gs.filter (·.flag == flag)

theorem ofFlag_cons_self : ofFlag g.flag (g :: gs) = g :: ofFlag g.flag gs :=
  List.filter_cons_of_pos (beq_self_eq_true _)

theorem ofFlag_cons_of_ne (h : g.flag ≠ flag) : ofFlag flag (g :: gs) = ofFlag flag gs :=
  List.filter_cons_of_neg (by simpa using h)

/-- A group that does not repeat is left out exactly if more with its flag come after it. -/
theorem survivors_cons_single (h : g.flag ∉ repeatable) :
    survivors (g :: gs) = if ofFlag g.flag gs = [] then g :: survivors gs else survivors gs := by
  have hlast : (repeatable.contains g.flag || !gs.any (·.flag == g.flag)) = true ↔
      ofFlag g.flag gs = [] := by
    simp [h, ofFlag]
  rw [survivors, if_congr hlast rfl rfl]

theorem ofFlag_survivors_repeatable (h : flag ∈ repeatable) :
    ofFlag flag (survivors gs) = ofFlag flag gs := by
  induction gs with
  | nil => rfl
  | cons g rest ih =>
    by_cases hflag : g.flag = flag
    · subst hflag
      rw [survivors, if_pos (by simp [h]), ofFlag_cons_self, ofFlag_cons_self, ih]
    · unfold survivors
      split
      · rw [ofFlag_cons_of_ne hflag, ofFlag_cons_of_ne hflag, ih]
      · rw [ofFlag_cons_of_ne hflag, ih]

theorem ofFlag_survivors_single (h : flag ∉ repeatable) :
    ofFlag flag (survivors gs) = (ofFlag flag gs).getLast?.toList := by
  induction gs with
  | nil => rfl
  | cons g rest ih =>
    by_cases hflag : g.flag = flag
    · subst hflag
      rw [survivors_cons_single h, ofFlag_cons_self]
      split
      · next hnone =>
        rw [ofFlag_cons_self, ih, hnone]
        rfl
      · next hsome => rw [ih, List.getLast?_cons_of_ne_nil hsome]
    · rw [ofFlag_cons_of_ne hflag, survivors]
      split
      · rw [ofFlag_cons_of_ne hflag, ih]
      · exact ih

theorem survivors_survivors (gs : List FlagGroup) : survivors (survivors gs) = survivors gs := by
  induction gs with
  | nil => rfl
  | cons g rest ih =>
    rw [survivors]
    split
    · next hkept =>
      have hkept' : (repeatable.contains g.flag || !(survivors rest).any (·.flag == g.flag)) =
          true := by
        rw [Bool.or_eq_true] at hkept ⊢
        refine hkept.imp id fun hlast => ?_
        rw [Bool.not_eq_true', List.any_eq_false] at hlast ⊢
        exact fun later hlater => hlast later ((survivors_sublist rest).subset hlater)
      rw [survivors, if_pos hkept', ih]
    · exact ih

/-- What a reader knows after one more group: the values of a flag that may repeat add up, and any
other flag has the latest. -/
def setting (values : String → List (Option String)) (g : FlagGroup) :
    String → List (Option String) :=
  Function.update values g.flag
    (if g.flag ∈ repeatable then values g.flag ++ [g.value?] else [g.value?])

/-- What groups set, read from left to right. -/
def settings (gs : List FlagGroup) : String → List (Option String) :=
  gs.foldl setting fun _ => []

theorem settings_concat : settings (gs ++ [g]) = setting (settings gs) g := by
  rw [settings, List.foldl_append]
  rfl

theorem settings_eq (gs : List FlagGroup) (flag : String) :
    settings gs flag =
      (if flag ∈ repeatable then ofFlag flag gs else (ofFlag flag gs).getLast?.toList).map
        (·.value?) := by
  -- A group is read after those before it, so the induction is from the end.
  induction gs using List.reverseRecOn with
  | nil => simp [settings, ofFlag]
  | append_singleton gs g ih =>
    have happend : ofFlag flag (gs ++ [g]) = ofFlag flag gs ++ ofFlag flag [g] :=
      List.filter_append ..
    rw [settings_concat, happend]
    unfold setting
    by_cases hflag : g.flag = flag
    · subst hflag
      rw [Function.update_self, ofFlag_cons_self, ih]
      split <;> simp [ofFlag]
    · rw [Function.update_of_ne (Ne.symm hflag), ofFlag_cons_of_ne hflag, ih]
      simp [ofFlag]

theorem settings_survivors (gs : List FlagGroup) : settings (survivors gs) = settings gs := by
  funext flag
  rw [settings_eq, settings_eq]
  split
  · next h => rw [ofFlag_survivors_repeatable h]
  · next h =>
    rw [ofFlag_survivors_single h]
    cases (ofFlag flag gs).getLast? <;> rfl

theorem exists_survivors_concat (gs : List FlagGroup) (g : FlagGroup) :
    ∃ kept, kept.Sublist gs ∧ survivors (gs ++ [g]) = kept ++ [g] := by
  induction gs with
  | nil => exact ⟨[], .slnil, by simp [survivors]⟩
  | cons first rest ih =>
    obtain ⟨kept, hsub, hkept⟩ := ih
    rw [List.cons_append]
    unfold survivors
    split
    · exact ⟨first :: kept, hsub.cons_cons first, by rw [hkept, List.cons_append]⟩
    · exact ⟨kept, hsub.cons first, hkept⟩

/-- The tokens that are left fall into the groups that are left. -/
theorem ofTokens_dedupe (flags : List String) :
    ofTokens (dedupe flags) = survivors (ofTokens flags) := by
  -- Only the last group can lack its value, and it stays the last.
  rcases ofTokens_eq flags with ⟨gs, hgs, heq | ⟨flag, htakes, heq⟩⟩
  · have hwhole : ∀ g ∈ survivors gs, g.isWhole = true :=
      fun g hg => hgs g ((survivors_sublist gs).subset hg)
    have hagain := ofTokens_flatMap_append hwhole []
    rwa [List.append_nil, ofTokens, List.append_nil, ← heq] at hagain
  · obtain ⟨kept, hsub, hkept⟩ := exists_survivors_concat gs ⟨flag, none⟩
    have hwhole : ∀ g ∈ kept, g.isWhole = true := fun g hg => hgs g (hsub.subset hg)
    unfold dedupe
    rw [heq, hkept, List.flatMap_append]
    exact ofTokens_flatMap_append hwhole [flag]

/-- Leaving out repeated flags keeps what the tokens say. The groups of the tokens lose all but the
last of each flag, save those that may repeat, and no other order or pairing comes about; so they
set the same as before, and there is nothing left to leave out. -/
theorem dedupe_keeps_meaning (flags : List String) :
    (ofTokens flags).flatMap tokens = flags ∧
      ∃ left, Leaves (ofTokens flags) left ∧ dedupe flags = left.flatMap tokens ∧
        ofTokens (dedupe flags) = left ∧
        (∀ flag, flag ∉ repeatable →
          ofFlag flag left = (ofFlag flag (ofTokens flags)).getLast?.toList) ∧
        (∀ flag ∈ repeatable, ofFlag flag left = ofFlag flag (ofTokens flags)) ∧
        settings left = settings (ofTokens flags) ∧
        dedupe (dedupe flags) = dedupe flags := by
  refine ⟨flatMap_ofTokens flags, survivors (ofTokens flags), leaves_survivors _, rfl,
    ofTokens_dedupe flags, fun flag h => ofFlag_survivors_single h,
    fun flag h => ofFlag_survivors_repeatable h, settings_survivors _, ?_⟩
  rw [dedupe, ofTokens_dedupe, survivors_survivors, dedupe]

example :
    dedupe ["-b:v", "-an", "-metadata", "a=1", "stray", "-b:v", "2M", "-metadata", "b=2", "-f"] =
      ["-metadata", "a=1", "stray", "-b:v", "2M", "-metadata", "b=2", "-f"] := by decide

end SkillPipeline.FlagGroup
