import SkillPipeline.Proofs.Command.Reading

namespace SkillPipeline.FlagGroup

variable {g : FlagGroup} {gs : List FlagGroup} {flag : String} {before after : List String}
  {lists : List (List String)}

/-- Whether the tokens end with a flag that takes a value and has none. -/
def dangles (flags : List String) : Bool := !(ofTokens flags).all isWhole

theorem whole_of_dangles (h : dangles before = false) : ∀ g ∈ ofTokens before, g.isWhole = true :=
  List.all_eq_true.mp (by simpa [dangles] using h)

/-- All groups of a token list are whole but perhaps the last, which is then a flag by itself. -/
theorem ofTokens_eq (flags : List String) :
    ∃ gs, (∀ g ∈ gs, g.isWhole = true) ∧ (ofTokens flags = gs ∨
      ∃ flag, takesValue flag = true ∧ ofTokens flags = gs ++ [⟨flag, none⟩]) := by
  -- Each group but the last is followed by a token, which is its value if it takes one.
  induction flags using ofTokens.induct with
  | case1 => exact ⟨[], List.forall_mem_nil _, .inl rfl⟩
  | case2 token =>
    cases htakes : takesValue token with
    | true => exact ⟨[], List.forall_mem_nil _, .inr ⟨token, htakes, rfl⟩⟩
    | false => exact ⟨[⟨token, none⟩], by simp [isWhole, htakes], .inl rfl⟩
  | case3 token next rest htakes ih =>
    obtain ⟨gs, hgs, hrest⟩ := ih
    refine ⟨⟨token, some next⟩ :: gs, List.forall_mem_cons.mpr ⟨by simp [isWhole, htakes], hgs⟩, ?_⟩
    rw [ofTokens_value htakes]
    refine hrest.imp (congrArg _) ?_
    rintro ⟨flag, hflag, heq⟩
    exact ⟨flag, hflag, congrArg _ heq⟩
  | case4 token next rest halone ih =>
    obtain ⟨gs, hgs, hrest⟩ := ih
    have halone : takesValue token = false := eq_false_of_ne_true halone
    refine ⟨⟨token, none⟩ :: gs, List.forall_mem_cons.mpr ⟨by simp [isWhole, halone], hgs⟩, ?_⟩
    rw [ofTokens_alone halone]
    refine hrest.imp (congrArg _) ?_
    rintro ⟨flag, hflag, heq⟩
    exact ⟨flag, hflag, congrArg _ heq⟩

theorem exists_of_dangles (h : dangles before = true) :
    ∃ (gs : List FlagGroup) (flag : String), (∀ g ∈ gs, g.isWhole = true) ∧
      takesValue flag = true ∧ before = gs.flatMap tokens ++ [flag] := by
  obtain ⟨gs, hgs, heq | ⟨flag, htakes, heq⟩⟩ := ofTokens_eq before
  · rw [dangles, heq, List.all_eq_true.mpr hgs] at h
    cases h
  · refine ⟨gs, flag, hgs, htakes, ?_⟩
    rw [← flatMap_ofTokens before, heq, List.flatMap_append]
    rfl

theorem whole_of_append {rest : List FlagGroup} (h : ofTokens before = gs ++ rest)
    (hrest : rest ≠ []) : ∀ g ∈ gs, g.isWhole = true := by
  obtain ⟨whole, hwhole, heq | ⟨flag, -, heq⟩⟩ := ofTokens_eq before
  · intro g hg
    exact hwhole g (heq ▸ h ▸ List.mem_append_left rest hg)
  · intro g hg
    rw [h, ← List.dropLast_append_getLast hrest, ← List.append_assoc] at heq
    obtain ⟨rfl, -⟩ := List.append_inj' heq rfl
    exact hwhole g (List.mem_append_left _ hg)

/-- Where the tokens of a step end a group ends too: no group has tokens of two steps. -/
def Separates (lists : List (List String)) : Prop :=
  ∀ before after, lists = before ++ after →
    ∃ gs rest, ofTokens lists.flatten = gs ++ rest ∧ gs.flatMap tokens = before.flatten

/-- What is left of the tokens of all steps are whole groups of the steps: no value without its
flag, and no flag without its value. -/
def KeepsWhole (lists : List (List String)) : Prop :=
  ∃ kept : List FlagGroup, kept.Sublist (lists.flatMap ofTokens) ∧
    dedupe lists.flatten = kept.flatMap tokens

/-- No step ends with a flag that takes the first token of a later step for its value. -/
def Completed (lists : List (List String)) : Prop :=
  lists.Pairwise fun flags later => dangles flags = true → later = []

theorem Completed.whole {flags : List String} {rest : List (List String)}
    (h : Completed (flags :: rest)) (hrest : rest.flatten ≠ []) :
    ∀ g ∈ ofTokens flags, g.isWhole = true := by
  refine whole_of_dangles (eq_false_of_ne_true fun hdangles => hrest ?_)
  exact List.flatten_eq_nil_iff.mpr fun later hlater =>
    (List.pairwise_cons.mp h).1 later hlater hdangles

theorem Completed.ofTokens_flatten (h : Completed lists) :
    ofTokens lists.flatten = lists.flatMap ofTokens := by
  induction lists with
  | nil => rfl
  | cons flags rest ih =>
    rw [List.flatten_cons, List.flatMap_cons]
    by_cases hrest : rest.flatten = []
    · have hnone : rest.flatMap ofTokens = [] := by
        rw [List.flatMap_eq_nil_iff]
        intro later hlater
        rw [List.flatten_eq_nil_iff.mp hrest later hlater]
        rfl
      rw [hrest, hnone, List.append_nil, List.append_nil]
    · rw [ofTokens_append (h.whole hrest), ih h.of_cons]

theorem Completed.separates (h : Completed lists) : Separates lists := by
  intro before after hlists
  subst hlists
  refine ⟨before.flatMap ofTokens, after.flatMap ofTokens, ?_, ?_⟩
  · rw [h.ofTokens_flatten, List.flatMap_append]
  · rw [List.flatMap_assoc, List.flatten_eq_flatMap]
    exact congrArg (List.flatMap · before) (funext flatMap_ofTokens)

/-- Groups that end with the flag of a group end with the group, so it has no value. -/
theorem value?_eq_none_of_append {rest whole others : List FlagGroup}
    (h : gs ++ rest = whole ++ g :: others)
    (htokens : gs.flatMap tokens = whole.flatMap tokens ++ [g.flag]) : g.value? = none := by
  obtain ⟨part, rfl, -⟩ | ⟨part, rfl, hpart⟩ := List.append_eq_append_iff.mp h
  · have hlength := congrArg List.length htokens
    simp only [List.flatMap_append, List.length_append, List.length_singleton] at hlength
    omega
  · rw [List.flatMap_append, List.append_cancel_left_eq] at htokens
    cases part with
    | nil => cases htokens
    | cons first part =>
      obtain ⟨rfl, -⟩ := List.cons.inj hpart
      have hvalue : g.value?.toList ++ part.flatMap tokens = [] := (List.cons.inj htokens).2
      exact Option.toList_eq_nil_iff.mp (List.append_eq_nil_iff.mp hvalue).1

/-- A flag whose value is missing takes the first token after it, so no group ends between them. -/
theorem Separates.eq_nil (h : Separates lists) {before after : List (List String)}
    {flags : List String} (hlists : lists = before ++ flags :: after)
    (hdangles : dangles flags = true) : after.flatten = [] := by
  obtain ⟨whole, flag, hwhole, htakes, hflags⟩ := exists_of_dangles hdangles
  by_contra hafter
  obtain ⟨next, later, hnext⟩ := List.exists_cons_of_ne_nil hafter
  obtain ⟨gs, rest, hgroups, hbefore⟩ := h before (flags :: after) hlists
  obtain ⟨gs', rest', hgroups', hupto⟩ := h (before ++ [flags]) after (by simp [hlists])
  have hall : lists.flatten =
      gs.flatMap tokens ++ (whole.flatMap tokens ++ flag :: next :: later) := by
    simp [hlists, hflags, hnext, hbefore]
  have hrest : rest ≠ [] := by
    rintro rfl
    have hlost := flatMap_ofTokens lists.flatten
    rw [hgroups, List.append_nil, hall] at hlost
    simp at hlost
  -- Both steps are taken apart from the left, up to the flag that meets the next token.
  have hsplit : ofTokens lists.flatten =
      (gs ++ whole) ++ ⟨flag, some next⟩ :: ofTokens later := by
    rw [hall, ofTokens_flatMap_append (whole_of_append hgroups hrest),
      ofTokens_flatMap_append hwhole, ofTokens_value htakes, List.append_assoc]
  have hvalue := value?_eq_none_of_append (hgroups'.symm.trans hsplit)
    (by rw [hupto, List.flatMap_append, hbefore]; simp [hflags])
  cases hvalue

theorem Separates.completed (h : Separates lists) : Completed lists := by
  have hsuffix : ∀ after before, lists = before ++ after → Completed after := by
    intro after
    induction after with
    | nil => exact fun _ _ => .nil
    | cons flags rest ih =>
      intro before hlists
      refine List.pairwise_cons.mpr ⟨fun later hlater hdangles => ?_, ih (before ++ [flags]) ?_⟩
      · exact List.flatten_eq_nil_iff.mp (h.eq_nil hlists hdangles) later hlater
      · simp [hlists]
  exact hsuffix lists [] rfl

/-- Steps are kept apart exactly if none but the last ends with a flag whose value is missing. Their
groups are then those of each step in turn, and whole groups are kept: the last ones of each flag,
and all of those that may repeat. -/
theorem steps_apart_iff (lists : List (List String)) :
    (Separates lists ↔ Completed lists) ∧
      (Separates lists → KeepsWhole lists ∧ ofTokens lists.flatten = lists.flatMap ofTokens ∧
        dedupe lists.flatten = (survivors (lists.flatMap ofTokens)).flatMap tokens) := by
  refine ⟨⟨Separates.completed, Completed.separates⟩, fun h => ?_⟩
  have hgroups := h.completed.ofTokens_flatten
  have hkept : dedupe lists.flatten = (survivors (lists.flatMap ofTokens)).flatMap tokens :=
    congrArg (fun gs => (survivors gs).flatMap tokens) hgroups
  exact ⟨⟨_, survivors_sublist _, hkept⟩, hgroups, hkept⟩

/-- Twice a flag that stands alone but is not known as one that does, and a bitrate. -/
def bareSteps : List (List String) := [["-copyts"], ["-b:v", "1M"], ["-copyts"], ["-b:v", "2M"]]

/-- The bare flag takes the next for its value, and the first bitrate stays without its flag. -/
theorem not_steps_apart : ¬Separates bareSteps ∧ ¬KeepsWhole bareSteps ∧
    dedupe bareSteps.flatten = ["1M", "-copyts", "-b:v", "2M"] := by
  have hleft : dedupe bareSteps.flatten = ["1M", "-copyts", "-b:v", "2M"] := by decide
  refine ⟨fun h => ?_, fun ⟨kept, hkept, heq⟩ => ?_, hleft⟩
  · have hlists : bareSteps = [] ++ ["-copyts"] :: bareSteps.tail := rfl
    exact absurd (h.eq_nil hlists (by decide)) (by decide)
  · rw [hleft] at heq
    cases kept with
    | nil => cases heq
    | cons g kept =>
      have hflags : ∀ g ∈ bareSteps.flatMap ofTokens, g.flag ≠ "1M" := by decide
      exact hflags g (hkept.subset List.mem_cons_self) (List.cons.inj heq).1.symm

end SkillPipeline.FlagGroup
