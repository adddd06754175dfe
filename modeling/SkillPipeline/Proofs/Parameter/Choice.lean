import Mathlib.Data.List.Basic
import Mathlib.Data.List.Infix
import Mathlib.Data.List.Nodup
import SkillPipeline.Parameter.Check
import SkillPipeline.Proofs.Text.Basic
import SkillPipeline.Proofs.Text.WhiteSpace

namespace SkillPipeline

theorem Text.lower_inj {s t : String} :
    lower s = lower t ↔ lowerChars s.toList = lowerChars t.toList := by
  unfold lower
  exact String.ofList_inj

namespace Choice

variable {text choice : String} {choices others : List String}
  {tests : List (List Char → List Char → Bool)}

/-- How a choice may fit a text, the closest fit first. -/
inductive Tier
  | equal
  | beginning
  | part
  deriving DecidableEq

namespace Tier

def all : List Tier := [equal, beginning, part]

/-- Whether a choice fits the text wanted; both are in lower case. -/
def Fits : Tier → List Char → List Char → Prop
  | equal, wanted, choice => choice = wanted
  | beginning, wanted, choice => wanted <+: choice
  | part, wanted, choice => wanted <:+: choice

instance (tier : Tier) (wanted choice : List Char) : Decidable (tier.Fits wanted choice) :=
  match tier with
  | equal => inferInstanceAs (Decidable (choice = wanted))
  | beginning => inferInstanceAs (Decidable (wanted <+: choice))
  | part => inferInstanceAs (Decidable (wanted <:+: choice))

theorem nested (wanted choice : List Char) :
    all.Pairwise fun tier later => tier.Fits wanted choice → later.Fits wanted choice := by
  have hbeginning : choice = wanted → wanted <+: choice := by
    rintro rfl
    exact List.prefix_rfl
  unfold all
  simp only [List.pairwise_cons, List.mem_cons, List.not_mem_nil, or_false, forall_eq_or_imp,
    forall_eq, IsEmpty.forall_iff, implies_true, List.Pairwise.nil, and_true]
  exact ⟨⟨hbeginning, fun h => (hbeginning h).isInfix⟩, List.IsPrefix.isInfix⟩

theorem tests_eq :
    Choice.tests = all.map fun tier wanted choice => decide (tier.Fits wanted choice) := by
  unfold Choice.tests all
  simp only [List.map_cons, List.map_nil, List.cons.injEq, and_true]
  refine ⟨?_, ?_, ?_⟩
  · funext wanted choice
    exact beq_eq_decide choice wanted
  · funext wanted choice
    rw [Bool.eq_iff_iff, List.isPrefixOf_iff_prefix, decide_eq_true_iff]
    rfl
  · funext wanted choice
    rw [Bool.eq_iff_iff, Text.occursIn_iff, decide_eq_true_iff]
    rfl

end Tier

/-- What a text asks for, whatever white space stands around it and whatever case it is in. -/
def wanted (text : String) : List Char := Text.lowerChars (Text.trimChars text.toList)

/-- The choices that fit a text in one way. -/
def fitting (text : String) (choices : List String) (tier : Tier) : List String :=
  choices.filter fun choice => tier.Fits (wanted text) (Text.lowerChars choice.toList)

/-- The first way in which any choice fits. -/
def firstTier? (text : String) (choices : List String) : Option Tier :=
  Tier.all.find? fun tier => !(fitting text choices tier).isEmpty

def only? : List String → Option String
  | [choice] => some choice
  | _ => none

theorem only?_eq_some : only? choices = some choice ↔ choices = [choice] := by
  constructor
  · intro h
    unfold only? at h
    split at h
    · rw [Option.some.inj h]
    · cases h
  · rintro rfl
    rfl

theorem only?_eq_none (h : 1 < choices.length) : only? choices = none := by
  rw [Option.eq_none_iff_forall_ne_some]
  intro choice heq
  rw [only?_eq_some.mp heq] at h
  exact Nat.lt_irrefl 1 h

theorem only?_perm (h : others.Perm choices) : only? others = only? choices := by
  apply Option.ext
  intro choice
  rw [only?_eq_some, only?_eq_some]
  constructor
  · rintro rfl
    exact (List.singleton_perm.mp h).symm
  · rintro rfl
    exact List.perm_singleton.mp h

theorem firstUnique_eq (wanted : List Char) (choices : List String) :
    firstUnique wanted choices tests =
      tests.findSome? fun test => only? (hits test wanted choices) := by
  induction tests with
  | nil => rfl
  | cons test rest ih =>
    rw [firstUnique, List.findSome?_cons]
    split
    · next choice hhits => rw [hhits]; rfl
    · next hmany =>
      have hnone : only? (hits test wanted choices) = none := by
        unfold only?
        split
        · next choice hhits => exact absurd hhits (hmany choice)
        · rfl
      rw [hnone, ih]

theorem find?_eq_findSome? (text : String) (choices : List String) :
    find? text choices =
      if wanted text = [] then none
      else Tier.all.findSome? fun tier => only? (fitting text choices tier) := by
  unfold find?
  simp only [List.isEmpty_iff, firstUnique_eq, Tier.tests_eq, List.findSome?_map]
  rfl

theorem fitting_sublist (text : String) (choices : List String) :
    Tier.all.Pairwise fun tier later =>
      (fitting text choices tier).Sublist (fitting text choices later) := by
  have hnested (choice : String) :=
    Tier.nested (wanted text) (Text.lowerChars choice.toList)
  refine List.pairwise_iff_getElem.mpr fun i j hi hj hij => ?_
  refine List.monotone_filter_right choices fun choice hfits => ?_
  rw [decide_eq_true_iff] at hfits ⊢
  exact List.pairwise_iff_getElem.mp (hnested choice) i j hi hj hij hfits

/-- Where later tiers only add to earlier ones, none of them tells apart what an earlier one does
not. -/
theorem findSome?_only? {tiers : List Tier} (found : Tier → List String)
    (hnested : tiers.Pairwise fun tier later => (found tier).Sublist (found later)) :
    (tiers.findSome? fun tier => only? (found tier)) =
      (tiers.find? fun tier => !(found tier).isEmpty).bind fun tier => only? (found tier) := by
  induction tiers with
  | nil => rfl
  | cons tier rest ih =>
    obtain ⟨hlater, hrest⟩ := List.pairwise_cons.mp hnested
    rw [List.findSome?_cons, List.find?_cons]
    rcases hfound : found tier with _ | ⟨first, _ | ⟨second, more⟩⟩
    · exact ih hrest
    · rw [List.isEmpty_cons, Bool.not_false, Option.bind_some, hfound]
      rfl
    · rw [List.isEmpty_cons, Bool.not_false, Option.bind_some, hfound]
      refine List.findSome?_eq_none_iff.mpr fun later hmem => only?_eq_none ?_
      calc
        1 < (found tier).length := by rw [hfound]; exact Nat.one_lt_succ_succ _
        _ ≤ (found later).length := (hlater later hmem).length_le

theorem find?_eq_bind (text : String) (choices : List String) :
    find? text choices =
      if wanted text = [] then none
      else (firstTier? text choices).bind fun tier => only? (fitting text choices tier) := by
  rw [find?_eq_findSome?, findSome?_only? _ (fitting_sublist text choices)]
  rfl

theorem find?_perm (text : String) (h : others.Perm choices) :
    find? text others = find? text choices := by
  have hfound (tier : Tier) :
      only? (fitting text others tier) = only? (fitting text choices tier) :=
    only?_perm (h.filter _)
  simp only [find?_eq_findSome?, hfound]

theorem find?_eq_some : find? text choices = some choice ↔
    wanted text ≠ [] ∧ ∃ tier, firstTier? text choices = some tier ∧
      fitting text choices tier = [choice] := by
  rw [find?_eq_bind]
  split
  · next hempty => simp [hempty]
  · next hwanted => simp only [Option.bind_eq_some_iff, only?_eq_some, ne_eq, hwanted,
      not_false_iff, true_and]

theorem find?_eq_none {tier : Tier} (hfirst : firstTier? text choices = some tier)
    (hmany : 1 < (fitting text choices tier).length) : find? text choices = none := by
  rw [find?_eq_bind, hfirst, Option.bind_some, only?_eq_none hmany, ite_self]

theorem wanted_of_lower {before given after : String}
    (hlower : Text.lower given = Text.lower choice) (htrim : Text.trim choice = choice)
    (hne : choice ≠ "") (hbefore : ∀ c ∈ before.toList, Text.isBlank c = true)
    (hafter : ∀ c ∈ after.toList, Text.isBlank c = true) :
    Text.trim (before ++ given ++ after) = given ∧
      wanted (before ++ given ++ after) = Text.lowerChars choice.toList := by
  have hchars := Text.lower_inj.mp hlower
  have htrim' : Text.trimChars choice.toList = choice.toList := by
    rw [← Text.toList_trim, htrim]
  have hgiven : Text.trimChars (before ++ given ++ after).toList = given.toList := by
    rw [String.toList_append, String.toList_append]
    exact Text.trimChars_of_lowerChars hchars htrim' (mt String.toList_eq_nil_iff.mp hne)
      hbefore hafter
  constructor
  · rw [← String.toList_inj, Text.toList_trim, hgiven]
  · unfold wanted
    rw [hgiven, hchars]

theorem fitting_equal (hdistinct : (choices.map Text.lower).Nodup) (hmem : choice ∈ choices)
    (hwanted : wanted text = Text.lowerChars choice.toList) :
    fitting text choices .equal = [choice] := by
  have hsame : fitting text choices .equal = choices.filter fun other => other = choice := by
    refine List.filter_congr fun other hother => ?_
    rw [decide_eq_decide, hwanted]
    constructor
    · intro hfits
      exact List.inj_on_of_nodup_map hdistinct hother hmem (Text.lower_inj.mpr hfits)
    · rintro rfl
      rfl
  rw [hsame, List.filter_eq, List.count_eq_one_of_mem hdistinct.of_map hmem]
  rfl

theorem find?_of_lower (hdistinct : (choices.map Text.lower).Nodup) (hmem : choice ∈ choices)
    (hne : choice ≠ "") (hwanted : wanted text = Text.lowerChars choice.toList) :
    find? text choices = some choice := by
  have hfitting := fitting_equal hdistinct hmem hwanted
  refine find?_eq_some.mpr ⟨?_, .equal, ?_, hfitting⟩
  · rw [hwanted]
    exact mt Text.lowerChars_eq_nil.mp (mt String.toList_eq_nil_iff.mp hne)
  · unfold firstTier? Tier.all
    apply List.find?_cons_of_pos
    rw [hfitting]
    rfl

end Choice

namespace ParameterSpec

variable {spec : ParameterSpec} {choice : String}

theorem checkChoice_of_lower {before given after : String}
    (hchoices : ∀ c ∈ spec.choices, Text.trim c = c ∧ c ≠ "")
    (hdistinct : (spec.choices.map Text.lower).Nodup) (hmem : choice ∈ spec.choices)
    (hlower : Text.lower given = Text.lower choice)
    (hbefore : ∀ c ∈ before.toList, Text.isBlank c = true)
    (hafter : ∀ c ∈ after.toList, Text.isBlank c = true) :
    spec.checkChoice (before ++ given ++ after) = .ok (.text choice) := by
  obtain ⟨htrim, hne⟩ := hchoices choice hmem
  obtain ⟨hgiven, hwanted⟩ := Choice.wanted_of_lower hlower htrim hne hbefore hafter
  rw [checkChoice]
  split
  · next hcontains =>
    -- What is a choice as it stands has no white space around it, so it is the text given.
    have hdeclared := List.contains_iff_mem.mp hcontains
    have hbare : before ++ given ++ after = given := (hchoices _ hdeclared).1.symm.trans hgiven
    have hsame : before ++ given ++ after = choice := by
      apply List.inj_on_of_nodup_map hdistinct hdeclared hmem
      rw [hbare, hlower]
    rw [hsame]
  · rw [Choice.find?_of_lower hdistinct hmem hne hwanted]

theorem check_of_lower (skill : String) {before given after : String} (htype : spec.type = .enum)
    (hchoices : ∀ c ∈ spec.choices, Text.trim c = c ∧ c ≠ "")
    (hdistinct : (spec.choices.map Text.lower).Nodup) (hmem : choice ∈ spec.choices)
    (hlower : Text.lower given = Text.lower choice)
    (hbefore : ∀ c ∈ before.toList, Text.isBlank c = true)
    (hafter : ∀ c ∈ after.toList, Text.isBlank c = true) :
    spec.check skill (.string (before ++ given ++ after)) =
      .ok (.text choice, spec.completion skill (before ++ given ++ after) (.text choice)) := by
  have hfit : spec.fit (.string (before ++ given ++ after)) = .ok (.text choice) := by
    rw [fit, htype]
    exact checkChoice_of_lower hchoices hdistinct hmem hlower hbefore hafter
  rw [check, hfit]
  simp only [htype, if_true]
  rfl

end ParameterSpec

/-- A text means a choice if and only if that is the only one in the first tier in which any choice
fits. If several fit there, no later tier helps, and the order of the choices has no bearing. So a
choice in any case and with white space around it is brought into the form declared, if the choices
are trimmed, non-empty and distinct whatever their case. -/
theorem Choice.unambiguous (choices : List String) :
    (∀ text choice, find? text choices = some choice ↔
      wanted text ≠ [] ∧ ∃ tier, firstTier? text choices = some tier ∧
        fitting text choices tier = [choice]) ∧
    (∀ text tier, firstTier? text choices = some tier →
      1 < (fitting text choices tier).length → find? text choices = none) ∧
    (∀ text others, others.Perm choices → find? text others = find? text choices) ∧
    ((∀ choice ∈ choices, Text.trim choice = choice ∧ choice ≠ "") →
      (choices.map Text.lower).Nodup →
      ∀ (skill : String) (spec : ParameterSpec), spec.type = .enum → spec.choices = choices →
      ∀ choice ∈ choices, ∀ before given after : String, Text.lower given = Text.lower choice →
      (∀ c ∈ before.toList, Text.isBlank c = true) →
      (∀ c ∈ after.toList, Text.isBlank c = true) →
      spec.check skill (.string (before ++ given ++ after)) =
        .ok (.text choice, spec.completion skill (before ++ given ++ after) (.text choice))) := by
  refine ⟨fun _ _ => find?_eq_some, fun _ _ => find?_eq_none, fun text _ => find?_perm text, ?_⟩
  intro hchoices hdistinct skill spec htype hspec choice hmem before given after
  subst hspec
  exact spec.check_of_lower skill htype hchoices hdistinct hmem

/-- A direction in capitals and between blanks, which is not the longer one that it begins. -/
theorem Choice.unambiguous_directions :
    let spec : ParameterSpec :=
      { name := "type", type := .enum, choices? := some ["in", "out", "inout"] }
    find? "ou" spec.choices = some "out" ∧ find? "o" spec.choices = some "out" ∧
      find? "i" spec.choices = none ∧
      spec.check "fade" (.string " IN ") =
        .ok (.text "in", spec.completion "fade" " IN " (.text "in")) := by
  intro spec
  have hblank : ∀ c ∈ " ".toList, Text.isBlank c = true :=
    List.all_eq_true.mp (by decide +kernel)
  obtain ⟨hfind, hmany, -, hcheck⟩ := Choice.unambiguous spec.choices
  refine ⟨(hfind _ _).mpr ⟨by decide +kernel, .beginning, by decide +kernel, by decide +kernel⟩,
    (hfind _ _).mpr ⟨by decide +kernel, .beginning, by decide +kernel, by decide +kernel⟩,
    hmany _ .beginning (by decide +kernel) (by decide +kernel), ?_⟩
  exact hcheck (by decide +kernel) (by decide +kernel) "fade" spec rfl rfl "in" (by decide)
    " " "IN" " " (by decide +kernel) hblank hblank

end SkillPipeline
