import SkillPipeline.Proofs.Filter.Likeness

namespace SkillPipeline.Filter

/-- No rule writes a character that a later rule replaces. -/
def NeverRewritten (rules : List (Char × List Char)) : Prop :=
  rules.Pairwise fun rule later => later.1 ∉ rule.2

instance (rules : List (Char × List Char)) : Decidable (NeverRewritten rules) :=
  inferInstanceAs (Decidable (List.Pairwise _ _))

/-- What the first rule about a character writes for it. -/
def replacement (rules : List (Char × List Char)) (c : Char) : List Char :=
  (rules.lookup c).getD [c]

theorem replacement_of_notMem {rules : List (Char × List Char)} {c : Char}
    (h : ∀ rule ∈ rules, rule.1 ≠ c) : replacement rules c = [c] := by
  have hnone : rules.lookup c = none :=
    List.lookup_eq_none_iff.mpr fun rule hrule => by
      simpa [bne_iff_ne] using (h rule hrule).symm
  rw [replacement, hnone, Option.getD_none]

/-- Rules that never rewrite each other may be applied to all characters at once. -/
theorem foldl_replaceChar_eq_flatMap {rules : List (Char × List Char)} (h : NeverRewritten rules)
    (s : List Char) : rules.foldl (fun s rule => Text.replaceChar rule.1 rule.2 s) s =
      s.flatMap (replacement rules) := by
  -- On the rules: what the first one writes passes through the others as it is.
  induction rules generalizing s with
  | nil => exact (List.flatMap_singleton' s).symm
  | cons rule rules ih =>
    obtain ⟨hfirst, hrest⟩ := List.pairwise_cons.mp h
    rw [List.foldl_cons, ih hrest, Text.replaceChar, List.flatMap_assoc]
    refine congrArg (s.flatMap ·) (funext fun c => ?_)
    rw [replacement, List.lookup_cons]
    by_cases hc : c = rule.1
    · have hkept : rule.2.flatMap (replacement rules) = rule.2.flatMap fun d => [d] :=
        List.flatMap_congr fun d hd =>
          replacement_of_notMem fun later hlater heq => hfirst later hlater (heq ▸ hd)
      rw [if_pos hc, hkept, List.flatMap_singleton', beq_iff_eq.mpr hc, Option.getD_some]
    · rw [if_neg hc, List.flatMap_singleton, beq_false_of_ne hc, replacement]

theorem neverRewritten_escapeRules : NeverRewritten escapeRules := by decide

/-- Each character is escaped by itself, once. -/
theorem escapeChars_eq_replacement (s : List Char) :
    escapeChars s = s.flatMap (replacement escapeRules) :=
  foldl_replaceChar_eq_flatMap neverRewritten_escapeRules s

/-- Reads escaped text back in one pass: a backslash before a character that is escaped gives that
character, and two percent signs give one. -/
def unescapeChars : List Char → List Char
  | '\\' :: c :: rest =>
    if isPlain c then '\\' :: unescapeChars (c :: rest) else c :: unescapeChars rest
  | '%' :: '%' :: rest => '%' :: unescapeChars rest
  | c :: rest => c :: unescapeChars rest
  | [] => []

def unescape (s : String) : String := String.ofList (unescapeChars s.toList)

theorem unescapeChars_backslash {c : Char} (h : isPlain c = false) (rest : List Char) :
    unescapeChars ('\\' :: c :: rest) = c :: unescapeChars rest := by
  rw [unescapeChars, if_neg (by simp [h])]

theorem unescapeChars_plain {c : Char} (h : isPlain c = true) (rest : List Char) :
    unescapeChars (c :: rest) = c :: unescapeChars rest := by
  rw [unescapeChars]
  · rintro d rest rfl
    exact absurd h (by decide)
  · rintro rest rfl
    exact absurd h (by decide)

theorem unescapeChars_replacement (c : Char) (rest : List Char) :
    unescapeChars (replacement escapeRules c ++ rest) = c :: unescapeChars rest := by
  cases hc : isPlain c with
  | true =>
    have hrules : ∀ rule ∈ escapeRules, rule.1 ≠ c := fun rule hrule heq =>
      notMem_of_isPlain hc (heq ▸ List.mem_map_of_mem hrule)
    rw [replacement_of_notMem hrules, List.singleton_append, unescapeChars_plain hc]
  | false =>
    have hrule : c ∈ escapeRules.map Prod.fst := by simpa [isPlain] using hc
    simp only [escapeRules, List.map_cons, List.map_nil, List.mem_cons, List.not_mem_nil,
      or_false] at hrule
    obtain rfl | rfl | rfl | rfl | rfl | rfl | rfl | rfl := hrule
    case inr.inr.inr.inr.inl => rfl
    all_goals exact unescapeChars_backslash hc rest

theorem unescapeChars_escapeChars (s : List Char) : unescapeChars (escapeChars s) = s := by
  rw [escapeChars_eq_replacement]
  induction s with
  | nil => rfl
  | cons c s ih => rw [List.flatMap_cons, unescapeChars_replacement, ih]

theorem unescape_escape (s : String) : unescape (escape s) = s := by
  rw [unescape, escape, String.toList_ofList, unescapeChars_escapeChars, String.ofList_toList]

/-- Escaping replaces every character by its rule, all at once, so a text is escaped part by part.
Nothing is lost by it: one pass reads every text back, and no two texts are escaped alike. -/
theorem escape_reversible (a b : String) :
    escape a = String.ofList (a.toList.flatMap (replacement escapeRules)) ∧
      escape (a ++ b) = escape a ++ escape b ∧ unescape (escape a) = a ∧
      (escape a = escape b ↔ a = b) := by
  refine ⟨by rw [escape, escapeChars_eq_replacement], ?_, unescape_escape a, fun h => ?_,
    congrArg escape⟩
  · rw [escape, String.toList_append, escapeChars_append, String.ofList_append]
    rfl
  · calc a = unescape (escape a) := (unescape_escape a).symm
      _ = b := by rw [h, unescape_escape]

example : escape "50%: it's \\[a]" = "50%%\\: it\\'s \\\\\\[a\\]" := by decide +kernel

end SkillPipeline.Filter
