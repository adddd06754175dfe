import Mathlib.Data.List.Infix
import Mathlib.Data.List.Basic
import SkillPipeline.Journal.Notice
import SkillPipeline.Proofs.Text.Basic

namespace SkillPipeline.Text

variable {pattern part rest s t : List Char} {parts : List (List Char)} {c : Char}

theorem isPrefixOf_eq_false (h : ¬pattern <+: s) : pattern.isPrefixOf s = false := by
  rwa [← Bool.not_eq_true, List.isPrefixOf_iff_prefix]

theorem prefix_of_prefix_append_cons (hc : c ∉ pattern) (h : pattern <+: s ++ c :: t) :
    pattern <+: s := by
  induction s generalizing pattern with
  | nil =>
    cases pattern with
    | nil => exact List.nil_prefix
    | cons d pattern =>
      obtain ⟨rfl, -⟩ := List.cons_prefix_cons.mp h
      exact absurd List.mem_cons_self hc
  | cons d s ih =>
    cases pattern with
    | nil => exact List.nil_prefix
    | cons e pattern =>
      obtain ⟨rfl, hrest⟩ := List.cons_prefix_cons.mp h
      have hrestc : c ∉ pattern := fun hmem => hc (List.mem_cons_of_mem e hmem)
      exact List.cons_prefix_cons.mpr ⟨rfl, ih hrestc hrest⟩

theorem infix_of_infix_append_cons (hc : c ∉ pattern) (h : pattern <:+: s ++ c :: t) :
    pattern <:+: s ∨ pattern <:+: t := by
  induction s with
  | nil =>
    obtain hstart | h := List.infix_cons_iff.mp h
    · exact .inl (prefix_of_prefix_append_cons (s := []) hc hstart).isInfix
    · exact .inr h
  | cons d s ih =>
    obtain hstart | h := List.infix_cons_iff.mp h
    · exact .inl (prefix_of_prefix_append_cons (s := d :: s) hc hstart).isInfix
    · exact (ih h).imp_left fun hs => hs.trans (List.infix_cons List.infix_rfl)

theorem not_infix_intercalate (hsome : pattern ≠ []) (hc : c ∉ pattern)
    (hparts : ∀ part ∈ parts, ¬pattern <:+: part) : ¬pattern <:+: [c].intercalate parts := by
  induction parts with
  | nil => exact fun h => hsome (List.infix_nil.mp h)
  | cons part rest ih =>
    obtain ⟨hpart, hrest⟩ := List.forall_mem_cons.mp hparts
    cases rest with
    | nil => rwa [List.intercalate_singleton]
    | cons next rest =>
      rw [List.intercalate_cons_cons, List.append_assoc, List.singleton_append]
      intro h
      obtain h | h := infix_of_infix_append_cons hc h
      · exact hpart h
      · exact ih hrest h

/-- The parts between the occurrences, with `skip` characters of the last one still to pass over. -/
def cutFrom (pattern : List Char) : Nat → List Char → List (List Char)
  | _, [] => [[]]
  | skip + 1, _ :: rest => cutFrom pattern skip rest
  | 0, c :: rest =>
    if pattern.isPrefixOf (c :: rest) then [] :: cutFrom pattern (pattern.length - 1) rest
    else (cutFrom pattern 0 rest).modifyHead (c :: ·)

/-- The parts of a text between the occurrences that are replaced. -/
def cut (pattern s : List Char) : List (List Char) := cutFrom pattern 0 s

theorem cutFrom_ne_nil (skip : ℕ) (s : List Char) : cutFrom pattern skip s ≠ [] := by
  induction s generalizing skip with
  | nil => simp [cutFrom]
  | cons c rest ih =>
    cases skip with
    | zero =>
      rw [cutFrom]
      split
      · exact List.cons_ne_nil _ _
      · exact fun h => ih 0 (List.modifyHead_eq_nil_iff.mp h)
    | succ skip => exact ih skip

theorem intercalate_modifyHead (separator : List Char) (hparts : parts ≠ []) (c : Char) :
    separator.intercalate (parts.modifyHead (c :: ·)) = c :: separator.intercalate parts := by
  obtain ⟨part, rest, rfl⟩ := List.exists_cons_of_ne_nil hparts
  cases rest with
  | nil => simp
  | cons next rest => simp

theorem intercalate_nil_cons (separator : List Char) (hparts : parts ≠ []) :
    separator.intercalate ([] :: parts) = separator ++ separator.intercalate parts := by
  obtain ⟨part, rest, rfl⟩ := List.exists_cons_of_ne_nil hparts
  rw [List.intercalate_cons_cons, List.nil_append]

theorem replaceFrom_eq (replacement : List Char) (skip : ℕ) (s : List Char) :
    replaceFrom pattern replacement skip s = replacement.intercalate (cutFrom pattern skip s) := by
  induction s generalizing skip with
  | nil => cases skip <;> simp [replaceFrom, cutFrom]
  | cons c rest ih =>
    cases skip with
    | zero =>
      rw [replaceFrom, cutFrom]
      split
      · rw [ih, intercalate_nil_cons _ (cutFrom_ne_nil _ _)]
      · rw [ih, intercalate_modifyHead _ (cutFrom_ne_nil _ _)]
    | succ skip => exact ih skip

theorem intercalate_cutFrom (hsome : pattern ≠ []) (skip : ℕ) (s : List Char) :
    pattern.intercalate (cutFrom pattern skip s) = s.drop skip := by
  induction s generalizing skip with
  | nil => cases skip <;> simp [cutFrom]
  | cons c rest ih =>
    cases skip with
    | zero =>
      rw [cutFrom]
      split
      · next hstart =>
        obtain ⟨after, hafter⟩ := List.isPrefixOf_iff_prefix.mp hstart
        obtain ⟨d, pattern, rfl⟩ := List.exists_cons_of_ne_nil hsome
        rw [List.cons_append] at hafter
        obtain ⟨rfl, rfl⟩ := List.cons.inj hafter
        rw [intercalate_nil_cons _ (cutFrom_ne_nil _ _), ih, List.length_cons, Nat.add_sub_cancel,
          List.drop_left, List.drop_zero, List.cons_append]
      · rw [intercalate_modifyHead _ (cutFrom_ne_nil _ _), ih, List.drop_zero, List.drop_zero]
    | succ skip => exact ih skip

theorem head_cutFrom_prefix (pattern : List Char) (skip : ℕ) (s : List Char) :
    ∀ part ∈ (cutFrom pattern skip s).head?, part <+: s.drop skip := by
  induction s generalizing skip with
  | nil => cases skip <;> simp [cutFrom]
  | cons c rest ih =>
    cases skip with
    | zero =>
      rw [cutFrom]
      split
      · simp
      · have hrest := ih 0
        cases hparts : cutFrom pattern 0 rest with
        | nil => exact absurd hparts (cutFrom_ne_nil _ _)
        | cons part parts =>
          rw [hparts] at hrest
          simpa using hrest
    | succ skip => exact ih skip

theorem not_infix_of_mem_cutFrom (hsome : pattern ≠ []) (skip : ℕ) (s : List Char) :
    ∀ part ∈ cutFrom pattern skip s, ¬pattern <:+: part := by
  have hnil : ¬pattern <:+: [] := fun h => hsome (List.infix_nil.mp h)
  induction s generalizing skip with
  | nil => cases skip <;> simpa [cutFrom] using hsome
  | cons c rest ih =>
    cases skip with
    | zero =>
      rw [cutFrom]
      split
      · exact List.forall_mem_cons.mpr ⟨hnil, ih _⟩
      · next hstart =>
        have hrest := ih 0
        have hhead := head_cutFrom_prefix pattern 0 rest
        cases hparts : cutFrom pattern 0 rest with
        | nil => exact absurd hparts (cutFrom_ne_nil _ _)
        | cons part parts =>
          rw [hparts] at hrest hhead
          obtain ⟨hpart, hparts⟩ := List.forall_mem_cons.mp hrest
          refine List.forall_mem_cons.mpr ⟨fun h => ?_, hparts⟩
          -- An occurrence at the start of the part would be one at the start of the text.
          obtain h | h := List.infix_cons_iff.mp h
          · refine hstart (List.isPrefixOf_iff_prefix.mpr (h.trans ?_))
            exact List.cons_prefix_cons.mpr ⟨rfl, hhead part rfl⟩
          · exact hpart h
    | succ skip => exact ih skip

theorem cutFrom_of_not_infix (h : ¬pattern <:+: s) : cutFrom pattern 0 s = [s] := by
  induction s with
  | nil => rfl
  | cons c rest ih =>
    have hstart : pattern.isPrefixOf (c :: rest) = false :=
      isPrefixOf_eq_false fun hstart => h hstart.isInfix
    rw [cutFrom, hstart, ih fun hrest => h (hrest.trans (List.infix_cons List.infix_rfl))]
    rfl

end SkillPipeline.Text

namespace SkillPipeline.Journal

open Text

/-- A home directory that is told from what is written around it: not the root, and with no mark
and nothing that a line escapes. -/
structure IsHome (home : String) : Prop where
  some : home ≠ ""
  notRoot : home ≠ "/"
  unmarked : '~' ∉ home.toList
  plain : ∀ c ∈ home.toList, Json.escapeChar c = [c]

/-- The parts of a text between the occurrences of the home directory that are redacted. -/
def parts (home s : String) : List String := (cut home.toList s.toList).map String.ofList

variable {home : String}

theorem IsHome.toList_ne_nil (h : IsHome home) : home.toList ≠ [] :=
  fun hnil => h.some (String.toList_eq_nil_iff.mp hnil)

theorem redactChars_eq (h : IsHome home) (s : List Char) :
    redactChars home.toList s = ['~'].intercalate (cut home.toList s) := by
  have hroot : home.toList ≠ ['/'] := fun heq => h.notRoot (String.toList_inj.mp heq)
  rw [redactChars, if_neg (not_or.mpr ⟨h.toList_ne_nil, hroot⟩), replaceAll,
    if_neg (by simpa using h.toList_ne_nil), replaceFrom_eq, cut]

theorem not_infix_redactChars (h : IsHome home) (s : List Char) :
    ¬home.toList <:+: redactChars home.toList s := by
  rw [redactChars_eq h]
  exact not_infix_intercalate h.toList_ne_nil h.unmarked
    (not_infix_of_mem_cutFrom h.toList_ne_nil 0 s)

theorem contains_eq_false {s : String} (h : ¬home.toList <:+: s.toList) :
    Text.contains s home = false := by
  rwa [Text.contains, ← Bool.not_eq_true, occursIn_iff]

theorem not_contains_line (h : IsHome home) (n : Notice) (time? : Option Instant) :
    Text.contains (n.line home time? ++ "\n") home = false := by
  have hend : '\n' ∉ home.toList := fun hmem => absurd (h.plain _ hmem) (by decide)
  refine contains_eq_false fun hline => ?_
  rw [Notice.line, redact, String.toList_append, String.toList_ofList] at hline
  obtain hline | hend := infix_of_infix_append_cons (t := []) hend hline
  · exact not_infix_redactChars h _ hline
  · exact h.toList_ne_nil (List.infix_nil.mp hend)

theorem redact_redact (h : IsHome home) (s : String) :
    redact home (redact home s) = redact home s := by
  have hcut := cutFrom_of_not_infix (not_infix_redactChars h s.toList)
  rw [redact, redact, String.toList_ofList, redactChars_eq h (redactChars _ _), cut, hcut,
    List.intercalate_singleton]

theorem toList_join_parts (separator home s : String) :
    (Text.join separator (parts home s)).toList =
      separator.toList.intercalate (cut home.toList s.toList) := by
  have hparts : (cut home.toList s.toList).map (String.toList ∘ String.ofList) =
      cut home.toList s.toList := by simp
  rw [Text.join, parts, String.toList_intercalate, List.map_map, hparts]

theorem redact_eq_join (h : IsHome home) (s : String) :
    redact home s = Text.join "~" (parts home s) := by
  rw [redact, redactChars_eq h, ← String.toList_inj, String.toList_ofList, toList_join_parts]
  rfl

theorem join_parts (h : IsHome home) (s : String) : Text.join home (parts home s) = s := by
  rw [← String.toList_inj, toList_join_parts, cut, intercalate_cutFrom h.toList_ne_nil,
    List.drop_zero]

/-- No line that is written holds the home directory, whatever its level, its message, its fields
and its time. Redaction is done once and for all: doing it again changes nothing, and the marks
stand between the parts of the text without an occurrence, so putting the directory where a mark
was put gives the text back. -/
theorem lines_anonymous (h : IsHome home) :
    (∀ (level : Level) (message : String) (fields : List (String × Value))
        (time? : Option Instant),
      Text.contains ((Notice.mk level message fields).line home time? ++ "\n") home = false) ∧
      ∀ s, redact home (redact home s) = redact home s ∧
        (∀ part ∈ parts home s, Text.contains part home = false) ∧
          redact home s = Text.join "~" (parts home s) ∧ Text.join home (parts home s) = s := by
  refine ⟨fun level message fields time? => not_contains_line h _ time?,
    fun s => ⟨redact_redact h s, fun part hpart => ?_, redact_eq_join h s, join_parts h s⟩⟩
  obtain ⟨chars, hchars, rfl⟩ := List.mem_map.mp hpart
  refine contains_eq_false ?_
  rw [String.toList_ofList]
  exact not_infix_of_mem_cutFrom h.toList_ne_nil 0 s.toList chars hchars

/-- A notice whose message and fields name the home directory, once right before a part of it. -/
def tellTale : Notice where
  level := .warn
  message := "reading /home/tes/home/tester/a.mp4"
  fields := [("path", .string "/home/tester"), ("/home/tester", .null)]

theorem lines_anonymous_tester : IsHome "/home/tester" ∧
    Text.contains (tellTale.line "/home/tester" (some ⟨0⟩) ++ "\n") "/home/tester" = false ∧
      redact "/home/tester" "~ /home/tes/home/tester/home/tester" = "~ /home/tes~~" ∧
        Text.join "/home/tester" (parts "/home/tester" "~ /home/tes/home/tester/home/tester") =
          "~ /home/tes/home/tester/home/tester" := by
  have hplain : "/home/tester".toList.all fun c => Json.escapeChar c == [c] := by decide +kernel
  have hhome : IsHome "/home/tester" := ⟨by decide, by decide, by decide +kernel,
    fun c hc => beq_iff_eq.mp (List.all_eq_true.mp hplain c hc)⟩
  obtain ⟨hline, hredact⟩ := lines_anonymous hhome
  exact ⟨hhome, hline .warn _ _ (some ⟨0⟩), by decide +kernel, (hredact _).2.2.2⟩

end SkillPipeline.Journal
