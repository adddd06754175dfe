import SkillPipeline.Proofs.Filter.Likeness

namespace SkillPipeline.Filter

open Reading

/-- Where a value leaves a reader who comes to it in a section. -/
def sectionEnd (s : List Char) : Reading := if '\'' ∈ s then .outside else .quoted

/-- The live characters of a value that is escaped, and where it leaves the reader. -/
def Reading.exposure : Reading → List Char → List Char × Reading
  | .outside, _ => ([], .outside)
  | .quoted, s => ([], sectionEnd s)
  | .pending, [] => ([], .pending)
  | .pending, c :: rest =>
    if c = '\\' then Reading.exposure .pending rest
    else if c = '\'' then ([c], sectionEnd rest)
    else ([c].filter isStructural, .outside)

/-- A character stays as it is, or is put after a backslash; a percent sign is doubled. -/
theorem escapeChars_singleton (c : Char) : escapeChars [c] = ['%', '%'] ∧ c = '%' ∨
    escapeChars [c] = ['\\', c] ∧ c ≠ '%' ∨ escapeChars [c] = [c] ∧ Inert c := by
  by_cases hrule : c ∈ escapeRules.map Prod.fst
  · simp only [escapeRules, List.map_cons, List.map_nil, List.mem_cons, List.not_mem_nil,
      or_false] at hrule
    rcases hrule with rfl | rfl | rfl | rfl | rfl | rfl | rfl | rfl <;> decide
  · have hplain : isPlain c = true := by simpa [isPlain] using hrule
    exact .inr (.inr ⟨foldl_replaceChar_of_notMem hrule, inert_of_isPlain hplain⟩)

theorem escapeChars_cons (c : Char) (s : List Char) :
    escapeChars (c :: s) = escapeChars [c] ++ escapeChars s := escapeChars_append [c] s

theorem read_escape_cons (r : Reading) (c : Char) (s : List Char) :
    (r.live (escapeChars (c :: s)), r.after (escapeChars (c :: s))) =
      (r.live (escapeChars [c]) ++ (r.after (escapeChars [c])).live (escapeChars s),
        (r.after (escapeChars [c])).after (escapeChars s)) := by
  rw [escapeChars_cons, live_append, after_append]

theorem read_outside (s : List Char) :
    (Reading.outside.live (escapeChars s), Reading.outside.after (escapeChars s)) =
      ([], .outside) := by
  rw [(neutral_escapeChars s).live_eq, (neutral_escapeChars s).after_eq]

theorem read_quoted (s : List Char) :
    (Reading.quoted.live (escapeChars s), Reading.quoted.after (escapeChars s)) =
      ([], sectionEnd s) := by
  -- On the characters: after the first apostrophe the reader is outside, where nothing happens.
  induction s with
  | nil => rfl
  | cons c s ih =>
    rw [read_escape_cons]
    by_cases hc : c = '\''
    · subst hc
      have hfirst : Reading.quoted.live (escapeChars ['\'']) = [] ∧
          Reading.quoted.after (escapeChars ['\'']) = .outside := by decide
      rw [hfirst.1, hfirst.2, List.nil_append, read_outside, sectionEnd, if_pos List.mem_cons_self]
    · have hfirst : Reading.quoted.live (escapeChars [c]) = [] ∧
          Reading.quoted.after (escapeChars [c]) = .quoted := by
        obtain ⟨hescape, rfl⟩ | ⟨hescape, -⟩ | ⟨hescape, -⟩ := escapeChars_singleton c <;>
          simp [hescape, Reading.live, Reading.next, hc]
      rw [hfirst.1, hfirst.2, List.nil_append, ih, sectionEnd, sectionEnd]
      simp [Ne.symm hc]

/-- After a backslash, the first character that is no backslash itself is on its own. -/
theorem read_pending (s : List Char) :
    (Reading.pending.live (escapeChars s), Reading.pending.after (escapeChars s)) =
      Reading.pending.exposure s := by
  -- A backslash is doubled, so the reader is behind one again; anything else ends the waiting.
  induction s with
  | nil => rfl
  | cons c s ih =>
    rw [read_escape_cons, exposure]
    split
    · next hc =>
      subst hc
      have hfirst : Reading.pending.live (escapeChars ['\\']) = [] ∧
          Reading.pending.after (escapeChars ['\\']) = .pending := by decide
      rw [hfirst.1, hfirst.2, List.nil_append, ih]
    · next hbackslash =>
      split
      · next hc =>
        subst hc
        have hfirst : Reading.pending.live (escapeChars ['\'']) = ['\''] ∧
            Reading.pending.after (escapeChars ['\'']) = .quoted := by decide
        obtain ⟨hlive, hafter⟩ := Prod.mk.inj (read_quoted s)
        rw [hfirst.1, hfirst.2, hlive, hafter, List.append_nil]
      · next hquote =>
        have hfirst : Reading.pending.live (escapeChars [c]) = [c].filter isStructural ∧
            Reading.pending.after (escapeChars [c]) = .outside := by
          obtain ⟨hescape, rfl⟩ | ⟨hescape, -⟩ | ⟨hescape, hinert⟩ := escapeChars_singleton c
          · decide
          · simp [hescape, Reading.live, Reading.next, hbackslash, hquote, List.filter_singleton]
          · simp [hescape, Reading.live, Reading.next, hinert.1]
        obtain ⟨hlive, hafter⟩ := Prod.mk.inj (read_outside s)
        rw [hfirst.1, hfirst.2, hlive, hafter, List.append_nil]

/-- The exposure of a value says what happens to a reader of it, wherever the reader stands. -/
theorem read_escape (r : Reading) (s : List Char) :
    (r.live (escapeChars s), r.after (escapeChars s)) = r.exposure s := by
  cases r with
  | outside => rw [read_outside, exposure]
  | pending => exact read_pending s
  | quoted => rw [read_quoted, exposure]

example : Reading.pending.exposure [',', 'v', 'f'] = ([','], .outside) := by decide

/-- Values of one exposure are read alike. -/
theorem readAlike_of_exposure {r : Reading} {s t : List Char} (h : r.exposure s = r.exposure t) :
    ReadAlike r (escapeChars s) (escapeChars t) (r.after (escapeChars s)) := by
  rw [← read_escape, ← read_escape] at h
  obtain ⟨hlive, hafter⟩ := Prod.mk.inj h
  exact ⟨rfl, hafter.symm, hlive⟩

end SkillPipeline.Filter
