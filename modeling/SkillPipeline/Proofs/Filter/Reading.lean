import Mathlib.Data.List.Basic
import SkillPipeline.Filter.Piece

namespace SkillPipeline.Filter

/-- Where the reader stands: outside quotes, after a backslash outside quotes, or in a section. -/
inductive Reading where
  | outside
  | pending
  | quoted
  deriving DecidableEq, Repr

def isStructural (c : Char) : Bool := [',', ';', ':', '[', ']', '\''].contains c

namespace Reading

def next : Reading → Char → Reading
  | outside, c => if c = '\\' then pending else if c = '\'' then quoted else outside
  | pending, _ => outside
  | quoted, c => if c = '\'' then outside else quoted

/-- Where the reader stands after the characters. -/
def after (r : Reading) (s : List Char) : Reading := s.foldl next r

/-- The live characters that the reader meets. -/
def live : Reading → List Char → List Char
  | _, [] => []
  | r, c :: rest =>
    if r = outside ∧ isStructural c then c :: live (r.next c) rest else live (r.next c) rest

variable (r : Reading) (c : Char) (s t : List Char)

@[simp] theorem after_nil : r.after [] = r := rfl

@[simp] theorem after_cons : r.after (c :: s) = (r.next c).after s := rfl

@[simp] theorem after_append : r.after (s ++ t) = (r.after s).after t := List.foldl_append ..

@[simp] theorem live_nil : r.live [] = [] := rfl

theorem live_append : r.live (s ++ t) = r.live s ++ (r.after s).live t := by
  induction s generalizing r with
  | nil => rfl
  | cons c s ih =>
    rw [List.cons_append, live, live, after_cons]
    split
    · rw [ih, List.cons_append]
    · exact ih _

end Reading

/-- The characters leave a reader outside quotes where it was, and it meets no live one. -/
structure Neutral (s : List Char) : Prop where
  after_eq : Reading.outside.after s = .outside
  live_eq : Reading.outside.live s = []

instance (s : List Char) : Decidable (Neutral s) :=
  decidable_of_iff (Reading.outside.after s = .outside ∧ Reading.outside.live s = [])
    ⟨fun h => ⟨h.1, h.2⟩, fun h => ⟨h.after_eq, h.live_eq⟩⟩

theorem neutral_nil : Neutral [] := ⟨rfl, rfl⟩

theorem Neutral.append {s t : List Char} (hs : Neutral s) (ht : Neutral t) : Neutral (s ++ t) where
  after_eq := by rw [Reading.after_append, hs.after_eq, ht.after_eq]
  live_eq := by rw [Reading.live_append, hs.after_eq, hs.live_eq, ht.live_eq, List.append_nil]

theorem neutral_flatMap {f : Char → List Char} (h : ∀ c, Neutral (f c)) (s : List Char) :
    Neutral (s.flatMap f) := by
  induction s with
  | nil => exact neutral_nil
  | cons c s ih =>
    rw [List.flatMap_cons]
    exact (h c).append ih

theorem neutral_singleton {c : Char} (hstructural : isStructural c = false) (hc : c ≠ '\\') :
    Neutral [c] := by
  have hquote : c ≠ '\'' := by
    rintro rfl
    exact absurd hstructural (by decide)
  have hnext : Reading.outside.next c = .outside := by rw [Reading.next, if_neg hc, if_neg hquote]
  refine ⟨hnext, ?_⟩
  rw [Reading.live, if_neg (by simp [hstructural]), hnext, Reading.live_nil]

theorem replaceChar_append (c : Char) (replacement s t : List Char) :
    Text.replaceChar c replacement (s ++ t) =
      Text.replaceChar c replacement s ++ Text.replaceChar c replacement t :=
  List.flatMap_append

theorem foldl_replaceChar_append (rules : List (Char × List Char)) (s t : List Char) :
    rules.foldl (fun s rule => Text.replaceChar rule.1 rule.2 s) (s ++ t) =
      rules.foldl (fun s rule => Text.replaceChar rule.1 rule.2 s) s ++
        rules.foldl (fun s rule => Text.replaceChar rule.1 rule.2 s) t := by
  induction rules generalizing s t with
  | nil => rfl
  | cons rule rules ih => rw [List.foldl_cons, replaceChar_append, ih, List.foldl_cons,
      List.foldl_cons]

theorem escapeChars_append (s t : List Char) :
    escapeChars (s ++ t) = escapeChars s ++ escapeChars t :=
  foldl_replaceChar_append escapeRules s t

theorem escapeChars_eq_flatMap (s : List Char) :
    escapeChars s = s.flatMap fun c => escapeChars [c] := by
  induction s with
  | nil => rfl
  | cons c s ih => rw [List.flatMap_cons, ← ih, ← escapeChars_append, List.singleton_append]

theorem foldl_replaceChar_of_notMem {c : Char} {rules : List (Char × List Char)}
    (h : c ∉ rules.map Prod.fst) :
    rules.foldl (fun s rule => Text.replaceChar rule.1 rule.2 s) [c] = [c] := by
  induction rules with
  | nil => rfl
  | cons rule rules ih =>
    obtain ⟨hne, hrest⟩ := not_or.mp (mt List.mem_cons.mpr h)
    have hkept : Text.replaceChar rule.1 rule.2 [c] = [c] := by
      rw [Text.replaceChar, List.flatMap_singleton, if_neg hne]
    rw [List.foldl_cons, hkept, ih hrest]

/-- A character is escaped to neutral text, whether a rule is about it or none. -/
theorem neutral_escapeChar (c : Char) : Neutral (escapeChars [c]) := by
  by_cases hrule : c ∈ escapeRules.map Prod.fst
  · simp only [escapeRules, List.map_cons, List.map_nil, List.mem_cons, List.not_mem_nil,
      or_false] at hrule
    rcases hrule with rfl | rfl | rfl | rfl | rfl | rfl | rfl | rfl <;> decide
  · have hkept : escapeChars [c] = [c] := foldl_replaceChar_of_notMem hrule
    simp only [escapeRules, List.map_cons, List.map_nil, List.mem_cons, List.not_mem_nil, or_false,
      not_or] at hrule
    rw [hkept]
    exact neutral_singleton (by simp [isStructural, hrule]) hrule.1

theorem neutral_escapeChars (s : List Char) : Neutral (escapeChars s) := by
  rw [escapeChars_eq_flatMap]
  exact neutral_flatMap neutral_escapeChar s

/-- Where a reader that starts outside quotes stands after the text. -/
def readingAfter (s : String) : Reading := Reading.outside.after s.toList

/-- The live characters of a text that is read on its own. -/
def live (s : String) : List Char := Reading.outside.live s.toList

/-- Escaped text is structurally neutral: put where the reader is outside quotes, it leaves the
reader there, and every other character is live as if the escaped text were not. -/
theorem live_escape (s q : String) {p : String} (hp : readingAfter p = .outside) :
    readingAfter (p ++ escape s) = .outside ∧ live (p ++ escape s ++ q) = live p ++ live q := by
  have hneutral := neutral_escapeChars s.toList
  have hread : readingAfter (p ++ escape s) = .outside := by
    rw [readingAfter, String.toList_append, escape, String.toList_ofList, Reading.after_append]
    rw [readingAfter] at hp
    rw [hp, hneutral.after_eq]
  have hlive : live (p ++ escape s) = live p := by
    rw [live, String.toList_append, escape, String.toList_ofList, Reading.live_append]
    rw [readingAfter] at hp
    rw [hp, hneutral.live_eq, List.append_nil, live]
  refine ⟨hread, ?_⟩
  calc live (p ++ escape s ++ q)
      = live (p ++ escape s) ++ (readingAfter (p ++ escape s)).live q.toList := by
        rw [live, String.toList_append, Reading.live_append, ← live, ← readingAfter]
    _ = live p ++ live q := by rw [hlive, hread, live, live]

theorem live_escape_apostrophe :
    readingAfter "[0:v]drawtext=text=" = .outside ∧
      readingAfter ("[0:v]drawtext=text=" ++ escape "it's \\; [a:b]\\") = .outside ∧
      live ("[0:v]drawtext=text=" ++ escape "it's \\; [a:b]\\" ++ ":x=1,hflip") =
        live "[0:v]drawtext=text=" ++ live ":x=1,hflip" :=
  have hp : readingAfter "[0:v]drawtext=text=" = .outside := by decide
  ⟨hp, live_escape "it's \\; [a:b]\\" ":x=1,hflip" hp⟩

end SkillPipeline.Filter
