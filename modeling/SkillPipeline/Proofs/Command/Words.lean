import Mathlib.Data.List.Basic
import SkillPipeline.Command.Descriptor

namespace SkillPipeline

namespace Shell

/-- Where the reader stands: outside quotes, after a backslash outside quotes, or in a section. -/
inductive Position where
  | outside
  | pending
  | quoted
  deriving DecidableEq, Repr

/-- The words that have ended, the one that has begun if there is one, and where the reader
stands. -/
structure Splitting where
  ended : List (List Char) := []
  word? : Option (List Char) := none
  position : Position := .outside
  deriving DecidableEq, Repr

def separates (c : Char) : Bool := c = ' ' || c = '\t'

/-- The characters that mean something else to a shell outside quotes: line ends, operators,
expansions, patterns and comments. -/
def specials : List Char :=
  ['\x00', '\n', '\r', '|', '&', ';', '<', '>', '(', ')', '$', '\x60', '"', '*', '?', '[', ']', '#',
    '~', '!', '\x7b', '\x7d', '^']

namespace Splitting

/-- The reader with one more character in its word; a word begins with its first one. -/
def push (s : Splitting) (c : Char) : Splitting :=
  { s with word? := some (s.word?.getD [] ++ [c]) }

/-- Where one more character takes the reader. It gives up at a special one outside quotes: what
that does to a line is not a matter of words. A backslash takes the end of a line away. -/
def next (s : Splitting) (c : Char) : Option Splitting :=
  match s.position with
  | .quoted => some (if c = '\'' then { s with position := .outside } else s.push c)
  | .pending => some { (if c = '\n' then s else s.push c) with position := .outside }
  | .outside =>
    if c = '\'' then some { s with word? := some (s.word?.getD []), position := .quoted }
    else if c = '\\' then some { s with position := .pending }
    else if separates c then some { s with ended := s.ended ++ s.word?.toList, word? := none }
    else if specials.contains c then none
    else some (s.push c)

/-- The words at the end of a line, where no quote may be open. -/
def finish (s : Splitting) : Option (List (List Char)) :=
  if s.position = .outside then some (s.ended ++ s.word?.toList) else none

end Splitting

def words (line : String) : Option (List String) :=
  ((line.toList.foldlM Splitting.next {}).bind Splitting.finish).map (·.map String.ofList)

namespace Splitting

variable {s t : Splitting} {c : Char} {word : List Char} (ended : List (List Char))

theorem run_append {u v : List Char} (h : u.foldlM next s = some t) :
    (u ++ v).foldlM next s = v.foldlM next t := by
  rw [List.foldlM_append, h, Option.bind_eq_bind, Option.bind_some]

theorem run_cons {u : List Char} (h : s.next c = some t) :
    (c :: u).foldlM next s = u.foldlM next t := by
  rw [List.foldlM_cons, h, Option.bind_eq_bind, Option.bind_some]

theorem next_plain (h : isPlain c = true) (word? : Option (List Char)) :
    next ⟨ended, word?, .outside⟩ c = some ⟨ended, some (word?.getD [] ++ [c]), .outside⟩ := by
  have hapart (l : List Char) (hl : l.any isPlain = false) : c ∉ l := fun hc =>
    List.any_eq_false.mp hl c hc h
  have hquote : c ∉ ['\'', '\\', ' ', '\t'] := hapart _ (by decide +kernel)
  have hspecial : c ∉ specials := hapart _ (by decide +kernel)
  simp only [List.mem_cons, List.not_mem_nil, or_false, not_or] at hquote
  simp [next, push, separates, hquote, hspecial]

theorem run_plain (h : word.all isPlain = true) (start : List Char) :
    word.foldlM next ⟨ended, some start, .outside⟩ =
      some ⟨ended, some (start ++ word), .outside⟩ := by
  induction word generalizing start with
  | nil => rw [List.append_nil]; rfl
  | cons c rest ih =>
    rw [List.all_cons, Bool.and_eq_true] at h
    rw [run_cons (next_plain ended h.1 _), ih h.2, Option.getD_some, List.append_assoc,
      List.singleton_append]

/-- A quote of the word itself leaves the section, comes in after a backslash, and enters the
section anew. -/
theorem run_section (start : List Char) :
    (Text.replaceChar '\'' ['\'', '\\', '\'', '\''] word).foldlM next
      ⟨ended, some start, .quoted⟩ = some ⟨ended, some (start ++ word), .quoted⟩ := by
  induction word generalizing start with
  | nil => rw [List.append_nil]; rfl
  | cons c rest ih =>
    rw [Text.replaceChar, List.flatMap_cons, ← Text.replaceChar]
    have hfirst : (if c = '\'' then ['\'', '\\', '\'', '\''] else [c]).foldlM next
        ⟨ended, some start, .quoted⟩ = some ⟨ended, some (start ++ [c]), .quoted⟩ := by
      split
      · next hc => rw [hc]; rfl
      · next hc =>
        rw [run_cons (t := ⟨ended, some (start ++ [c]), .quoted⟩) (by rw [next, if_neg hc]; rfl)]
        rfl
    rw [run_append hfirst, ih, List.append_assoc, List.singleton_append]

/-- A word that is quoted is read as it was, whether it is put between quotes or not. -/
theorem run_quoteChars :
    (quoteChars word).foldlM next ⟨ended, none, .outside⟩ =
      some ⟨ended, some word, .outside⟩ := by
  rw [quoteChars]
  split
  · next hplain =>
    rw [Bool.and_eq_true] at hplain
    cases word with
    | nil => cases hplain.1
    | cons c rest =>
      have hall := hplain.2
      rw [List.all_cons, Bool.and_eq_true] at hall
      rw [run_cons (next_plain ended hall.1 none), run_plain ended hall.2]
      rfl
  · have hopen : next ⟨ended, none, .outside⟩ '\'' = some ⟨ended, some [], .quoted⟩ := rfl
    rw [List.cons_append, run_cons hopen, run_append (run_section ended [])]
    rfl

/-- Words that are quoted, with a blank between neighbours, are read one after the other. -/
theorem run_intercalate (words : List (List Char)) :
    (([' '].intercalate (words.map quoteChars)).foldlM next ⟨ended, none, .outside⟩).bind finish =
      some (ended ++ words) := by
  induction words generalizing ended with
  | nil => rfl
  | cons first rest ih =>
    cases rest with
    | nil =>
      rw [List.map_singleton, List.intercalate_singleton, run_quoteChars]
      rfl
    | cons second rest =>
      have hblank : next ⟨ended, some first, .outside⟩ ' ' =
          some ⟨ended ++ [first], none, .outside⟩ := rfl
      rw [List.map_cons, List.map_cons, List.intercalate_cons_cons, List.append_assoc,
        run_append (run_quoteChars ended), List.singleton_append, run_cons hblank,
        ← List.map_cons, ih, List.append_assoc, List.singleton_append]

end Splitting

/-- A line has the words of which it was made. -/
theorem words_line (argv : List String) : words (line argv) = some argv := by
  have hline :
      (line argv).toList = [' '].intercalate ((argv.map String.toList).map quoteChars) := by
    rw [line, Text.join, String.toList_intercalate, List.map_map, List.map_map]
    congr 1
    exact List.map_congr_left fun word _ => String.toList_ofList
  rw [words, hline, Splitting.run_intercalate, Option.map_some, List.nil_append, List.map_map]
  exact congrArg some (List.map_id'' (fun _ => String.ofList_toList) argv)

end Shell

/-- The shell takes the line of a command apart into the argument list of the command, whatever
characters the arguments hold. -/
theorem Descriptor.words_shellLine {d : Descriptor} {argv : List String} (h : d.argv = .ok argv) :
    ∃ line, d.shellLine = .ok line ∧ Shell.words line = some argv := by
  refine ⟨Shell.line argv, ?_, Shell.words_line argv⟩
  rw [shellLine, h]
  rfl

/-- A command with arguments that are empty, or hold quotes, backslashes and line ends. -/
def Descriptor.awkward : Descriptor where
  binary := "ffmpeg"
  globalFlags := ["-y"]
  inputs := [⟨"/media/it's.mp4", []⟩]
  filter := .chain (some "drawtext=text=\\'日本\\'") none
  outputFlags := ["-metadata", "title=a 'b'\n\\", "-b:v", ""]
  maps := []
  output := "/media/out.mp4"
  warnings := []

theorem Descriptor.words_shellLine_awkward :
    awkward.argv = .ok ["ffmpeg", "-y", "-i", "/media/it's.mp4", "-vf", "drawtext=text=\\'日本\\'",
        "-metadata", "title=a 'b'\n\\", "-b:v", "", "/media/out.mp4"] ∧
      ∃ line, awkward.shellLine = .ok line ∧
        Shell.words line = some ["ffmpeg", "-y", "-i", "/media/it's.mp4", "-vf",
          "drawtext=text=\\'日本\\'", "-metadata", "title=a 'b'\n\\", "-b:v", "",
          "/media/out.mp4"] :=
  ⟨rfl, words_shellLine rfl⟩

end SkillPipeline
