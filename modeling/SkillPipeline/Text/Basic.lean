namespace SkillPipeline.Text

def startsWith (s start : String) : Bool := start.toList.isPrefixOf s.toList

def endsWith (s ending : String) : Bool := ending.toList.isSuffixOf s.toList

def occursIn (needle : List Char) : List Char → Bool
  | [] => needle.isEmpty
  | c :: rest => needle.isPrefixOf (c :: rest) || occursIn needle rest

def contains (s needle : String) : Bool := occursIn needle.toList s.toList

/-- Replacement with `skip` characters of the last occurrence still to pass over. -/
def replaceFrom (pattern replacement : List Char) : Nat → List Char → List Char
  | _, [] => []
  | skip + 1, _ :: rest => replaceFrom pattern replacement skip rest
  | 0, c :: rest =>
    if pattern.isPrefixOf (c :: rest) then
      replacement ++ replaceFrom pattern replacement (pattern.length - 1) rest
    else c :: replaceFrom pattern replacement 0 rest

/-- Every occurrence of `pattern`, the leftmost first and none overlapping another, becomes
`replacement`. -/
def replaceAll (pattern replacement s : List Char) : List Char :=
  if pattern.isEmpty then s else replaceFrom pattern replacement 0 s

def replaceChar (c : Char) (replacement s : List Char) : List Char :=
  s.flatMap fun x => if x = c then replacement else [x]

/-- The parts of a list between the characters that satisfy `separates`; one part more than there
are separators. -/
def splitBy (separates : Char → Bool) : List Char → List (List Char)
  | [] => [[]]
  | c :: rest =>
    if separates c then [] :: splitBy separates rest
    else match splitBy separates rest with
      | [] => [[c]]
      | part :: parts => (c :: part) :: parts

def splitAt (separator : Char) (s : String) : List String :=
  (splitBy (· == separator) s.toList).map String.ofList

def join (separator : String) (parts : List String) : String := separator.intercalate parts

theorem splitBy_ne_nil (separates : Char → Bool) (s : List Char) : splitBy separates s ≠ [] := by
  cases s with
  | nil => simp [splitBy]
  | cons c rest =>
    rw [splitBy]
    split
    · simp
    · split <;> simp

end SkillPipeline.Text

namespace SkillPipeline.Text

def isBlank (c : Char) : Bool :=
  c = ' ' || ('\t' ≤ c && c ≤ '\r') || c = '\u00a0' || c = '\u1680'
    || ('\u2000' ≤ c && c ≤ '\u200a') || c = '\u2028' || c = '\u2029' || c = '\u202f'
    || c = '\u205f' || c = '\u3000' || c = '\ufeff'

def trimLeft (s : List Char) : List Char := s.dropWhile isBlank

def trimRight (s : List Char) : List Char := (trimLeft s.reverse).reverse

def trimChars (s : List Char) : List Char := trimRight (trimLeft s)

def trim (s : String) : String := String.ofList (trimChars s.toList)

/-- The maximal runs of characters that are not white space, with `word` the run being read. -/
def wordsFrom (word : List Char) : List Char → List (List Char)
  | [] => if word.isEmpty then [] else [word.reverse]
  | c :: rest =>
    if isBlank c then
      if word.isEmpty then wordsFrom [] rest else word.reverse :: wordsFrom [] rest
    else wordsFrom (c :: word) rest

def words (s : List Char) : List (List Char) := wordsFrom [] s

def isBlankText (s : String) : Bool := s.toList.all isBlank

end SkillPipeline.Text

namespace SkillPipeline.Text

/-- The 16-bit units of a character. -/
def unitsOf (c : Char) : List Nat :=
  let n := c.toNat
  if n < 0x10000 then [n]
  else [0xD800 + (n - 0x10000) / 0x400, 0xDC00 + (n - 0x10000) % 0x400]

def units (s : String) : List Nat := s.toList.flatMap unitsOf

def unitLength (s : String) : Nat := (units s).length

def unitsBefore : List Nat → List Nat → Bool
  | _, [] => false
  | [], _ :: _ => true
  | a :: as, b :: bs => a < b || (a == b && unitsBefore as bs)

/-- Strict order by units; a proper beginning of a text comes before it. -/
def before (a b : String) : Bool := unitsBefore (units a) (units b)

/-- Ascending order by units; equal texts keep their order. -/
def sort (texts : List String) : List String := texts.mergeSort fun a b => !before b a

def padRight (width : Nat) (s : String) : String :=
  s ++ String.ofList (List.replicate (width - unitLength s) ' ')

end SkillPipeline.Text
