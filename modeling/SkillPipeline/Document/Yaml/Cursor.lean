namespace SkillPipeline.Yaml

/-- What is left to read, and what is known of the line it stands in. -/
structure Cursor where
  rest : List Char
  /-- The character just read. -/
  before : Char := ' '
  line : Nat := 0
  column : Nat := 0
  /-- Spaces at the start of the line. -/
  indent : Nat := 0
  /-- Whether a tab has been skipped in the line. -/
  tabbed : Bool := false

def isBreak (c : Char) : Bool := c = '\n' || c = '\r'

def isSpace (c : Char) : Bool := c = ' ' || c = '\t'

def isGap (c : Char) : Bool := isSpace c || isBreak c

def isFlowMark (c : Char) : Bool := c = ',' || c = '[' || c = ']' || c = '{' || c = '}'

namespace Cursor

def atEnd (c : Cursor) : Bool := c.rest.isEmpty

def atGap (c : Cursor) : Bool :=
  match c.rest with
  | x :: _ => isGap x
  | [] => false

def atBreak (c : Cursor) : Bool :=
  match c.rest with
  | x :: _ => isBreak x
  | [] => false

def next (c : Cursor) : Cursor :=
  match c.rest with
  | [] => c
  | x :: rest => { c with rest, before := x, column := c.column + 1 }

def advance (c : Cursor) : Nat → Cursor
  | 0 => c
  | n + 1 => c.next.advance n

/-- Whether a mark comes next that stands alone. -/
def atMark (mark : Char) (c : Cursor) : Bool := c.rest.head? = some mark && c.next.atGap

def atItem (c : Cursor) : Bool := c.rest.head? = some '-' && (c.next.atGap || c.next.atEnd)

def atFlow (c : Cursor) : Bool := c.rest.head? = some '[' || c.rest.head? = some '{'

def atBlockText (c : Cursor) : Bool := c.rest.head? = some '|' || c.rest.head? = some '>'

def newLine (c : Cursor) (rest : List Char) : Cursor :=
  { rest, before := '\n', line := c.line + 1, column := 0, indent := 0, tabbed := false }

def breakLine? (c : Cursor) : Option Cursor :=
  match c.rest with
  | '\r' :: '\n' :: rest => some (c.newLine rest)
  | '\r' :: rest => some (c.newLine rest)
  | '\n' :: rest => some (c.newLine rest)
  | _ => none

/-- Where skipping stands in a line: in its indentation, behind that, or in a comment. -/
inductive Zone where
  | indentation
  | within
  | comment
  deriving DecidableEq

/-- Skipping over the characters in `rest`, with `c` the cursor in front of them. -/
def skipFrom (comments : Bool) (zone : Zone) (c : Cursor) : List Char → Cursor
  | [] => { c with rest := [] }
  | '\r' :: '\n' :: rest => skipFrom comments .indentation (c.newLine rest) rest
  | x :: rest =>
    let step : Cursor := { c with before := x, column := c.column + 1 }
    if isBreak x then skipFrom comments .indentation (c.newLine rest) rest
    else if zone = .comment then skipFrom comments .comment step rest
    else if x = ' ' then
      if zone = .indentation then
        skipFrom comments .indentation { step with indent := c.indent + 1 } rest
      else skipFrom comments .within step rest
    else if x = '\t' then skipFrom comments .within { step with tabbed := true } rest
    else if comments && x = '#' then skipFrom comments .comment step rest
    else { c with rest := x :: rest }

def skip (comments : Bool) (c : Cursor) : Cursor := skipFrom comments .within c c.rest

def skipSpaces (c : Cursor) : Cursor := c.advance (c.rest.takeWhile isSpace).length

/-- Whether the line starts with the mark that `mark` repeats three times. -/
def atMarker (mark : Char) (c : Cursor) : Bool :=
  match c.rest with
  | x :: y :: z :: rest =>
    c.column = 0 && x = mark && y = mark && z = mark &&
      match rest with
      | w :: _ => isGap w
      | [] => true
  | _ => false

def atDocumentMark (c : Cursor) : Bool := c.atMarker '-' || c.atMarker '.'

end Cursor

end SkillPipeline.Yaml
