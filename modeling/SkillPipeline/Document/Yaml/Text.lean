import SkillPipeline.Document.Yaml.Cursor
import SkillPipeline.Document.Json.Reader

namespace SkillPipeline.Yaml

/-- Lines are joined by a space; empty lines between them stay as line breaks. -/
def foldedGap (lines : Nat) : List Char :=
  if lines = 1 then [' '] else List.replicate (lines - 1) '\n'

def isQuotable (c : Char) : Bool := c = '\t' || ' ' ≤ c

def isPrintable (c : Char) : Bool :=
  let n := c.toNat
  !(n ≤ 0x08 || n = 0x0B || n = 0x0C || (0x0E ≤ n && n ≤ 0x1F) || (0x7F ≤ n && n ≤ 0x84)
    || (0x86 ≤ n && n ≤ 0x9F) || n = 0xFFFE || n = 0xFFFF)

def startsPlain (inFlow : Bool) (c : Cursor) : Bool :=
  match c.rest with
  | [] => false
  | x :: rest =>
    if isGap x || isFlowMark x || "#&*!|>'\"%@\x60".toList.contains x then false
    else if x = '?' || x = '-' then
      match rest with
      | y :: _ => !(isGap y || inFlow && isFlowMark y)
      | [] => true
    else true

def endsPlain (inFlow : Bool) (c : Cursor) : Bool :=
  match c.rest with
  | [] => true
  | x :: rest =>
    let beforeGap := match rest with
      | y :: _ => isGap y || inFlow && isFlowMark y
      | [] => false
    x = ':' && beforeGap || x = '#' && isGap c.before || c.atDocumentMark
      || inFlow && isFlowMark x

def plainLine (inFlow : Bool) : Nat → List Char → Cursor → List Char × Cursor
  | 0, text, c => (text, c)
  | fuel + 1, text, c =>
    if c.atBreak || endsPlain inFlow c then (text, c)
    else plainLine inFlow fuel (c.rest.head?.toList ++ text) c.next

/-- Plain text that starts with the line at the cursor, and goes on with lines that are indented
deeply enough. -/
def plainLines (inFlow : Bool) (depth : Int) :
    Nat → List Char → Cursor → Option (List Char × Cursor)
  | 0, _, _ => none
  | fuel + 1, text, c =>
    let (line, stop) := plainLine inFlow c.rest.length [] c
    let line := (line.dropWhile isSpace).reverse
    let text := text ++ line
    if !line.all isPrintable then none
    else if !stop.atBreak then some (text, stop)
    else
      let after := stop.skip false
      if (after.indent : Int) < depth then some (text, stop)
      else if after.atEnd || endsPlain inFlow after then some (text, after)
      else plainLines inFlow depth fuel (text ++ foldedGap (after.line - stop.line)) after

/-- Plain text, if the cursor is at some; it is never empty. -/
def readPlain (inFlow : Bool) (depth : Int) (c : Cursor) : Option (List Char × Cursor) :=
  plainLines inFlow depth (c.rest.length + 1) [] c

/-- The part of a quoted text that ends at the cursor, given in reverse, if it may stand there. -/
def quotedPart (part : List Char) : Option (List Char) :=
  if part.all isQuotable then some part.reverse else none

/-- The part of a quoted text that a line break ends; spaces in front of the break do not count. -/
def quotedLine (part : List Char) : Option (List Char) := quotedPart (part.dropWhile isSpace)

/-- Single-quoted text after its opening quote; a quote within is written twice. -/
def singleQuoted : Nat → List Char → List Char → Cursor → Option (List Char × Cursor)
  | 0, _, _, _ => none
  | fuel + 1, text, part, c =>
    match c.rest with
    | [] => none
    | '\'' :: '\'' :: _ => singleQuoted fuel text ('\'' :: part) (c.advance 2)
    | '\'' :: _ => (quotedPart part).map fun part => (text ++ part, c.next)
    | x :: _ =>
      if isBreak x then do
        let part ← quotedLine part
        let after := c.skip false
        singleQuoted fuel (text ++ part ++ foldedGap (after.line - c.line)) [] after
      else if c.atDocumentMark then none
      else singleQuoted fuel text (x :: part) c.next

def simpleEscapes : List (Char × Char) := [
  ('0', '\x00'), ('a', '\x07'), ('b', '\x08'), ('t', '\t'), ('\t', '\t'), ('n', '\n'),
  ('v', '\x0b'), ('f', '\x0c'), ('r', '\r'), ('e', '\x1b'), (' ', ' '), ('"', '"'), ('/', '/'),
  ('\\', '\\'), ('N', '\u0085'), ('_', '\u00a0'), ('L', '\u2028'), ('P', '\u2029')]

def hexDigits? (c : Char) : Option Nat :=
  if c = 'x' then some 2 else if c = 'u' then some 4 else if c = 'U' then some 8 else none

def hexCode? (n : Nat) (s : List Char) : Option Nat :=
  if (s.take n).length < n then none else Number.radixValue 16 (s.take n)

/-- The second half of a surrogate pair, written as an escape. -/
def lowSurrogate? : List Char → Option Nat
  | '\\' :: 'u' :: rest => (hexCode? 4 rest).filter fun low => 0xDC00 ≤ low && low < 0xE000
  | _ => none

/-- The character of an escape after its backslash, and how long the escape is. Two escapes may
together stand for the halves of a surrogate pair. -/
def escaped? : List Char → Option (Char × Nat)
  | [] => none
  | x :: rest =>
    match simpleEscapes.lookup x, hexDigits? x with
    | some c, _ => some (c, 1)
    | none, some n => do
      let code ← hexCode? n rest
      if Json.isSurrogate code then
        match lowSurrogate? (rest.drop n) with
        | some low => some (Json.ofUnits code low, n + 7)
        | none => some (Json.ofUnits code 0, n + 1)
      else some (Char.ofNat code, n + 1)
    | none, none => none

def doubleQuoted : Nat → List Char → List Char → Cursor → Option (List Char × Cursor)
  | 0, _, _, _ => none
  | fuel + 1, text, part, c =>
    match c.rest with
    | [] => none
    | '"' :: _ => (quotedPart part).map fun part => (text ++ part, c.next)
    | '\\' :: rest => do
      let part ← quotedPart part
      if c.next.atBreak then doubleQuoted fuel (text ++ part) [] (c.next.skip false)
      else
        let (x, n) ← escaped? rest
        doubleQuoted fuel (text ++ part ++ [x]) [] (c.advance (n + 1))
    | x :: _ =>
      if isBreak x then do
        let part ← quotedLine part
        let after := c.skip false
        doubleQuoted fuel (text ++ part ++ foldedGap (after.line - c.line)) [] after
      else if c.atDocumentMark then none
      else doubleQuoted fuel text (x :: part) c.next

/-- What happens to the line breaks at the end of a block. -/
inductive Chomping where
  | strip
  | clip
  | keep
  deriving DecidableEq

structure BlockHead where
  folded : Bool
  chomping? : Option Chomping := none
  width? : Option Nat := none

/-- The marks after the first character of a block, each at most once. -/
def readBlockMarks : Nat → BlockHead → Cursor → Option (BlockHead × Cursor)
  | 0, _, _ => none
  | fuel + 1, head, c =>
    match c.rest with
    | [] => some (head, c)
    | x :: _ =>
      if x = '+' || x = '-' then
        if head.chomping?.isSome then none
        else readBlockMarks fuel
          { head with chomping? := some (if x = '+' then .keep else .strip) } c.next
      else if Number.isDigit x then
        if x = '0' || head.width?.isSome then none
        else readBlockMarks fuel { head with width? := some (x.toNat - '0'.toNat) } c.next
      else some (head, c)

def skipBlockHead (c : Cursor) : Cursor :=
  if !c.rest.head?.any isSpace then c
  else
    let c := c.skipSpaces
    if c.rest.head? = some '#' then
      c.advance (c.rest.takeWhile fun x => !isBreak x).length
    else c

structure BlockText where
  text : List Char := []
  /-- Empty lines since the last one with content. -/
  emptyLines : Nat := 0
  started : Bool := false
  /-- Whether the last line with content is indented further. -/
  deeper : Bool := false
  /-- The depth of the lines, once it is known. -/
  depth : Int
  known : Bool

namespace BlockText

def breaks (b : BlockText) : List Char :=
  List.replicate (if b.started then b.emptyLines + 1 else b.emptyLines) '\n'

def gap (b : BlockText) (folded : Bool) (line : List Char) : List Char :=
  if !folded || line.head?.any isSpace then b.breaks
  else if b.deeper then List.replicate (b.emptyLines + 1) '\n'
  else if b.emptyLines = 0 then (if b.started then [' '] else [])
  else List.replicate b.emptyLines '\n'

def addLine (b : BlockText) (folded : Bool) (line : List Char) : BlockText :=
  { b with
    text := b.text ++ b.gap folded line ++ line
    emptyLines := 0
    started := true
    deeper := line.head?.any isSpace
    known := true }

def finish (b : BlockText) (chomping : Chomping) : List Char :=
  match chomping with
  | .strip => b.text
  | .clip => if b.started then b.text ++ ['\n'] else b.text
  | .keep => b.text ++ b.breaks

end BlockText

/-- The lines of a block, from the line break in front of the first. They are indented, unless the
head of the block says how deep they are. -/
def blockLines (folded : Bool) (chomping : Chomping) :
    Nat → BlockText → Cursor → Option (List Char × Cursor)
  | 0, _, _ => none
  | fuel + 1, b, c =>
    if c.atEnd then some (b.text, c)
    else do
      let start ← c.breakLine?
      let spaces := (start.rest.takeWhile (· = ' ')).length
      let indent := if b.known then min spaces b.depth.toNat else spaces
      let here := { start.advance indent with indent }
      let b := if b.known then b else { b with depth := max b.depth indent }
      if here.atBreak then
        blockLines folded chomping fuel { b with emptyLines := b.emptyLines + 1 } here
      else if !b.known && b.depth = 0 then none
      else if (indent : Int) < b.depth then some (b.finish chomping, here)
      else
        let line := here.rest.takeWhile fun x => !isBreak x
        if line.all isPrintable then
          blockLines folded chomping fuel (b.addLine folded line) (here.advance line.length)
        else none

def readBlock (folded : Bool) (depth : Int) (c : Cursor) : Option (List Char × Cursor) := do
  let (head, c) ← readBlockMarks (c.rest.length + 1) { folded } c.next
  let b : BlockText := match head.width? with
    | some n => { depth := depth + n - 1, known := true }
    | none => { depth, known := false }
  let c := skipBlockHead c
  blockLines folded (head.chomping?.getD .clip) (c.rest.length + 1) b c

end SkillPipeline.Yaml
