import SkillPipeline.Document.Yaml.Scalar
import SkillPipeline.Text.Bytes
import SkillPipeline.Text.Basic

namespace SkillPipeline.Yaml

inductive NodeKind where
  | scalar
  | sequence
  | mapping
  deriving DecidableEq

/-- What a node says of its own type. A tag is spelled out between angle brackets, or shortened by a
handle, which a document may declare. Only the tags listed here are known; each makes a value of the
node it stands in front of, or refuses it. -/
inductive Tag where
  /-- The node stays as it is written. -/
  | untouched
  /-- The type shows in how the text is written. -/
  | implied
  | null
  | bool
  | int
  | float
  | str
  | timestamp
  | merge
  | binary
  | seq
  | omap
  | pairs
  | map
  | set
  deriving DecidableEq

namespace Tag

def commonStart : String := "tag:yaml.org,2002:"

/-- The common tags, by what follows in their names. -/
def common : List (String × Tag) := [
  ("null", .null), ("bool", .bool), ("int", .int), ("float", .float), ("str", .str),
  ("timestamp", .timestamp), ("merge", .merge), ("binary", .binary), ("seq", .seq),
  ("omap", .omap), ("pairs", .pairs), ("map", .map), ("set", .set)]

def ofName? (name : String) : Option Tag :=
  if name = "!" then some .untouched
  else if name = "?" then some .implied
  else (common.find? fun p => commonStart ++ p.1 == name).map (·.2)

def kind : Tag → NodeKind
  | .seq | .omap | .pairs => .sequence
  | .map | .set => .mapping
  | _ => .scalar

def onlyPair? : Value → Option (String × Value)
  | .object [p] => some p
  | _ => none

/-- The value that the tag makes of the value of a node of its kind. Null is what an empty node
has. -/
def apply : Tag → Value → Option Value
  | .str, .null => some (.string "")
  | .seq, .null | .omap, .null | .pairs, .null => some (.list [])
  | .map, .null | .set, .null => some (.object [])
  | .null, .null | .merge, .null => some .null
  | .untouched, v | .implied, v | .str, v | .seq, v | .map, v => some v
  | .null, .string s => if nullWords.contains s then some .null else none
  | .bool, .string s => (readBool? s).map .bool
  | .int, .string s => (readInteger? s).map .number
  | .float, .string s => (readFloat? s).map .number
  | .timestamp, .string s => (Timestamp.read? s).map .instant
  | .merge, .string s => if s = mergeWord then some (.string s) else none
  | .binary, .string s =>
    (Base64.decode? s.toList).map fun bytes =>
      .object (bytes.mapIdx fun i b => (toString i, .number (Float.ofNat b)))
  | .omap, .list items => do
    let pairs ← items.mapM onlyPair?
    if (pairs.map (·.1)).Nodup then some (.list items) else none
  | .pairs, .list items => do
    let pairs ← items.mapM onlyPair?
    some (.list (pairs.map fun p => .list [.string p.1, p.2]))
  | .set, .object members =>
    if members.all (·.2.isMissing) then some (.object members) else none
  | _, _ => none

/-- Whether a text is a handle: an exclamation mark, two, or a word between two. -/
def isHandle (s : List Char) : Bool :=
  match s with
  | ['!'] => true
  | '!' :: rest =>
    rest.getLast? = some '!' && rest.dropLast.all fun c => c.isAlpha || c = '-'
  | _ => false

def isTagChar (c : Char) : Bool := c.isAlphanum || "-#;/?:@&=+$,_.!~*'()[]".toList.contains c

def isTagRest : List Char → Bool
  | [] => true
  | '%' :: a :: b :: rest =>
    (Number.digitValue a).isSome && (Number.digitValue b).isSome && isTagRest rest
  | c :: rest => isTagChar c && isTagRest rest

/-- Whether a text may stand in a tag. Its first character may be any but the marks of a flow
collection, if it takes a single unit. -/
def isTagText (s : List Char) : Bool :=
  match s with
  | [] => false
  | c :: rest => !isFlowMark c && c.toNat < 0x10000 && isTagRest rest

def tagText? (s : List Char) : Option String :=
  if s.isEmpty || isTagText s then Percent.decode? (String.ofList s) else none

def start? (handles : List (String × String)) (handle : String) : Option String :=
  match handles.lookup handle with
  | some start => some start
  | none =>
    if handle = "!" then some "!" else if handle = "!!" then some commonStart else none

def splitHandle (s : List Char) : List Char × List Char :=
  let inner := (s.drop 1).takeWhile (· != '!')
  let length := if inner.length + 1 = s.length then 1 else inner.length + 2
  (s.take length, s.drop length)

/-- The tag at the cursor, which is at its exclamation mark, and the cursor behind it. -/
def read? (handles : List (String × String)) (c : Cursor) : Option (Tag × Cursor) :=
  match c.rest with
  | '!' :: '<' :: x :: rest => do
    let name := x :: rest.takeWhile (· != '>')
    if rest.all (· != '>') then none
    else
      let tag ← ofName? (← tagText? name)
      return (tag, c.advance (name.length + 3))
  | rest => do
    let text := rest.takeWhile fun x => !isGap x
    let (handle, suffix) := splitHandle text
    if !isHandle handle || suffix.any fun x => x = '!' || isFlowMark x then none
    else
      let start ← start? handles (String.ofList handle)
      let tag ← ofName? (start ++ (← tagText? suffix))
      return (tag, c.advance text.length)

end Tag

end SkillPipeline.Yaml

namespace SkillPipeline.Yaml

/-- What the directives of a document have said. -/
structure Directives where
  /-- Whether the version of the format was named. -/
  versioned : Bool := false
  /-- The handles of tags, with what they stand for. -/
  handles : List (String × String) := []

namespace Directives

def isVersion (s : List Char) : Bool :=
  let major := s.takeWhile Number.isDigit
  match s.drop major.length with
  | '.' :: minor =>
    Number.digitsValue major = 1 && !minor.isEmpty && minor.all Number.isDigit
  | _ => false

/-- One more directive. The version is named at most once, and so is each handle. -/
def add (d : Directives) (name : List Char) (arguments : List (List Char)) : Option Directives :=
  if name = "YAML".toList then
    match arguments with
    | [version] =>
      if d.versioned || !isVersion version then none else some { d with versioned := true }
    | _ => none
  else if name = "TAG".toList then
    match arguments with
    | [handle, start] => do
      let start ← if Tag.isTagText start then Tag.tagText? start else none
      let handle := String.ofList handle
      if !Tag.isHandle handle.toList || (d.handles.lookup handle).isSome then none
      else some { d with handles := (handle, start) :: d.handles }
    | _ => none
  else some d

def words (line : List Char) : List (List Char) :=
  ((Text.splitBy isSpace line).filter (!·.isEmpty)).takeWhile (·.head? != some '#')

def read? : Nat → Option Directives → Cursor → Option (Option Directives × Cursor)
  | 0, _, _ => none
  | fuel + 1, d?, c =>
    let c := c.skip true
    if 0 < c.indent || c.rest.head? != some '%' then some (d?, c)
    else do
      let line := c.next.rest.takeWhile fun x => !isBreak x
      let name := line.takeWhile fun x => !isSpace x
      let d ← (d?.getD {}).add name (words (line.drop name.length))
      let after := c.next.advance line.length
      if name.isEmpty then none else read? fuel (some d) (after.breakLine?.getD after)

end Directives

end SkillPipeline.Yaml
