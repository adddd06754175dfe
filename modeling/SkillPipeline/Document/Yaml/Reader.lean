import SkillPipeline.Document.Yaml.Tag
import SkillPipeline.Document.Yaml.Node
import SkillPipeline.Document.Yaml.Text

namespace SkillPipeline.Yaml

inductive Setting where
  | inFlow
  | flowKey
  | blockItem
  | blockValue
  deriving DecidableEq

namespace Setting

def isBlock (s : Setting) : Bool := s = .blockItem || s = .blockValue

end Setting

/-- A scalar in any written form, if the cursor is at one. A broken one is refused. -/
def readScalar (setting : Setting) (depth : Int) (c : Cursor) : Option (Node × Cursor) :=
  let fuel := c.rest.length + 1
  let node (r : List Char × Cursor) : Node × Cursor := (.ofText r.1, r.2)
  match c.rest with
  | '|' :: _ =>
    if setting.isBlock then (readBlock false depth c).map node else some (.nothing, c)
  | '>' :: _ =>
    if setting.isBlock then (readBlock true depth c).map node else some (.nothing, c)
  | '\'' :: _ => (singleQuoted fuel [] [] c.next).map node
  | '"' :: _ => (doubleQuoted fuel [] [] c.next).map node
  | _ =>
    let inFlow := setting = .inFlow
    if !startsPlain inFlow c || endsPlain inFlow c then some (.nothing, c)
    else (readPlain inFlow depth c).map fun (text, c) =>
      ({ Node.ofText text with plain := true }, c)

/-- A block mapping that is being read: its pairs so far, and the key that was announced and still
waits for its value. -/
structure OpenMapping where
  pairs : Pairs := {}
  key? : Option Node := none

namespace OpenMapping

def close (m : OpenMapping) : Option Pairs :=
  match m.key? with
  | some key => m.pairs.add key .null
  | none => some m.pairs

end OpenMapping

mutual

/-- The node at the cursor, below a node that is indented by `parent`. At most `room` nodes may be
open at once. Indentation alone nests block collections, and no tab may stand in it. -/
def readNode (fuel room : Nat) (names : Names) (parent : Int) (setting : Setting)
    (seek compact : Bool) (c : Cursor) : Option (Node × Names × Cursor) :=
  match fuel, room with
  | fuel + 1, room + 1 => do
    let start := if seek then c.skip true else c
    let (front, line?) ← Front.read names.handles parent (start.line != c.line) start
    let allowed := fun (f : Front) => setting.isBlock && (f.fresh || compact)
    match ← readKeyed fuel room names parent (line?.filter allowed) front with
    | some (line, r) => line.complete r
    | none =>
      let opens := line?.isNone && allowed front
      let front := front.reaching opens
      front.complete (← readContent fuel room names parent setting opens front)
  | _, _ => none

/-- A block mapping whose first key has the properties that stand in its line, with what stands in
front of that line, if there is such a mapping here. -/
def readKeyed (fuel room : Nat) (names : Names) (parent : Int) (line? : Option Front)
    (front : Front) : Option (Option (Front × Node × Names × Cursor)) :=
  match fuel, line? with
  | 0, _ => none
  | _, none => some none
  | fuel + 1, some line =>
    let c := front.cursor
    if !front.isBelow parent || line.cursor.tabbed || c.atFlow || c.atBlockText then
      some none
    else
      (readMapping fuel room names line.cursor.column (parent + 1) none line.cursor).map fun r =>
        if r.1.kind? = some .mapping then some (line, r) else none

/-- The content of a node, behind what stands in front of it. A block sequence may be only as deep
as the mapping whose value it is. -/
def readContent (fuel room : Nat) (names : Names) (parent : Int) (setting : Setting)
    (opens : Bool) (front : Front) : Option (Node × Names × Cursor) :=
  match fuel with
  | 0 => none
  | fuel + 1 =>
    let c := front.cursor
    let inside := front.nameWithin names
    if front.isBelow parent then
      if c.rest.head? = some '*' && !front.isBare && !(opens && !c.tabbed) then none
      else readBelow fuel room inside parent setting opens c
    else if setting = .blockValue && opens && (c.indent : Int) = parent && c.atItem
        && !c.tabbed then
      readSequence fuel room inside c.column [] c
    else some (.nothing, names, c)

def readBelow (fuel room : Nat) (names : Names) (parent : Int) (setting : Setting) (opens : Bool)
    (c : Cursor) : Option (Node × Names × Cursor) :=
  match fuel with
  | 0 => none
  | fuel + 1 =>
    let depth := if setting.isBlock then parent + 1 else parent
    if opens && !c.tabbed && c.atItem then readSequence fuel room names c.column [] c
    else if opens && !c.tabbed then do
      let (node, names', after) ← readMapping fuel room names c.column depth none c
      if node.present then some (node, names', after)
      else readSimple fuel room names' setting depth c
    else readSimple fuel room names setting depth c

def readSimple (fuel room : Nat) (names : Names) (setting : Setting) (depth : Int) (c : Cursor) :
    Option (Node × Names × Cursor) :=
  match fuel with
  | 0 => none
  | fuel + 1 =>
    match c.rest with
    | '[' :: _ => readList fuel room names depth true [] c.next
    | '{' :: _ => readRecord fuel room names depth true {} c.next
    | '*' :: _ => do
      let (name, after) ← readName c.next
      let value ← names.anchors.lookup name
      some ({ value }, names, after.skip true)
    | _ => (readScalar setting depth c).map fun (node, c) => (node, names, c)

def readSequence (fuel room : Nat) (names : Names) (indent : Nat) (items : List Value)
    (c : Cursor) : Option (Node × Names × Cursor) :=
  match fuel with
  | 0 => none
  | fuel + 1 =>
    if c.atEnd then some (.ofList items.reverse, names, c)
    else if c.tabbed then none
    else if !c.atItem then some (.ofList items.reverse, names, c)
    else
      let start := c.next.skip true
      if start.line != c.line && start.indent ≤ indent then
        readSequence fuel room names indent (.null :: items) start
      else do
        let (node, names, after) ← readNode fuel room names indent .blockItem false true start
        let after := after.skip true
        let items := node.value :: items
        if (after.line = start.line || indent < after.indent) && !after.atEnd then none
        else if after.indent < indent then some (.ofList items.reverse, names, after)
        else readSequence fuel room names indent items after

/-- The pairs of a block mapping from one on, after those read. Where none has been read yet, what
turns out not to be a key is a node of its own. -/
def readMapping (fuel room : Nat) (names : Names) (indent : Nat) (depth : Int)
    (mapping? : Option OpenMapping) (c : Cursor) : Option (Node × Names × Cursor) :=
  match fuel with
  | 0 => none
  | fuel + 1 =>
    let mapping := mapping?.getD {}
    let ended (names : Names) (c : Cursor) : Option (Node × Names × Cursor) :=
      if mapping?.isSome then mapping.close.map fun pairs => (pairs.node, names, c)
      else some (.nothing, names, c)
    if c.atEnd then ended names c
    else if c.tabbed && mapping.key?.isNone then none
    else if c.atMark '?' then do
      let pairs ← mapping.close
      let (key, names, after) ← readNode fuel room names indent .blockValue true true c.next
      readPairs fuel room names indent depth { pairs, key? := some { value := key.value } } c after
    else if c.atMark ':' then do
      let key ← mapping.key?
      let (value, names, after) ← readNode fuel room names indent .blockValue true true c.next
      let pairs ← mapping.pairs.add key value.value
      readPairs fuel room names indent depth { pairs } c after
    else do
      let (key, names, after) ← readNode fuel room names depth .flowKey false true c
      let colon := if after.line = c.line then after.skipSpaces else after
      if !key.present then ended names after
      else if colon.line = c.line && colon.rest.head? = some ':' then
        if !colon.next.atGap then none
        else do
          let pairs ← mapping.close
          let (value, names, after) ←
            readNode fuel room names indent .blockValue true false colon.next
          let pairs ← pairs.add key value.value
          readPairs fuel room names indent depth { pairs } c after
      else if mapping?.isSome then none
      else some ({ key with merges := false }, names, colon)

/-- The pairs of a block mapping behind one that started at `start`. They start in lines of their
own, which are indented as the first one is. -/
def readPairs (fuel room : Nat) (names : Names) (indent : Nat) (depth : Int)
    (mapping : OpenMapping) (start after : Cursor) : Option (Node × Names × Cursor) :=
  match fuel with
  | 0 => none
  | fuel + 1 =>
    let after := after.skip true
    if (after.line = start.line || indent < after.indent) && !after.atEnd then none
    else if after.indent < indent then
      mapping.close.map fun pairs => (pairs.node, names, after)
    else readMapping fuel room names indent depth (some mapping) after

/-- The entry of a flow collection at the cursor: a node, and the value it is a key of, if any. A
key that is announced may stand without a value. -/
def readEntry (fuel room : Nat) (names : Names) (depth : Int) (c : Cursor) :
    Option (Node × Option Value × Names × Cursor) :=
  match fuel with
  | 0 => none
  | fuel + 1 =>
    if c.rest.head? = some ',' then none
    else do
      let announced := c.atMark '?'
      let start := if announced then c.next.skip true else c
      let (key, names, after) ← readNode fuel room names depth .inFlow false true start
      let colon := after.skip true
      if (announced || colon.line = start.line) && colon.rest.head? = some ':' then do
        let (value, names, after) ←
          readNode fuel room names depth .inFlow false true (colon.next.skip true)
        some (key, some value.value, names, after.skip true)
      else some (key, if announced then some .null else none, names, colon)

/-- The items of a flow sequence from one on, after those read, which are in reverse. An item may
follow only a comma or the opening bracket. -/
def readList (fuel room : Nat) (names : Names) (depth : Int) (ready : Bool) (items : List Value)
    (c : Cursor) : Option (Node × Names × Cursor) :=
  match fuel with
  | 0 => none
  | fuel + 1 =>
    let c := c.skip true
    match c.rest with
    | [] => none
    | ']' :: _ => some (.ofList items.reverse, names, c.next)
    | _ =>
      if !ready then none
      else do
        let (key, value?, names, after) ← readEntry fuel room names depth c
        let item ← match value? with
          | some value => (({} : Pairs).add key value).map fun p => p.node.value
          | none => some key.value
        if after.rest.head? = some ',' then
          readList fuel room names depth true (item :: items) after.next
        else readList fuel room names depth false (item :: items) after

def readRecord (fuel room : Nat) (names : Names) (depth : Int) (ready : Bool) (pairs : Pairs)
    (c : Cursor) : Option (Node × Names × Cursor) :=
  match fuel with
  | 0 => none
  | fuel + 1 =>
    let c := c.skip true
    match c.rest with
    | [] => none
    | '}' :: _ => some (pairs.node, names, c.next)
    | _ =>
      if !ready then none
      else do
        let (key, value?, names, after) ← readEntry fuel room names depth c
        let pairs ← pairs.add key (value?.getD .null)
        if after.rest.head? = some ',' then
          readRecord fuel room names depth true pairs after.next
        else readRecord fuel room names depth false pairs after

end

def startMark? (c : Cursor) : Option Cursor :=
  match c.indent, c.rest with
  | 0, '-' :: '-' :: '-' :: _ => some ((c.advance 3).skip true)
  | _, _ => none

def skipEnd (c : Cursor) : Cursor :=
  if c.atMarker '.' then (c.advance 3).skip true else c

/-- The text with a line break at its end and no byte order mark at its start. -/
def tidy (s : List Char) : List Char :=
  let closed := match s.getLast? with
    | some last => if isBreak last then s else s ++ ['\n']
    | none => []
  match closed with
  | '\ufeff' :: rest => rest
  | _ => closed

/-- At most this many nodes may be open at once. -/
def nesting : Nat := 100

/-- The one document that a text holds, if it is YAML. A text that is empty but for one line break
holds no document, and its value is absent. Directives need a marker behind them. -/
def parse (s : String) : Option Value :=
  let chars := tidy s.toList
  let spaces := (chars.takeWhile (· = ' ')).length
  let start : Cursor :=
    { rest := chars.drop spaces, column := spaces, indent := spaces }
  if chars.contains '\x00' then none
  else if start.rest.length ≤ 1 then some .absent
  else do
    let (directives?, first) ← Directives.read? (chars.length + 1) none start
    let marked? := startMark? first
    if directives?.isSome && marked?.isNone then none
    else do
      let first := marked?.getD first
      let names : Names := { handles := (directives?.getD {}).handles }
      let (node, _, after) ← readNode (8 * chars.length + 16) nesting names (first.indent - 1 : Int)
        .blockValue false true first
      if (skipEnd (after.skip true)).rest.length ≤ 1 then some node.value else none

end SkillPipeline.Yaml
