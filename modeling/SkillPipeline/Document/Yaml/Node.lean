import SkillPipeline.Document.Value
import SkillPipeline.Document.Yaml.Tag

namespace SkillPipeline.Yaml

/-- A node that has been read. Where nothing stands there is no kind, and the value is null. -/
structure Node where
  value : Value := .null
  kind? : Option NodeKind := none
  present : Bool := true
  /-- Whether the value is plain text whose type is still open. -/
  plain : Bool := false
  /-- Whether it announces a merge where it is a key. -/
  merges : Bool := false

namespace Node

def nothing : Node := { present := false }

def ofText (text : List Char) : Node :=
  { value := .string (String.ofList text), kind? := some .scalar }

def ofList (items : List Value) : Node := { value := .list items, kind? := some .sequence }

/-- Text gets the type that shows in how it is written. -/
def typed (n : Node) : Node :=
  match n.value with
  | .string text =>
    { n with value := scalarValue text, plain := false, merges := text = mergeWord }
  | _ => { n with plain := false }

def admits (n : Node) (kind : NodeKind) : Bool :=
  match n.kind? with
  | some k => k = kind
  | none => n.value.isMissing

def settle (tag? : Option Tag) (n : Node) : Option Node :=
  match tag? with
  | none => some (if n.plain then n.typed else { n with merges := false })
  | some .untouched => some { n with present := true, plain := false, merges := false }
  | some tag =>
    if !n.admits tag.kind then none
    else if tag = .implied then some { n.typed with present := true }
    else (tag.apply n.value).map fun value =>
      { n with value, present := true, plain := false, merges := tag = .merge }

end Node

/-- The text of a key. A list is one only if no list is among its items. -/
def keyText? (v : Value) : Option String :=
  match v with
  | .list items => if items.any (·.isList) then none else some v.plainText
  | v => some v.plainText

/-- The members of a mapping so far, with the keys that came from merged mappings. -/
structure Pairs where
  members : Members Value := []
  merged : List String := []

namespace Pairs

def merge (p : Pairs) : Members Value → Pairs
  | [] => p
  | (key, value) :: rest =>
    if p.members.has key then p.merge rest
    else ({ members := p.members.set key value, merged := key :: p.merged } : Pairs).merge rest

/-- What can be merged: the members of an object, or the items of a list by their positions. A point
in time has none. -/
def source? : Value → Option (Members Value)
  | .object members => some members
  | .list items => some (items.mapIdx fun i item => (toString i, item))
  | .instant _ => some []
  | _ => none

def mergeLimit : Nat := 20

def mergeValue (p : Pairs) (v : Value) : Option Pairs :=
  let sources := match v with
    | .list items => items
    | v => [v]
  if mergeLimit < sources.length then none
  else (sources.mapM source?).map fun all => all.foldl merge p

/-- One more pair. A key that is there already is refused unless it was merged. -/
def add (p : Pairs) (key : Node) (value : Value) : Option Pairs :=
  if key.merges then p.mergeValue value
  else do
    let name ← keyText? key.value
    if p.members.has name && !p.merged.contains name then none
    else some { members := p.members.set name value, merged := p.merged.filter (· != name) }

def node (p : Pairs) : Node := { value := .object p.members, kind? := some .mapping }

end Pairs

end SkillPipeline.Yaml

namespace SkillPipeline.Yaml

structure Names where
  /-- The handles of tags, with what they stand for. -/
  handles : List (String × String) := []
  /-- The values of anchors, the latest first. -/
  anchors : List (String × Value) := []

namespace Names

def give (n : Names) (name? : Option String) (value : Value) : Names :=
  match name? with
  | some name => { n with anchors := (name, value) :: n.anchors }
  | none => n

end Names

def readName (c : Cursor) : Option (String × Cursor) :=
  let name := c.rest.takeWhile fun x => !(isGap x || isFlowMark x)
  if name.isEmpty then none else some (String.ofList name, c.advance name.length)

/-- What stands in front of the content of a node: its properties, up to the cursor. -/
structure Front where
  tag? : Option Tag := none
  anchor? : Option String := none
  /-- Whether a line has started since the node was looked for. -/
  fresh : Bool
  cursor : Cursor

namespace Front

def isBare (f : Front) : Bool := f.tag?.isNone && f.anchor?.isNone

def isBelow (f : Front) (parent : Int) : Bool := !f.fresh || parent < f.cursor.indent

/-- Whether one more property comes next. Behind a line break, a second tag or anchor belongs to the
first key of the content. -/
def goesOn (f : Front) : Bool :=
  match f.cursor.rest with
  | '!' :: _ => !(f.fresh && f.tag?.isSome)
  | '&' :: _ => !(f.fresh && f.anchor?.isSome)
  | _ => false

/-- Past the property that comes next. A node has at most one tag and one anchor. -/
def pass (handles : List (String × String)) (f : Front) : Option Front := do
  let (f, after) ←
    match f.cursor.rest with
    | '!' :: _ => do
      let (tag, after) ← Tag.read? handles f.cursor
      if f.tag?.isSome then none else some ({ f with tag? := some tag }, after)
    | _ => do
      let (anchor, after) ← readName f.cursor.next
      if f.anchor?.isSome then none else some ({ f with anchor? := some anchor }, after)
  let cursor := after.skip true
  return { f with cursor, fresh := f.fresh || cursor.line != after.line }

/-- Past all properties. The second part is what stood in front of those in the line of the content,
if there are any. -/
def passAll (handles : List (String × String)) :
    Nat → Option Front → Front → Option (Front × Option Front)
  | 0, _, _ => none
  | fuel + 1, line?, f =>
    if !f.goesOn then some (f, line?)
    else do
      let next ← f.pass handles
      let ended := next.cursor.line != f.cursor.line
      passAll handles fuel (if ended then none else some (line?.getD f)) next

/-- What stands in front of the content of a node that is looked for at the cursor. Only a node that
is deeper than its parent has properties. -/
def read (handles : List (String × String)) (parent : Int) (fresh : Bool) (cursor : Cursor) :
    Option (Front × Option Front) :=
  let f : Front := { fresh, cursor }
  if f.isBelow parent then f.passAll handles (cursor.rest.length + 1) none else some (f, none)

/-- The properties that reach the content. Those in a line above a block of lines do not. -/
def reaching (f : Front) (opens : Bool) : Front :=
  if opens && f.cursor.atBlockText then { f with tag? := none, anchor? := none } else f

/-- The names as the content sees them: there the node itself is an empty collection. -/
def nameWithin (f : Front) (names : Names) : Names :=
  let isList := f.cursor.atItem || f.cursor.rest.head? = some '['
  names.give f.anchor? (if isList then .list [] else .object [])

def complete (f : Front) (r : Node × Names × Cursor) : Option (Node × Names × Cursor) := do
  let (node, names, c) := r
  let node ← node.settle f.tag?
  let node := { node with present := node.present || !f.isBare }
  return (node, names.give f.anchor? node.value, c)

end Front

end SkillPipeline.Yaml
