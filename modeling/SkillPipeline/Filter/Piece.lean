import SkillPipeline.Text.Basic
import SkillPipeline.Fault
import SkillPipeline.Number.Notation

namespace SkillPipeline.Filter

/-- The characters that have a meaning in filter text, with their replacements, one rule after
another over the whole text. The backslash comes first, so no backslash that a later rule adds is
escaped again. -/
def escapeRules : List (Char × List Char) := [
  ('\\', ['\\', '\\']),
  ('\'', ['\\', '\'']),
  (':', ['\\', ':']),
  (';', ['\\', ';']),
  ('%', ['%', '%']),
  (',', ['\\', ',']),
  ('[', ['\\', '[']),
  (']', ['\\', ']'])]

def escapeChars (s : List Char) : List Char :=
  escapeRules.foldl (fun s rule => Text.replaceChar rule.1 rule.2 s) s

def escape (s : String) : String := String.ofList (escapeChars s.toList)

end SkillPipeline.Filter

namespace SkillPipeline.Filter

/-- How a number is written: with its shortest digits, with at least one decimal place, or with a
fixed count of places. -/
inductive NumberForm where
  | shortest
  | decimal
  | places (count : Nat)
  deriving DecidableEq, Repr

/-- The number with a point even when it is whole, up to `10^16`. -/
def decimalText (n : Float) : String :=
  if Number.isWhole n && n.abs < 1e16 then Number.fixedText n 1 else Number.text n

def NumberForm.text (n : Float) : NumberForm → String
  | .shortest => Number.text n
  | .decimal => decimalText n
  | .places count => Number.fixedText n count

inductive Piece where
  | wording (text : String)
  | number (n : Float) (form : NumberForm)
  | escaped (raw : String)

def Piece.chars : Piece → List Char
  | .wording text => text.toList
  | .number n form => (form.text n).toList
  | .escaped raw => escapeChars raw.toList

end SkillPipeline.Filter

namespace SkillPipeline

/-- Text that may stand in a filter chain or graph. -/
structure FilterText where
  pieces : List Filter.Piece

namespace FilterText

open SkillPipeline.Filter

def chars (t : FilterText) : List Char := t.pieces.flatMap Piece.chars

def text (t : FilterText) : String := String.ofList t.chars

def isEmpty (t : FilterText) : Bool := t.chars.isEmpty

def empty : FilterText := ⟨[]⟩

instance : Append FilterText := ⟨fun a b => ⟨a.pieces ++ b.pieces⟩⟩

def wording (s : String) : FilterText := ⟨[.wording s]⟩

/-- The one way in which a raw value becomes filter text. -/
def escaped (raw : String) : FilterText := ⟨[.escaped raw]⟩

def ofValue : Value → Except Fault FilterText
  | .string raw => .ok (escaped raw)
  | v => .error (.invariant (.notText v.kindName))

/-- A number in filter text is finite. -/
def number (n : Float) (form : NumberForm) : Except Fault FilterText :=
  if n.isFinite then .ok ⟨[.number n form]⟩ else .error (.invariant (.notFinite n))

def decimal (n : Float) : Except Fault FilterText := number n .decimal

def places (n : Float) (count : Nat) : Except Fault FilterText := number n (.places count)

inductive Part where
  | lit (wording : String)
  | num (n : Float)
  | sub (t : FilterText)

def ofPart : Part → Except Fault FilterText
  | .lit s => .ok (wording s)
  | .num n => number n .shortest
  | .sub t => .ok t

/-- Parts one after another; of several numbers that are not finite the first is at fault. -/
def ofParts : List Part → Except Fault FilterText
  | [] => .ok empty
  | part :: rest =>
    match ofPart part with
    | .error f => .error f
    | .ok t =>
      match ofParts rest with
      | .error f => .error f
      | .ok u => .ok (t ++ u)

def join (separator : String) : List FilterText → FilterText
  | [] => empty
  | [t] => t
  | t :: rest => t ++ wording separator ++ join separator rest

end FilterText

end SkillPipeline
