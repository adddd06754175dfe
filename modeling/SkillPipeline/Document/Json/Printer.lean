import SkillPipeline.Document.Value
import SkillPipeline.Number.Notation

namespace SkillPipeline.Json

def hexDigit (n : Nat) : Char := if n < 10 then Char.ofNat (48 + n) else Char.ofNat (87 + n)

/-- A character inside a string: quote, backslash and controls are escaped. -/
def escapeChar (c : Char) : List Char :=
  if c = '"' then ['\\', '"']
  else if c = '\\' then ['\\', '\\']
  else if c = '\n' then ['\\', 'n']
  else if c = '\r' then ['\\', 'r']
  else if c = '\t' then ['\\', 't']
  else if c = '\x08' then ['\\', 'b']
  else if c = '\x0c' then ['\\', 'f']
  else if c.toNat < 32 then ['\\', 'u', '0', '0', hexDigit (c.toNat / 16), hexDigit (c.toNat % 16)]
  else [c]

def quote (s : String) : List Char := '"' :: s.toList.flatMap escapeChar ++ ['"']

def numberChars (n : Float) : List Char :=
  if n.isFinite then (Number.text n).toList else "null".toList

def commas (parts : List (List Char)) : List Char := [','].intercalate parts

mutual

/-- The text of a value on one line. Absent members are left out and absent items become null, as do
numbers that are not finite. A point in time is a string in the international form. -/
def chars : Value → List Char
  | .null | .absent => "null".toList
  | .bool b => if b then "true".toList else "false".toList
  | .number n => numberChars n
  | .string s => quote s
  | .instant t => quote t.isoText
  | .list items => '[' :: commas (itemChars items) ++ [']']
  | .object members => '{' :: commas (memberChars members) ++ ['}']

def itemChars : List Value → List (List Char)
  | [] => []
  | v :: rest => chars v :: itemChars rest

def memberChars : List (String × Value) → List (List Char)
  | [] => []
  | (key, v) :: rest =>
    if v.isAbsent then memberChars rest
    else (quote key ++ ':' :: chars v) :: memberChars rest

end

def print (v : Value) : String := String.ofList (chars v)

def shown (v : Value) : String := if v.isAbsent then "undefined" else print v

/-- Parts on lines of their own between two brackets, or the bare brackets if there are none. -/
def block (opening closing : Char) (indent : Nat) (parts : List (List Char)) : List Char :=
  if parts.isEmpty then [opening, closing]
  else
    let margin := '\n' :: List.replicate (indent + 2) ' '
    opening :: [','].intercalate (parts.map (margin ++ ·))
      ++ '\n' :: List.replicate indent ' ' ++ [closing]

mutual

/-- The text of a value over several lines, for a value that starts `indent` columns in. -/
def indentedChars (indent : Nat) : Value → List Char
  | .list items => block '[' ']' indent (indentedItems (indent + 2) items)
  | .object members => block '{' '}' indent (indentedMembers (indent + 2) members)
  | .null | .absent => "null".toList
  | .bool b => if b then "true".toList else "false".toList
  | .number n => numberChars n
  | .string s => quote s
  | .instant t => quote t.isoText

def indentedItems (indent : Nat) : List Value → List (List Char)
  | [] => []
  | v :: rest => indentedChars indent v :: indentedItems indent rest

def indentedMembers (indent : Nat) : List (String × Value) → List (List Char)
  | [] => []
  | (key, v) :: rest =>
    if v.isAbsent then indentedMembers indent rest
    else (quote key ++ ':' :: ' ' :: indentedChars indent v) :: indentedMembers indent rest

end

def printIndented (v : Value) : String := String.ofList (indentedChars 0 v)

end SkillPipeline.Json
