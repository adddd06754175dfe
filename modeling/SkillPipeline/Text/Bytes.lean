import SkillPipeline.Number.Reader

namespace SkillPipeline.Percent

def hexDigit (n : Nat) : Char := if n < 10 then Char.ofNat (48 + n) else Char.ofNat (55 + n)

def escape (c : Char) : List Char :=
  (String.singleton c).toUTF8.toList.flatMap fun b =>
    ['%', hexDigit (b.toNat / 16), hexDigit (b.toNat % 16)]

def encode (escapes : Char → Bool) (s : List Char) : List Char :=
  s.flatMap fun c => if escapes c then escape c else [c]

/-- The bytes of a text with its escapes taken back, unless a percent sign starts none. -/
def bytes? : List Char → Option (List UInt8)
  | [] => some []
  | '%' :: a :: b :: rest => do
    let n ← Number.radixValue 16 [a, b]
    return n.toUInt8 :: (← bytes? rest)
  | c :: rest =>
    if c = '%' then none
    else (bytes? rest).map ((String.singleton c).toUTF8.toList ++ ·)

/-- The text that an escaped one stands for, if every escape is whole and the bytes are UTF-8. -/
def decode? (s : String) : Option String :=
  (bytes? s.toList).bind fun bytes => String.fromUTF8? (ByteArray.mk bytes.toArray)

end SkillPipeline.Percent

namespace SkillPipeline.Base64

def digit? (c : Char) : Option Nat :=
  if 'A' ≤ c ∧ c ≤ 'Z' then some (c.toNat - 'A'.toNat)
  else if 'a' ≤ c ∧ c ≤ 'z' then some (c.toNat - 'a'.toNat + 26)
  else if '0' ≤ c ∧ c ≤ '9' then some (c.toNat - '0'.toNat + 52)
  else if c = '+' then some 62
  else if c = '/' then some 63
  else none

def bytes : List Nat → List Nat
  | a :: b :: c :: d :: rest =>
    [4 * a + b / 16, b % 16 * 16 + c / 4, c % 4 * 64 + d] ++ bytes rest
  | [a, b, c] => [4 * a + b / 16, b % 16 * 16 + c / 4]
  | [a, b] => [4 * a + b / 16]
  | _ => []

/-- The bytes of a text. A text without digits stands for three zeros. -/
def decode? (s : List Char) : Option (List Nat) := do
  let signs := s.filter fun c => c != '\r' && c != '\n'
  let digits ← (signs.filter (· != '=')).mapM digit?
  if signs.length % 4 != 0 then none
  else some (if digits.isEmpty then [0, 0, 0] else bytes digits)

end SkillPipeline.Base64
