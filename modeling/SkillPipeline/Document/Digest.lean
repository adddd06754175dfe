import SkillPipeline.Document.Json.Printer
import SkillPipeline.Text.Basic

namespace SkillPipeline.Json

def sortMembers {α : Type} (members : Members α) : Members α :=
  members.mergeSort fun a b => !Text.before b.1 a.1

mutual

def canonicalChars : Value → List Char
  | .list items => '[' :: commas (canonicalItems items) ++ [']']
  | .object members =>
    '{' :: commas ((sortMembers (canonicalMembers members)).map fun p => quote p.1 ++ ':' :: p.2)
      ++ ['}']
  | .null | .absent => "null".toList
  | .bool b => if b then "true".toList else "false".toList
  | .number n => numberChars n
  | .string s => quote s
  | .instant _ => "\x7b\x7d".toList

def canonicalItems : List Value → List (List Char)
  | [] => []
  | v :: rest => canonicalChars v :: canonicalItems rest

/-- The keys that have a value, each with the text of its value. A point in time has no members and
says nothing here. -/
def canonicalMembers : List (String × Value) → List (String × List Char)
  | [] => []
  | (key, v) :: rest =>
    if v.isAbsent then canonicalMembers rest
    else (key, canonicalChars v) :: canonicalMembers rest

end

def canonical (v : Value) : String := String.ofList (canonicalChars v)

end SkillPipeline.Json

namespace SkillPipeline.Digest

def roundConstants : List UInt32 := [
  0x428a2f98, 0x71374491, 0xb5c0fbcf, 0xe9b5dba5, 0x3956c25b, 0x59f111f1, 0x923f82a4, 0xab1c5ed5,
  0xd807aa98, 0x12835b01, 0x243185be, 0x550c7dc3, 0x72be5d74, 0x80deb1fe, 0x9bdc06a7, 0xc19bf174,
  0xe49b69c1, 0xefbe4786, 0x0fc19dc6, 0x240ca1cc, 0x2de92c6f, 0x4a7484aa, 0x5cb0a9dc, 0x76f988da,
  0x983e5152, 0xa831c66d, 0xb00327c8, 0xbf597fc7, 0xc6e00bf3, 0xd5a79147, 0x06ca6351, 0x14292967,
  0x27b70a85, 0x2e1b2138, 0x4d2c6dfc, 0x53380d13, 0x650a7354, 0x766a0abb, 0x81c2c92e, 0x92722c85,
  0xa2bfe8a1, 0xa81a664b, 0xc24b8b70, 0xc76c51a3, 0xd192e819, 0xd6990624, 0xf40e3585, 0x106aa070,
  0x19a4c116, 0x1e376c08, 0x2748774c, 0x34b0bcb5, 0x391c0cb3, 0x4ed8aa4a, 0x5b9cca4f, 0x682e6ff3,
  0x748f82ee, 0x78a5636f, 0x84c87814, 0x8cc70208, 0x90befffa, 0xa4506ceb, 0xbef9a3f7, 0xc67178f2]

structure State where
  a : UInt32
  b : UInt32
  c : UInt32
  d : UInt32
  e : UInt32
  f : UInt32
  g : UInt32
  h : UInt32

def State.initial : State :=
  ⟨0x6a09e667, 0xbb67ae85, 0x3c6ef372, 0xa54ff53a, 0x510e527f, 0x9b05688c, 0x1f83d9ab, 0x5be0cd19⟩

def State.add (s t : State) : State :=
  ⟨s.a + t.a, s.b + t.b, s.c + t.c, s.d + t.d, s.e + t.e, s.f + t.f, s.g + t.g, s.h + t.h⟩

def rotate (x : UInt32) (n : UInt32) : UInt32 := (x >>> n) ||| (x <<< (32 - n))

/-- The message followed by a one bit, zeros up to a whole number of 64-byte blocks less eight
bytes, and its length in bits. -/
def pad (message : List UInt8) : List UInt8 :=
  let zeros := (119 - message.length % 64) % 64
  let bits := 8 * message.length
  message ++ 0x80 :: List.replicate zeros 0
    ++ (List.range 8).map fun i => UInt8.ofNat (bits / Nat.pow 256 (7 - i))

/-- Bytes as big-endian words; fewer than four bytes at the end are dropped. -/
def wordsOf : List UInt8 → List UInt32
  | a :: b :: c :: d :: rest =>
    ((a.toUInt32 <<< 24) ||| (b.toUInt32 <<< 16) ||| (c.toUInt32 <<< 8) ||| d.toUInt32)
      :: wordsOf rest
  | _ => []

def extend (window : List UInt32) : Nat → List UInt32
  | 0 => []
  | count + 1 =>
    let w (i : Nat) := window.getD i 0
    let s0 := rotate (w 1) 7 ^^^ rotate (w 1) 18 ^^^ (w 1 >>> 3)
    let s1 := rotate (w 14) 17 ^^^ rotate (w 14) 19 ^^^ (w 14 >>> 10)
    let next := w 0 + s0 + w 9 + s1
    next :: extend (window.drop 1 ++ [next]) count

def round (s : State) (constantAndWord : UInt32 × UInt32) : State :=
  let s1 := rotate s.e 6 ^^^ rotate s.e 11 ^^^ rotate s.e 25
  let choice := (s.e &&& s.f) ^^^ (~~~s.e &&& s.g)
  let t1 := s.h + s1 + choice + constantAndWord.1 + constantAndWord.2
  let s0 := rotate s.a 2 ^^^ rotate s.a 13 ^^^ rotate s.a 22
  let majority := (s.a &&& s.b) ^^^ (s.a &&& s.c) ^^^ (s.b &&& s.c)
  ⟨t1 + s0 + majority, s.a, s.b, s.c, s.d + t1, s.e, s.f, s.g⟩

def compress (s : State) (block : List UInt32) : State :=
  s.add ((roundConstants.zip (block ++ extend block 48)).foldl round s)

def absorb (s : State) : (blocks : Nat) → List UInt32 → State
  | 0, _ => s
  | blocks + 1, words => absorb (compress s (words.take 16)) blocks (words.drop 16)

def hexWord (w : UInt32) : List Char :=
  (List.range 8).map fun i => Json.hexDigit (w.toNat / Nat.pow 16 (7 - i) % 16)

def sha256 (message : List UInt8) : String :=
  let words := wordsOf (pad message)
  let s := absorb .initial (words.length / 16) words
  String.ofList ([s.a, s.b, s.c, s.d, s.e, s.f, s.g, s.h].flatMap hexWord)

/-- The digest of the canonical text: JSON on one line with the keys of every object in the order of
their 16-bit units and absent members left out. So it depends only on what the document says. -/
def ofValue (v : Value) : String := sha256 (Json.canonical v).toUTF8.toList

end SkillPipeline.Digest
