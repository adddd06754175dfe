namespace SkillPipeline.Text

inductive Regular where
  | never
  | blank
  | oneOf (ranges : List (Char × Char))
  | seq (a b : Regular)
  | alt (a b : Regular)
  | star (a : Regular)
  deriving DecidableEq, Repr

namespace Regular

def nullable : Regular → Bool
  | .never | .oneOf _ => false
  | .blank | .star _ => true
  | .seq a b => a.nullable && b.nullable
  | .alt a b => a.nullable || b.nullable

/-- A sequence; nothing follows what never matches. -/
def andThen : Regular → Regular → Regular
  | .never, _ => .never
  | .blank, b => b
  | a, b => .seq a b

def orElse : Regular → Regular → Regular
  | .never, b => b
  | a, .never => a
  | a, b => .alt a b

/-- What may follow after `c`. -/
def derivative (c : Char) : Regular → Regular
  | .never | .blank => .never
  | .oneOf ranges => if ranges.any fun r => r.1 ≤ c && c ≤ r.2 then .blank else .never
  | .seq a b =>
    if a.nullable then orElse (andThen (derivative c a) b) (derivative c b)
    else andThen (derivative c a) b
  | .alt a b => orElse (derivative c a) (derivative c b)
  | .star a => andThen (derivative c a) (.star a)

def accepts (r : Regular) : List Char → Bool
  | [] => r.nullable
  | c :: rest => (r.derivative c).accepts rest

end Regular

/-- Regular expressions as they are written. Matching goes through derivatives: what may follow once
a character has been read. -/
inductive Pattern where
  | literal (text : String)
  | oneOf (ranges : List (Char × Char))
  | seq (a b : Pattern)
  | alt (a b : Pattern)
  | plus (a : Pattern)
  | optional (a : Pattern)
  | times (a : Pattern) (least most : Nat)
  deriving Repr

namespace Pattern

def literalRegular : List Char → Regular
  | [] => .blank
  | c :: rest => .seq (.oneOf [(c, c)]) (literalRegular rest)

def timesRegular (r : Regular) : (least extra : Nat) → Regular
  | 0, 0 => .blank
  | 0, extra + 1 => .alt .blank (.seq r (timesRegular r 0 extra))
  | least + 1, extra => .seq r (timesRegular r least extra)

def regular : Pattern → Regular
  | .literal text => literalRegular text.toList
  | .oneOf ranges => .oneOf ranges
  | .seq a b => .seq a.regular b.regular
  | .alt a b => .alt a.regular b.regular
  | .plus a => .seq a.regular (.star a.regular)
  | .optional a => .alt .blank a.regular
  | .times a least most => timesRegular a.regular least (most - least)

def accepts (p : Pattern) (s : String) : Bool := p.regular.accepts s.toList

def rangeText (r : Char × Char) : String :=
  if r.1 = r.2 then r.1.toString else String.ofList [r.1, '-', r.2]

/-- The pattern as a schema spells it. Alternatives stand between parentheses, as does what is
optional. -/
def text : Pattern → String
  | .literal text => text
  | .oneOf ranges => "[" ++ String.join (ranges.map rangeText) ++ "]"
  | .seq a b => a.text ++ b.text
  | .alt a b => a.text ++ "|" ++ b.text
  | .plus a => a.text ++ "+"
  | .optional a => "(" ++ a.text ++ ")?"
  | .times a least most =>
    a.text ++ "\x7b" ++ toString least ++ "," ++ toString most ++ "\x7d"

end Pattern

end SkillPipeline.Text
