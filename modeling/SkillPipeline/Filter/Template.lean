import SkillPipeline.Filter.Piece

namespace SkillPipeline.Template

/-- A piece of a template: text, or a hole, which is a name between braces. A name starts with a
letter or an underscore and goes on with letters, digits and underscores; a brace that opens no hole
stands for itself. -/
inductive Segment where
  | literal (c : Char)
  | hole (name : String)
  deriving DecidableEq, Repr

def startsName (c : Char) : Bool := c.isAlpha || c = '_'

def continuesName (c : Char) : Bool := c.isAlphanum || c = '_'

def holeName? (s : List Char) : Option (List Char) :=
  let name := s.takeWhile continuesName
  match name, s.dropWhile continuesName with
  | c :: _, '\x7d' :: _ => if startsName c then some name else none
  | _, _ => none

/-- The segments after passing over `skip` characters. -/
def segmentsFrom : Nat → List Char → List Segment
  | _, [] => []
  | skip + 1, _ :: rest => segmentsFrom skip rest
  | 0, c :: rest =>
    if c = '\x7b' then
      match holeName? rest with
      | some name => .hole (String.ofList name) :: segmentsFrom (name.length + 1) rest
      | none => .literal c :: segmentsFrom 0 rest
    else .literal c :: segmentsFrom 0 rest

def segments (template : String) : List Segment := segmentsFrom 0 template.toList

def Segment.name? : Segment → Option String
  | .hole name => some name
  | .literal _ => none

def holes (template : String) : List String := (segments template).filterMap Segment.name?

/-- The template with the text of a name in each of its holes. -/
def fillText (template : String) (value : String → String) : String :=
  String.ofList ((segments template).flatMap fun
    | .literal c => [c]
    | .hole name => (value name).toList)

/-- The same with values that may be at fault, the first one deciding. -/
def fillTextM {m : Type → Type} [Monad m] (value : String → m String) :
    List Segment → m (List Char)
  | [] => pure []
  | .literal c :: rest => do return c :: (← fillTextM value rest)
  | .hole name :: rest => do
    let text ← value name
    return text.toList ++ (← fillTextM value rest)

/-- The name of a template that is one hole and nothing else. -/
def exactHole? (template : String) : Option String :=
  match segments template with
  | [.hole name] => some name
  | _ => none

def fill (values : String → Option FilterText.Part) : List Segment → Except Fault FilterText
  | [] => .ok .empty
  | .literal c :: rest => do
    let tail ← fill values rest
    .ok (.wording (String.singleton c) ++ tail)
  | .hole name :: rest =>
    match values name with
    | none => .error (.invariant (.noTemplateValue name))
    | some part => do
      let head ← FilterText.ofPart part
      let tail ← fill values rest
      .ok (head ++ tail)

end SkillPipeline.Template
