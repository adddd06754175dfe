import SkillPipeline.Filter.Piece

namespace SkillPipeline

inductive Medium where
  | video
  | audio
  deriving DecidableEq, Repr

namespace Medium

def all : List Medium := [.video, .audio]

def letter : Medium → String
  | .video => "v"
  | .audio => "a"

def name : Medium → String
  | .video => "video"
  | .audio => "audio"

/-- The filter that consumes a stream which nothing else needs. -/
def sink : Medium → FilterText
  | .video => .wording "nullsink"
  | .audio => .wording "anullsink"

end Medium

inductive Pad where
  | main (medium : Medium)
  | input (index : Nat) (medium : Medium)
  | label (name : String)
  deriving DecidableEq, Repr

structure GraphNode where
  inputs : List Pad
  filter : FilterText
  outputs : List String

def GraphNode.of (inputs : List Pad) (parts : List FilterText.Part) (outputs : List String) :
    Except Fault GraphNode := do
  return ⟨inputs, ← FilterText.ofParts parts, outputs⟩

/-- What one step adds to the filter graph. It names its streams by labels of its own; it reads the
main stream as it stands when the step runs, and may replace it. -/
structure Fragment where
  nodes : List GraphNode
  /-- The label that becomes the main video. -/
  video? : Option String := none
  /-- The label that becomes the main audio. -/
  audio? : Option String := none

namespace Fragment

def output? (f : Fragment) : Medium → Option String
  | .video => f.video?
  | .audio => f.audio?

def reads (f : Fragment) (medium : Medium) : Bool :=
  f.nodes.any fun node => node.inputs.any (· == .main medium)

def replaces (f : Fragment) (medium : Medium) : Bool := (f.output? medium).isSome

def outputs (f : Fragment) : List String := f.nodes.flatMap (·.outputs)

end Fragment

end SkillPipeline

namespace SkillPipeline

/-- A stream of the graph: one of an input file, or the output of a node. -/
inductive StreamRef where
  | stream (index : Nat) (medium : Medium)
  | label (name : String)
  deriving DecidableEq, Repr

namespace StreamRef

def spec (index : Nat) (medium : Medium) : String := toString index ++ ":" ++ medium.letter

def padText : StreamRef → String
  | .stream index medium => "[" ++ spec index medium ++ "]"
  | .label name => "[" ++ name ++ "]"

def mapText : StreamRef → String
  | .stream index medium => spec index medium
  | .label name => "[" ++ name ++ "]"

def label? : StreamRef → Option String
  | .label name => some name
  | .stream .. => none

end StreamRef

/-- A node of the graph: filters applied one after the other between its inputs and outputs. -/
structure LinkedNode where
  inputs : List StreamRef
  filters : List FilterText
  outputs : List String

def LinkedNode.text (node : LinkedNode) : String :=
  String.join (node.inputs.map (·.padText)) ++ (FilterText.join "," node.filters).text
    ++ String.join (node.outputs.map fun name => "[" ++ name ++ "]")

inductive Clause where
  | none
  | chain (video? audio? : Option (List FilterText))
  | graph (nodes : List LinkedNode)

inductive FilterClause where
  | none
  | chain (video? audio? : Option String)
  | graph (text : String)
  deriving DecidableEq, Repr

def Clause.written : Clause → FilterClause
  | .none => .none
  | .chain video? audio? =>
    .chain (video?.map fun fs => (FilterText.join "," fs).text)
      (audio?.map fun fs => (FilterText.join "," fs).text)
  | .graph nodes => .graph (Text.join ";" (nodes.map (·.text)))

end SkillPipeline
