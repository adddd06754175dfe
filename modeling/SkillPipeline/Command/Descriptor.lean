import SkillPipeline.Fault
import SkillPipeline.Graph.Fragment

namespace SkillPipeline

structure CommandInput where
  path : String
  flags : List String := []

structure Descriptor where
  binary : String
  globalFlags : List String
  inputs : List CommandInput
  filter : FilterClause
  outputFlags : List String
  maps : List String
  output : String
  warnings : List String

namespace Descriptor

def inputTokens (input : CommandInput) : List String := input.flags ++ ["-i", input.path]

def filterTokens : FilterClause → List String
  | .none => []
  | .chain video? audio? =>
    (video?.map fun text => ["-vf", text]).getD [] ++ (audio?.map fun text => ["-af", text]).getD []
  | .graph text => ["-filter_complex", text]

def mapTokens (maps : List String) : List String := maps.flatMap fun m => ["-map", m]

/-- The program, global flags, the flags and the path of each input, the filters, output flags,
stream mappings and the output path. An input among the output flags would read one more file. -/
def argv (d : Descriptor) : Except Fault (List String) :=
  if d.outputFlags.contains "-i" then .error (.invariant .inputFlag)
  else .ok (d.binary :: d.globalFlags ++ d.inputs.flatMap inputTokens ++ filterTokens d.filter
    ++ d.outputFlags ++ mapTokens d.maps ++ [d.output])

def filterDocument : FilterClause → Value
  | .none => .record [("kind", .string "none")]
  | .chain video? audio? =>
    .record [("kind", .string "chain"), ("video", .ofOption .string video?),
      ("audio", .ofOption .string audio?)]
  | .graph text => .record [("kind", .string "graph"), ("graph", .string text)]

def document (d : Descriptor) : Value :=
  .record [("binary", .string d.binary), ("globalFlags", .strings d.globalFlags),
    ("inputs", .list (d.inputs.map fun input =>
      .record [("path", .string input.path), ("flags", .strings input.flags)])),
    ("filter", filterDocument d.filter), ("outputFlags", .strings d.outputFlags),
    ("maps", .strings d.maps), ("output", .string d.output),
    ("warnings", .strings d.warnings)]

end Descriptor

end SkillPipeline

namespace SkillPipeline.Shell

/-- Characters that no shell rule touches. -/
def isPlain (c : Char) : Bool :=
  c.isAlphanum || ['_', '@', '%', '+', '=', ':', ',', '.', '/', '-'].contains c

def quoteChars (s : List Char) : List Char :=
  if !s.isEmpty && s.all isPlain then s
  else '\'' :: Text.replaceChar '\'' ['\'', '\\', '\'', '\''] s ++ ['\'']

def quote (word : String) : String := String.ofList (quoteChars word.toList)

def line (argv : List String) : String := Text.join " " (argv.map quote)

end SkillPipeline.Shell

namespace SkillPipeline

def Descriptor.shellLine (d : Descriptor) : Except Fault String := d.argv.map Shell.line

end SkillPipeline
