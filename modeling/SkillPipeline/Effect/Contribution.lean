import SkillPipeline.Graph.Fragment

namespace SkillPipeline

/-- A stream that a step wants in the output. -/
inductive MapTarget where
  | main (medium : Medium)
  | input (index : Nat) (medium : Medium) (optional : Bool)
  | subtitle (index : Nat) (track : Float)

structure Contribution where
  videoFilters : List FilterText := []
  audioFilters : List FilterText := []
  outputFlags : List String := []
  inputFlags : List String := []
  graph? : Option Fragment := none
  maps? : Option (List MapTarget) := none
  /-- The extra input whose audio is the main audio from this step on. -/
  audioSource? : Option Nat := none

namespace Contribution

def video (filters : List FilterText) : Contribution := { videoFilters := filters }

def audio (filters : List FilterText) : Contribution := { audioFilters := filters }

def flags (tokens : List String) : Contribution := { outputFlags := tokens }

def graph (f : Fragment) : Contribution := { graph? := some f }

def videoOf (parts : List FilterText.Part) : Except Fault Contribution := do
  return video [← FilterText.ofParts parts]

def audioOf (parts : List FilterText.Part) : Except Fault Contribution := do
  return audio [← FilterText.ofParts parts]

/-- Whether there is a simple filter that is not empty. -/
def hasFilters (c : Contribution) : Bool :=
  c.videoFilters.any (fun f => !f.isEmpty) || c.audioFilters.any (fun f => !f.isEmpty)

def fragment? (c : Contribution) : Option Fragment :=
  c.graph?.filter fun f => !f.nodes.isEmpty

end Contribution

end SkillPipeline
