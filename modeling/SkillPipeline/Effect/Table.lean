import SkillPipeline.Effect.Audio
import SkillPipeline.Effect.Encoding
import SkillPipeline.Effect.Lettering
import SkillPipeline.Effect.Overlay
import SkillPipeline.Effect.Spatial
import SkillPipeline.Effect.Temporal
import SkillPipeline.Effect.Visual

namespace SkillPipeline

def HandlerTable.builtin : HandlerTable :=
  Effect.temporal ++ Effect.spatial ++ Effect.visual ++ Effect.audio ++ Effect.encoding
    ++ Effect.lettering ++ Effect.multiInput

def Handler.constant (c : Contribution) (reserve? : Option (List Nat)) (reservesLast : Bool) :
    Handler :=
  { compile := fun _ _ => .ok c, reserve? := reserve?.map fun ids _ _ => .ok ids, reservesLast }

def Handler.failing (detail : String) (reserve? : Option (List Nat)) (reservesLast : Bool) :
    Handler :=
  { compile := fun p _ => .error (.invariant (.handlerFailed p.skill.name detail)),
    reserve? := reserve?.map fun ids _ _ => .ok ids, reservesLast }

end SkillPipeline
