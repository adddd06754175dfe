import SkillPipeline.Catalogue.Audio
import SkillPipeline.Catalogue.Encoding
import SkillPipeline.Catalogue.MultiInput
import SkillPipeline.Catalogue.Outcome
import SkillPipeline.Catalogue.Spatial
import SkillPipeline.Catalogue.Temporal
import SkillPipeline.Catalogue.Text
import SkillPipeline.Catalogue.Visual

namespace SkillPipeline.Catalogue

/-- The built-in skills in the order in which they are registered. -/
def builtin : List Skill :=
  audio ++ encoding ++ multiInput ++ outcome ++ spatial ++ temporal ++ text ++ visual

end SkillPipeline.Catalogue
