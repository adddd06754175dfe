import SkillPipeline.Registry.Basic
import SkillPipeline.Skill.Definition

namespace SkillPipeline

structure Session where
  registry : Registry := {}
  notices : List Notice := []

/-- Work in a session. It may fail; what it has done to the registry and to the journal before that
stays. -/
abbrev Work := ExceptT Fault (StateM Session)

namespace Session

def note (s : Session) (notices : List Notice) : Session :=
  { s with notices := s.notices ++ notices }

def register (s : Session) (skill : Skill) : Session :=
  { registry := s.registry.register skill
    notices := s.notices ++ s.registry.registerNotices skill }

def update (s : Session) (skills : List Skill) : Session :=
  { registry := s.registry.update skills
    notices := s.notices ++ s.registry.updateNotices skills }

def reading {α : Type} (read : StateM Registry α) : StateM Session α := fun s =>
  let (a, registry) := read.run s.registry
  (a, { s with registry })

/-- Something defined from skill files; its notices go to the journal. -/
def defining {α : Type} (work : Defining α) : StateM Session (Except ConfigurationFault α) :=
  fun s =>
    let (result, notices) := work.outcome
    (result, s.note notices)

end Session

end SkillPipeline
