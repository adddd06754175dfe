import SkillPipeline.Proofs.Skill.Coherence

namespace SkillPipeline

open Outcome

def Template.Declared (declared : List String) (text : String) : Prop :=
  ∀ name ∈ holes text, name ∈ declared

/-- The holes of a template, or of the texts that calls pass on, are among some names. -/
def Strategy.Declared (declared : List String) : Strategy → Prop
  | .template text _ => Template.Declared declared text
  | .pipeline calls => ∀ call ∈ calls, ∀ key text, (key, ParamValue.text text) ∈ call.params →
      Template.Declared declared text
  | .handler _ => True

namespace SkillEntry

variable {declared : List String} {text : String} {call : Call} {calls : List Call}

theorem declared_of_undeclared? (h : undeclared? declared text = none) :
    Template.Declared declared text := by
  intro name hname
  have hcontains := List.find?_eq_none.mp h name hname
  simpa using hcontains

theorem declared_of_undeclaredIn? (h : undeclaredIn? declared call = none) {key : String}
    (hmem : (key, ParamValue.text text) ∈ call.params) : Template.Declared declared text :=
  declared_of_undeclared? (List.findSome?_eq_none_iff.mp h _ hmem)

theorem strategy_gives {known : String → Bool} {e : SkillEntry} :
    Gives (Strategy.Declared declared) (e.strategy known declared) := by
  intro strategy h
  rw [SkillEntry.strategy] at h
  split at h
  · split at h
    · cases h
    · next hdeclared =>
      cases h
      exact declared_of_undeclared? hdeclared
  · split at h
    · cases h
    · next hdeclared =>
      cases h
      intro call hcall key text hmem
      have hnone := List.findSome?_eq_none_iff.mp hdeclared call hcall
      exact declared_of_undeclaredIn? (Option.map_eq_none_iff.mp hnone) hmem
  · dsimp only at h
    split at h
    · cases h
      trivial
    · cases h

theorem pipeline_of_strategy {known : String → Bool} {e : SkillEntry} :
    Gives (fun strategy => ∀ calls, strategy = .pipeline calls → e.pipeline? = some calls)
      (e.strategy known declared) := by
  rintro _ h calls rfl
  rw [SkillEntry.strategy] at h
  split at h
  · split at h <;> cases h
  · next hpipeline =>
    split at h
    · cases h
    · cases h
      exact hpipeline
  · dsimp only at h
    split at h <;> cases h

end SkillEntry

namespace Skill

variable {known : String → Bool} {source : String} {skill : Skill}

def Declares (skill : Skill) : Prop :=
  skill.strategy.Declared (skill.parameters.map (·.name))

theorem declares_of_define {e : SkillEntry} (h : (e.define known source).outcome.1 = .ok skill) :
    skill.Declares := by
  refine Logged.Gives.of_outcome ?_ h
  refine Logged.gives_trivial.bind fun parameters _ => ?_
  refine (Logged.gives_ofExcept SkillEntry.strategy_gives).bind fun strategy hstrategy => ?_
  exact Logged.gives_pure hstrategy

/-- Whether every hole of the skill is one of its parameters. -/
def declaresHoles (skill : Skill) : Bool :=
  match skill.strategy with
  | .template text _ => (SkillEntry.undeclared? (skill.parameters.map (·.name)) text).isNone
  | .pipeline calls =>
    calls.all fun call => (SkillEntry.undeclaredIn? (skill.parameters.map (·.name)) call).isNone
  | .handler _ => true

theorem declares_of_declaresHoles (h : skill.declaresHoles = true) : skill.Declares := by
  rw [declaresHoles] at h
  rw [Declares]
  split at h
  · next text target hstrategy =>
    rw [hstrategy]
    exact SkillEntry.declared_of_undeclared? (Option.isNone_iff_eq_none.mp h)
  · next calls hstrategy =>
    rw [hstrategy]
    intro call hcall key text hmem
    have hnone := Option.isNone_iff_eq_none.mp (List.all_eq_true.mp h call hcall)
    exact SkillEntry.declared_of_undeclaredIn? hnone hmem
  · next name hstrategy =>
    rw [hstrategy]
    trivial

set_option maxRecDepth 100000 in
theorem builtin_declaresHoles : Catalogue.builtin.all (·.declaresHoles) = true := by
  decide +kernel

theorem Parsed.declares (h : skill.Parsed) : skill.Declares := by
  induction h with
  | entry sound defined => exact declares_of_define defined
  | builtin mem => exact declares_of_declaresHoles (List.all_eq_true.mp builtin_declaresHoles _ mem)
  | marked source parsed ih => exact ih

theorem Declares.template {text : String} {target : Target} (h : skill.Declares)
    (hstrategy : skill.strategy = .template text target) :
    Template.Declared (skill.parameters.map (·.name)) text := by
  rwa [Declares, hstrategy] at h

theorem Declares.call {call : Call} {key text : String} (h : skill.Declares)
    (hcall : call ∈ skill.calls) (hmem : (key, ParamValue.text text) ∈ call.params) :
    Template.Declared (skill.parameters.map (·.name)) text := by
  rw [Declares] at h
  rw [calls] at hcall
  split at hcall
  · next calls hstrategy =>
    rw [hstrategy] at h
    exact h call hcall key text hmem
  · cases hcall

theorem pipeline_of_define {e : SkillEntry} (h : (e.define known source).outcome.1 = .ok skill) :
    ∀ calls, skill.strategy = .pipeline calls → e.pipeline? = some calls := by
  refine Logged.Gives.of_outcome
    (P := fun skill : Skill => ∀ calls, skill.strategy = .pipeline calls →
      e.pipeline? = some calls) ?_ h
  refine Logged.gives_trivial.bind fun parameters _ => ?_
  refine (Logged.gives_ofExcept SkillEntry.pipeline_of_strategy).bind fun strategy hstrategy => ?_
  exact Logged.gives_pure hstrategy

theorem builtin_named : Catalogue.builtin.all (·.calls.all (·.params.all
    (Members.isAssignable ·.1))) = true := by
  decide +kernel

theorem Parsed.named_calls (h : skill.Parsed) : ∀ call ∈ skill.calls, call.Named := by
  induction h with
  | @entry known source e skill sound defined =>
    intro call hcall
    rw [calls] at hcall
    split at hcall
    · next calls hstrategy =>
      exact sound.calls calls (pipeline_of_define defined calls hstrategy) call hcall
    · cases hcall
  | builtin mem =>
    intro call hcall p hp
    have hall := List.all_eq_true.mp (List.all_eq_true.mp builtin_named _ mem) call hcall
    exact Members.isAssignable_iff.mp (List.all_eq_true.mp hall p hp)
  | marked source parsed ih => exact ih

end Skill

end SkillPipeline
