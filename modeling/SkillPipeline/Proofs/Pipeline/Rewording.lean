import SkillPipeline.Proofs.Legibility.Catalogue
import SkillPipeline.Proofs.Pipeline.ClosedGraph
import SkillPipeline.Proofs.Pipeline.Correspondence
import SkillPipeline.Proofs.Pipeline.Unfolding
import SkillPipeline.Proofs.Skill.Variation

namespace SkillPipeline

open SkillPipeline.Filter Outcome Merger

/-- Parameters of one skill that are the same but for its free texts. -/
def Params.Reworded (p q : Params) : Prop := Vary p.skill.freeTexts p q

/-- Steps of one skill that come to parameters which are the same but for free texts. -/
structure Step.Reworded (x : Index) (s s' : Step) : Prop where
  skill : s.skill = s'.skill
  params : ∀ skill p q, x.get? s.skill = some skill →
    (Params.normalize skill s.params).result = .ok p →
      (Params.normalize skill s'.params).result = .ok q → p.Reworded q

theorem Step.reworded_of_given {x : Index} {s s' : Step}
    (hx : ∀ skill ∈ x.skills, skill ∈ Catalogue.builtin) (hskill : s.skill = s'.skill)
    (hmembers : ∀ skill, x.get? s.skill = some skill →
      List.Forall₂ (Params.Given skill skill.freeTexts) s.params s'.params) :
    s.Reworded x s' where
  skill := hskill
  params skill p q hget hp hq := by
    have hnames := List.all_eq_true.mp Catalogue.builtin_namesTexts skill
      (hx skill (Index.mem_of_get? hget))
    have hvary := (Params.agree_normalize (hmembers skill hget) fun spec hspec freedom hfree =>
      Skill.type_of_freeTexts hnames hspec hfree).of_ok hp hq
    rw [Params.Reworded, (Params.normalize_settled hp).1]
    exact hvary

theorem Params.Reworded.eq_of_pipeline {p q : Params} (h : p.Reworded q)
    (hbuiltin : p.skill ∈ Catalogue.builtin) (hp : p.skill.isPipeline = true) : p = q := by
  obtain ⟨calls, hs⟩ := Expansion.exists_calls hp
  have hnone := Skill.freeTexts_of_pipeline (Catalogue.leavesFree_of_mem hbuiltin) hs
  rw [Reworded, hnone] at h
  exact h.eq_of_nil

namespace Expansion

variable {x : Index} {s s' : Step} {leaves leaves' : List Params}

theorem Unfolds.reworded (hx : ∀ skill ∈ x.skills, skill ∈ Catalogue.builtin)
    (hsteps : s.Reworded x s') (h : Unfolds x s leaves) (h' : Unfolds x s' leaves') :
    List.Forall₂ Params.Reworded leaves leaves' := by
  obtain ⟨p, ⟨-, skill, hget, hp⟩, hleaves⟩ := h
  obtain ⟨q, ⟨-, skill', hget', hq⟩, hleaves'⟩ := h'
  rw [← hsteps.skill] at hget'
  obtain rfl : skill = skill' := Option.some.inj (hget.symm.trans hget')
  have hreworded := hsteps.params skill p q hget hp hq
  have hskill : p.skill = skill := (Params.normalize_settled hp).1
  cases hpipeline : p.skill.isPipeline with
  | false =>
    have hpipeline' : q.skill.isPipeline = false := hreworded.skill ▸ hpipeline
    rw [leaves_leaf hpipeline] at hleaves
    rw [leaves_leaf hpipeline'] at hleaves'
    rw [hleaves, hleaves']
    exact .cons hreworded .nil
  | true =>
    have hbuiltin := hx skill (Index.mem_of_get? hget)
    obtain rfl := hreworded.eq_of_pipeline (hskill ▸ hbuiltin) hpipeline
    rw [hleaves.unique hleaves']
    exact List.forall₂_same.mpr fun leaf _ => .refl leaf

/-- What holds of the names of steps and of calls below them holds of the names of all stages. -/
theorem neutral_hereditary : Hereditary (fun _ => True) fun place stages =>
    Neutral place.id.toList → ∀ s ∈ stages, Neutral s.id.toList := by
  refine ⟨fun place params _ _ hplace s hs => ?_,
    fun place caller calls inner hinner hplace s hs => ?_⟩
  · rw [List.mem_singleton.mp hs]
    exact hplace
  · obtain ⟨stages, hstages, hs⟩ := List.mem_flatten.mp hs
    obtain ⟨p, -, hcall⟩ := exists_of_mem_right hinner hstages
    refine hcall ?_ s hs
    rw [Place.call]
    refine neutral_numbered ?_ _
    rw [String.toList_append]
    exact hplace.append (by decide)

theorem steps_neutral {ss : List Step} {session : Session} {all : List Stage}
    (h : ((steps false 0 ss).run session).1.2 = .ok all) : ∀ s ∈ all, Neutral s.id.toList := by
  obtain ⟨inner, rfl, hinner⟩ := exists_trees neutral_hereditary (fun _ _ => trivial) h
  refine forall_mem_flatten hinner fun p stages hstages => hstages ?_
  exact neutral_numbered (by decide) _

end Expansion

/-- Stages of a built-in skill that are the same but for their names and for free texts. -/
structure Stage.Reworded (ρ : Renaming) (s s' : Stage) : Prop where
  prefixes : ρ.reading.Prefixes s.id s'.id
  builtin : s.skill ∈ Catalogue.builtin
  params : s.params.Reworded s'.params

namespace Stage.Reworded

variable {ρ : Renaming} {s s' : Stage} {view : HandlerContext}

theorem skill (h : s.Reworded ρ s') : s.skill = s'.skill := Params.Vary.skill h.params

theorem stages (h : s.Reworded ρ s') : ρ.reading.Stages .builtin s s' where
  prefixes := h.prefixes
  skill := h.skill
  reserves handler reserve view hhandler hreserve := by
    obtain ⟨name, hname, hentry⟩ := s.exists_named hhandler
    have hfree := Skill.freeTexts_subset (Catalogue.leavesFree_of_mem h.builtin) hname
    have hnone := HandlerTable.freeTexts_of_reserve (name, handler) hentry (by simp [hreserve])
    have hvary : Params.Vary [] s.params s'.params := hnone ▸ Params.Vary.mono h.params hfree
    rw [hvary.eq_of_nil]

theorem contribution (h : s.Reworded ρ s') :
    Linked ρ.reading.Contributions (Assembly.contribution .builtin view s).2
      (Assembly.contribution .builtin view s').2 := by
  have hleaves := Catalogue.leavesFree_of_mem h.builtin
  have hhandler? : s.handler? .builtin = s'.handler? .builtin := h.stages.handler?_eq
  rw [Assembly.contribution, Assembly.contribution, ← h.skill, ← hhandler?]
  -- The catalogue leaves texts free only where a handler does the work.
  cases hs : s.skill.strategy with
  | template text target =>
    obtain ⟨hnone, hafter⟩ := Skill.freeTexts_of_template hleaves hs
    have hvary : Params.Vary [] s.params s'.params := hnone ▸ h.params
    rw [← hvary.eq_of_nil]
    exact Gives.linked fun c hc => ((Params.renderTemplate_legible hafter) c hc).contributions ρ
  | pipeline calls => exact linked_error
  | handler name =>
    dsimp only
    cases hhandler : s.handler? .builtin with
    | error f => exact linked_error
    | ok handler? =>
      cases handler? with
      | none => exact linked_error
      | some handler =>
        obtain ⟨name, hname, hentry⟩ := s.exists_named hhandler
        have hreads := HandlerTable.builtin_reads (name, handler) hentry ρ s.params s'.params view
          (Params.Vary.mono h.params (Skill.freeTexts_subset hleaves hname))
        exact fun a b ha hb =>
          hreads a b (Assembly.guarded_eq_ok.mp ha) (Assembly.guarded_eq_ok.mp hb)

end Stage.Reworded

namespace Compiler

variable {c : Compiler} {ctx : Context} {ρ : Renaming} {session : Session}
  {steps steps' : List Step}

theorem linked_assembly_of_reworded (hhandlers : c.handlers = .builtin)
    {stages stages' : List Stage} (h : List.Forall₂ (Stage.Reworded ρ) stages stages') :
    Linked ρ.reading.Assemblies (c.assembly ctx stages) (c.assembly ctx stages') := by
  have hstages : List.Forall₂ (ρ.reading.Stages c.handlers) stages stages' :=
    h.imp fun s s' hs => hhandlers ▸ hs.stages
  refine (Matching.agree_reserve hstages).linked.bind fun r r' hr => ?_
  refine (linked_foldlM h Matching.Progresses.start fun p p' s s' hp hs => ?_).bind
    fun p p' hp => hp.conclude.linked
  rw [Assembly.advance, Assembly.advance, hr.view_eq hs.prefixes, hhandlers]
  exact hs.contribution.bind fun answer answer' hanswer =>
    (hp.add hanswer hs.prefixes hs.skill).linked

theorem linked_stages_of_reworded (hknows : session.Knows (· ∈ Catalogue.builtin))
    (hsound : session.registry.Sound)
    (hsteps : List.Forall₂ (Step.Reworded session.registry.index) steps steps')
    (context : RequestContext) :
    Linked (fun all all' => ∃ ρ, List.Forall₂ (Stage.Reworded ρ) all all')
      (stages ⟨steps, context⟩ session) (stages ⟨steps', context⟩ session) := by
  intro all all' hall hall'
  have hspread := (exists_stages_iff hsound ⟨steps, context⟩).mp ⟨all, hall, rfl⟩
  have hspread' := (exists_stages_iff hsound ⟨steps', context⟩).mp ⟨all', hall', rfl⟩
  have hparams := hspread.forall₂ hspread' hsteps fun s s' leaves leaves' hs hleaves hleaves' =>
    hleaves.reworded hknows hs hleaves'
  rw [List.forall₂_map_left_iff, List.forall₂_map_right_iff] at hparams
  obtain ⟨ρ, hρ⟩ := Renaming.exists_of_forall₂ (f := Stage.id) hparams
    (Expansion.steps_apart hall) (Expansion.steps_apart hall')
  have hready := Expansion.steps_ready (s := session.note [started steps]) hknows hall
  refine ⟨ρ, (forall₂_mem hρ).imp fun s s' hs => ?_⟩
  obtain ⟨hmem, hmem', hnames, hreworded⟩ := hs
  exact ⟨Renaming.reading_prefixes hnames (Expansion.steps_neutral hall s hmem)
    (Expansion.steps_neutral hall' s' hmem'), (hready s hmem).1.2, hreworded⟩

/-- Of two requests for built-in skills that are the same but for free texts, and that both compile,
the filters have the same live characters. -/
theorem compile_reworded (hhandlers : c.handlers = .builtin)
    (hknows : session.Knows (· ∈ Catalogue.builtin)) (hsound : session.registry.Sound)
    (hsteps : List.Forall₂ (Step.Reworded session.registry.index) steps steps')
    (context : RequestContext) {d d' : Descriptor}
    (hd : ((c.compile ⟨steps, context⟩).run session).1.result = .ok d)
    (hd' : ((c.compile ⟨steps', context⟩).run session).1.result = .ok d') :
    d.filter.skeleton = d'.filter.skeleton := by
  rw [compile_result] at hd hd'
  obtain ⟨⟨ctx, a⟩, ha, rfl⟩ := map_eq_ok.mp hd
  obtain ⟨⟨ctx', a'⟩, ha', rfl⟩ := map_eq_ok.mp hd'
  simp only [plan, bind_eq_ok, pure_eq_ok, Prod.mk.injEq] at ha ha'
  obtain ⟨_, hctx, _, ⟨all, hall, hassembly⟩, rfl, rfl⟩ := ha
  obtain ⟨_, hctx', _, ⟨all', hall', hassembly'⟩, rfl, rfl⟩ := ha'
  obtain rfl := Except.ok.inj (hctx.symm.trans hctx')
  obtain ⟨ρ, hρ⟩ := linked_stages_of_reworded hknows hsound hsteps context all all' hall hall'
  have hassemblies := linked_assembly_of_reworded hhandlers hρ _ _ hassembly hassembly'
  exact Renaming.skeleton_eq hassemblies.merged.clause

def croppingSession : Session where
  registry := .ofSkills (Catalogue.builtin.filter fun skill =>
    ["crop", "mirror"].contains skill.name)

def croppingSteps (width : String) : List Step :=
  [⟨"crop", [("w", .string width)]⟩, ⟨"mirror", []⟩]

/-- The width of a crop cannot end its filter, whatever quotes and brackets there are in it. -/
theorem compile_reworded_cropping :
    let result (width : String) :=
      ((mirrorCompiler.compile ⟨croppingSteps width, mirrorRequest.context⟩).run
        croppingSession).1.result
    ∃ d d', result "iw/3" = .ok d ∧ result "9],'[0:v]nullsink;\\" = .ok d' ∧
      d.filter.skeleton = d'.filter.skeleton := by
  have hknows : croppingSession.Knows (· ∈ Catalogue.builtin) :=
    Session.knows_ofSkills fun _ hskill => (List.mem_filter.mp hskill).1
  have hcrop : Step.Reworded croppingSession.registry.index
      ⟨"crop", [("w", .string "iw/3")]⟩ ⟨"crop", [("w", .string "9],'[0:v]nullsink;\\")]⟩ := by
    refine Step.reworded_of_given hknows rfl fun skill hget => .cons ⟨rfl, .inr ?_⟩ .nil
    obtain rfl := Option.some.inj hget
    exact ⟨"width", rfl, .any, _, _, by decide, rfl, rfl, by decide, trivial⟩
  have hmirror : Step.Reworded croppingSession.registry.index ⟨"mirror", []⟩ ⟨"mirror", []⟩ :=
    Step.reworded_of_given hknows rfl fun _ _ => .nil
  exact ⟨_, _, rfl, rfl, compile_reworded (c := mirrorCompiler) rfl hknows
    (Registry.sound_ofSkills _) (.cons hcrop (.cons hmirror .nil)) mirrorRequest.context rfl rfl⟩

end Compiler

end SkillPipeline
