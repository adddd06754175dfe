import SkillPipeline.Proofs.Graph.Renaming
import SkillPipeline.Proofs.Pipeline.ClosedGraph
import SkillPipeline.Proofs.Pipeline.Correspondence
import SkillPipeline.Proofs.Pipeline.Unfolding
import SkillPipeline.Proofs.Graph.Freshness

namespace SkillPipeline

open Outcome Merger

section Relabel

variable (f : String → String)

def Merged.relabel (merged : Merged) : Merged where
  clause := merged.clause.relabel f
  graphMode := merged.graphMode
  video := merged.video.relabel f
  audio := merged.audio.relabel f

def Mapping.relabel : Mapping → Mapping
  | .stream ref => .stream (ref.relabel f)
  | m => m

def Assembly.relabel (a : Assembly) : Assembly :=
  { a with merged := a.merged.relabel f, maps := a.maps.map (Mapping.relabel f) }

end Relabel

/-- All labels of an assembly: in its graph, of its final streams and in its mappings. -/
def Assembly.labels (a : Assembly) : List String :=
  a.merged.clause.labels ++ a.merged.finals ++ a.maps.filterMap Mapping.label?

namespace Renaming

variable {ρ : Renaming}

theorem eq_relabel_of_results {r r' : Merged} (h : ρ.matching.Results r r') :
    r' = r.relabel ρ.rename := by
  obtain ⟨clause', graphMode', video', audio'⟩ := r'
  obtain ⟨hclause, hmode, hvideo, haudio⟩ := h
  rw [Merged.relabel, ← eq_relabel_of_clauses hclause, ← eq_relabel_of_refs hvideo,
    ← eq_relabel_of_refs haudio, hmode]

theorem eq_relabel_of_mappings {x y : Mapping} (h : ρ.matching.Mappings x y) :
    y = x.relabel ρ.rename := by
  cases h with
  | stream href => rw [Mapping.relabel, ← eq_relabel_of_refs href]
  | optional index medium => rfl
  | subtitle index track => rfl

theorem eq_relabel_of_assemblies {a a' : Assembly} (h : ρ.matching.Assemblies a a') :
    a' = a.relabel ρ.rename := by
  obtain ⟨inputFlags', outputFlags', merged', maps', keepAudio', warnings'⟩ := a'
  obtain ⟨hinput, houtput, hmerged, hmaps, hkeep, hwarnings⟩ := h
  rw [Assembly.relabel, ← eq_relabel_of_results hmerged,
    ← eq_map_of_forall₂ hmaps fun _ _ => eq_relabel_of_mappings, hinput, houtput, hkeep, hwarnings]

theorem known_of_assemblies {a a' : Assembly} (h : ρ.matching.Assemblies a a') :
    ∀ name ∈ a.labels, ρ.Known name := by
  obtain ⟨-, -, hmerged, hmaps, -, -⟩ := h
  have hends : List.Forall₂ ρ.matching.Refs [a.merged.video, a.merged.audio]
      [a'.merged.video, a'.merged.audio] := .cons hmerged.video (.cons hmerged.audio .nil)
  refine List.forall_mem_append.mpr
    ⟨List.forall_mem_append.mpr ⟨known_of_clauses hmerged.clause, known_of_refs hends⟩, ?_⟩
  intro name hname
  obtain ⟨mapping, hmem, hlabel⟩ := List.mem_filterMap.mp hname
  obtain ⟨mapping', -, hmatch⟩ := exists_of_mem_left hmaps hmem
  obtain ⟨label, label', rfl, -, hknown, -⟩ | ⟨-, hnone⟩ := hmatch.cases_label
  · obtain rfl : label = name := Option.some.inj hlabel
    exact hknown
  · rw [hnone] at hlabel
    cases hlabel

end Renaming

structure Assembly.Plain (a : Assembly) : Prop where
  clause : ∀ nodes, a.merged.clause ≠ .graph nodes
  video : a.merged.video.label? = none
  audio : a.merged.audio.label? = none
  maps : ∀ mapping ∈ a.maps, mapping.label? = none

theorem StreamRef.relabel_of_none (f : String → String) {ref : StreamRef}
    (h : ref.label? = none) : ref.relabel f = ref := by
  cases ref with
  | stream index medium => rfl
  | label name => cases h

namespace Assembly

variable {table : HandlerTable} {view : Stage → HandlerContext} {p p' : Progress} {ctx : Context}

theorem Plain.relabel_eq {a : Assembly} (h : a.Plain) (f : String → String) : a.relabel f = a := by
  have hclause : a.merged.clause.relabel f = a.merged.clause := by
    cases hc : a.merged.clause with
    | none => rfl
    | chain video? audio? => rfl
    | graph nodes => exact absurd hc (h.clause nodes)
  have hmaps : a.maps.map (Mapping.relabel f) = a.maps := by
    refine (List.map_congr_left fun mapping hmem => ?_).trans a.maps.map_id
    cases mapping with
    | stream ref =>
      exact congrArg Mapping.stream (StreamRef.relabel_of_none f (h.maps _ hmem))
    | optional index medium => rfl
    | subtitle index track => rfl
  rw [relabel, Merged.relabel, hclause, hmaps, StreamRef.relabel_of_none f h.video,
    StreamRef.relabel_of_none f h.audio]

theorem operations_unlabelled {c : Contribution} (hc : c.fragment? = none) (id : String) :
    ∀ op ∈ c.operations id, op.Open ∧ op.step? = none := by
  intro op hop
  obtain rfl | hop := List.mem_cons.mp hop
  · rw [Contribution.filtersOp, hc]
    exact ⟨trivial, rfl⟩
  · obtain ⟨index, -, rfl⟩ := List.mem_map.mp hop
    exact ⟨trivial, rfl⟩

theorem unlabelled_of_foldlM {stages : List Stage} (h : p.merger.Unlabelled)
    (hstages : ∀ s ∈ stages, ∀ c, (contribution table (view s) s).2 = .ok c → c.fragment? = none)
    (hrun : stages.foldlM (advance table view) p = .ok p') : p'.merger.Unlabelled := by
  induction stages generalizing p with
  | nil => exact pure_eq_ok.mp hrun ▸ h
  | cons s rest ih =>
    obtain ⟨hfirst, hrest⟩ := List.forall_mem_cons.mp hstages
    obtain ⟨q, hq, hafter⟩ := foldlM_cons_eq_ok.mp hrun
    obtain ⟨c, hc, hadd⟩ := bind_eq_ok.mp hq
    exact ih (h.run (operations_unlabelled (hfirst c hc) s.id) (takes_of_add hadd).run) hrest hafter

theorem plain_of_conclude (h : p.merger.Unlabelled) {a : Assembly}
    (hconclude : conclude p ctx = .ok a) : a.Plain := by
  simp only [conclude, bind_eq_ok, pure_eq_ok] at hconclude
  obtain ⟨⟨m, merged⟩, hfinal, -, -, rfl⟩ := hconclude
  obtain ⟨-, -, -, rfl⟩ := (finalize_eq_ok h.single).mp hfinal
  have hmain (medium : Medium) :
      ((p.merger.ended (p.keepsAudio ctx)).channel medium).main.label? = none :=
    (congrArg StreamRef.label? (ended_main h.mode _ medium)).trans (h.labels h.mode medium)
  refine ⟨fun nodes hnodes => ?_, hmain .video, hmain .audio, fun mapping hmem => ?_⟩
  · rw [result, if_neg h.mode] at hnodes
    dsimp only at hnodes
    rw [chainClause] at hnodes
    split at hnodes <;> cases hnodes
  · refine Option.eq_none_iff_forall_ne_some.mpr fun name hname => ?_
    have hfinal := mem_finals_of_mappings (List.mem_filterMap.mpr ⟨mapping, hmem, hname⟩)
    obtain ⟨ref, href, hlabel⟩ := List.mem_filterMap.mp hfinal
    have hnone : ref.label? = none := by
      obtain rfl | hlast := List.mem_cons.mp href
      · exact hmain .video
      · exact List.mem_singleton.mp hlast ▸ hmain .audio
    rw [hnone] at hlabel
    cases hlabel

end Assembly

theorem Assembly.contribution_congr {table : HandlerTable} {view : HandlerContext} {s s' : Stage}
    (h : s.params = s'.params) : contribution table view s = contribution table view s' := by
  obtain ⟨id, params, depth⟩ := s
  obtain ⟨id', params', depth'⟩ := s'
  obtain rfl : params = params' := h
  rfl

theorem Renaming.contributions_refl (ρ : Renaming) (c : Contribution) :
    ρ.matching.Contributions c c := by
  have htexts (l : List FilterText) : List.Forall₂ ρ.matching.text l l :=
    List.forall₂_same.mpr fun t _ => Eq.refl t
  refine ⟨htexts _, htexts _, rfl, rfl, ?_, rfl, rfl⟩
  cases c.graph? with
  | none => exact .none
  | some f =>
    exact .some ⟨List.forall₂_same.mpr fun n _ => ⟨rfl, rfl, rfl⟩, rfl, rfl, fun _ _ => trivial⟩

namespace Compiler

variable {c : Compiler} {ctx : Context} {ρ : Renaming}

def Renamed (ρ : Renaming) (s s' : Stage) : Prop := (s.id, s'.id) ∈ ρ.names ∧ s.params = s'.params

theorem agree_assembly_of_renamed {stages stages' : List Stage}
    (h : List.Forall₂ (Renamed ρ) stages stages') :
    Agree ρ.matching.Assemblies (c.assembly ctx stages) (c.assembly ctx stages') := by
  have hstages : List.Forall₂ (ρ.matching.Stages c.handlers) stages stages' := by
    refine h.imp fun s s' hs => ⟨ρ.prefixes hs.1, congrArg Params.skill hs.2, ?_⟩
    intro handler reserve view _ _
    rw [hs.2]
  refine (Matching.agree_reserve hstages).bind fun r r' hr => ?_
  refine (agree_foldlM h Matching.Progresses.start fun p p' s s' hp hs => ?_).bind
    fun p p' hp => hp.conclude
  have hprefixes := ρ.prefixes hs.1
  rw [Assembly.advance, Assembly.advance, hr.view_eq hprefixes, Assembly.contribution_congr hs.2]
  cases (Assembly.contribution c.handlers (c.view ctx r' s') s').2 with
  | error f => exact .error
  | ok answer =>
    exact hp.add (ρ.contributions_refl answer) hprefixes (congrArg Params.skill hs.2)

/-- Some stage of a request contributes a fragment. -/
def EmitsFragment (c : Compiler) (request : Request) (session : Session) : Prop :=
  ∃ ctx stages r, request.context.resolve c.files c.defaults = .ok ctx ∧
    Compiler.stages request session = .ok stages ∧ c.reservations ctx stages = .ok r ∧
      ∃ s ∈ stages, ∃ answer, (Assembly.contribution c.handlers (c.view ctx r s) s).2 = .ok answer ∧
        answer.fragment?.isSome = true

theorem plain_of_plan {request : Request} {session : Session} {a : Assembly}
    (h : c.plan request session = .ok (ctx, a)) (hnone : ¬c.EmitsFragment request session) :
    a.Plain := by
  simp only [plan, assembly, bind_eq_ok, pure_eq_ok, Prod.mk.injEq] at h
  obtain ⟨ctx', hctx, a', ⟨stages, hstages, r, hr, p, hp, hconclude⟩, rfl, rfl⟩ := h
  refine Assembly.plain_of_conclude (Assembly.unlabelled_of_foldlM unlabelled_start ?_ hp) hconclude
  intro s hs answer hanswer
  rw [← Option.not_isSome_iff_eq_none]
  exact fun hsome => hnone ⟨ctx', stages, r, hctx, hstages, hr, s, hs, answer, hanswer, hsome⟩

variable {session : Session} {outer : Step} {skill : Skill} {calls : List Call} {params : Params}

/-- With its calls in its place, a step of a sub-pipeline comes to the same stages. -/
theorem agree_stages (hsound : session.registry.Sound)
    (hskill : session.registry.require outer.skill = .ok skill)
    (hs : skill.strategy = .pipeline calls)
    (hparams : (Params.normalize skill outer.params).result = .ok params)
    (pre post : List Step) (context : RequestContext) :
    Agree (fun all all' => ∃ ρ, List.Forall₂ (Renamed ρ) all all')
      (stages ⟨pre ++ [outer] ++ post, context⟩ session)
      (stages ⟨pre ++ calls.map (Expansion.callStep params) ++ post, context⟩ session) := by
  have hget := Registry.require_eq_ok.mp hskill
  have hsame := agree_of_image fun leaves =>
    (exists_stages_iff hsound ⟨pre ++ [outer] ++ post, context⟩).trans
      ((Expansion.spreads_inlined hget hs hparams).trans (exists_stages_iff hsound
        ⟨pre ++ calls.map (Expansion.callStep params) ++ post, context⟩).symm)
  refine hsame.mono fun all all' hall hall' heq => ?_
  rw [← List.forall₂_eq_eq_eq, List.forall₂_map_left_iff, List.forall₂_map_right_iff] at heq
  exact Renaming.exists_of_forall₂ (f := Stage.id) heq (Expansion.steps_apart hall)
    (Expansion.steps_apart hall')

theorem agree_plan (hsound : session.registry.Sound)
    (hskill : session.registry.require outer.skill = .ok skill)
    (hs : skill.strategy = .pipeline calls)
    (hparams : (Params.normalize skill outer.params).result = .ok params)
    (pre post : List Step) (context : RequestContext) :
    Agree (fun p p' => p.1 = p'.1 ∧ ∃ ρ : Renaming, ρ.matching.Assemblies p.2 p'.2)
      (c.plan ⟨pre ++ [outer] ++ post, context⟩ session)
      (c.plan ⟨pre ++ calls.map (Expansion.callStep params) ++ post, context⟩ session) := by
  rw [plan, plan]
  dsimp only
  cases context.resolve c.files c.defaults with
  | error f => exact .error
  | ok ctx =>
    have hstages := agree_stages hsound hskill hs hparams pre post context
    refine Agree.bind (P := fun a a' => ∃ ρ : Renaming, ρ.matching.Assemblies a a') ?_
      fun a a' ha => .ok ⟨rfl, ha⟩
    refine hstages.bind fun all all' hall => ?_
    obtain ⟨ρ, hρ⟩ := hall
    exact (agree_assembly_of_renamed hρ).mono fun a a' _ _ ha => ⟨ρ, ha⟩

/-- Two commands that are the same but for the names of the steps in graph labels: every label of
the first is one of its steps or of a folded chain, and different labels stay different. -/
def SameButNames (c : Compiler) (d d' : Descriptor) : Prop :=
  ∃ (ctx : Context) (a : Assembly) (ρ : Renaming), d = a.descriptor c.binary ctx ∧
    d' = (a.relabel ρ.rename).descriptor c.binary ctx ∧ (∀ label ∈ a.labels, ρ.Known label) ∧
      Set.InjOn ρ.rename {label | label ∈ a.labels}

/-- A step that names a sub-pipeline can be replaced by the steps that it calls. The request
compiles if it did before, to the same command but for the names of steps in graph labels; without
fragments there are none, and it is the same command. -/
theorem compile_inlined (hsound : session.registry.Sound)
    (hskill : session.registry.require outer.skill = .ok skill)
    (hs : skill.strategy = .pipeline calls)
    (hparams : (Params.normalize skill outer.params).result = .ok params)
    (pre post : List Step) (context : RequestContext) :
    let whole : Request := ⟨pre ++ [outer] ++ post, context⟩
    let inner := calls.map fun call => Step.mk call.skill (Call.resolve call.params params)
    let inlined : Request := ⟨pre ++ inner ++ post, context⟩
    ((∃ d, ((c.compile whole).run session).1.result = .ok d) ↔
        ∃ d, ((c.compile inlined).run session).1.result = .ok d) ∧
      ∀ d d', ((c.compile whole).run session).1.result = .ok d →
        ((c.compile inlined).run session).1.result = .ok d' →
          c.SameButNames d d' ∧ (¬c.EmitsFragment whole session → d' = d) := by
  intro whole inner inlined
  -- Both plans come to be or neither does, and then one renaming takes all labels over.
  have hplan := agree_plan (c := c) hsound hskill hs hparams pre post context
  rw [compile_result, compile_result]
  refine ⟨?_, fun d d' hd hd' => ?_⟩
  · exact (hplan.map (Q := fun _ _ => True) fun _ _ _ => trivial).exists_iff
  · obtain ⟨⟨ctx, a⟩, ha, rfl⟩ := map_eq_ok.mp hd
    obtain ⟨⟨ctx', a'⟩, ha', rfl⟩ := map_eq_ok.mp hd'
    obtain ⟨hctx, ρ, hmatch⟩ := hplan.of_ok ha ha'
    obtain rfl : ctx = ctx' := hctx
    obtain rfl := Renaming.eq_relabel_of_assemblies hmatch
    have hknown := Renaming.known_of_assemblies hmatch
    refine ⟨⟨ctx, a, ρ, rfl, rfl, hknown, Renaming.rename_injOn.mono hknown⟩, fun hnone => ?_⟩
    rw [(plain_of_plan ha hnone).relabel_eq]

/-- A sub-pipeline of two mirrors, for the first of which the caller chooses the mode. -/
def kaleidoscopeSkill : Skill where
  name := "kaleidoscope"
  category := .outcome
  parameters := mirrorSkill.parameters
  strategy := .pipeline [⟨"mirror", [("mode", .text "\x7bmode\x7d")]⟩, ⟨"mirror", []⟩]

def kaleidoscopeStep : Step := ⟨"kaleidoscope", [("mode", .string "quad")]⟩

def kaleidoscopeSession : Session := { registry := .ofSkills [mirrorSkill, kaleidoscopeSkill] }

/-- A kaleidoscope and a mirror after it are three mirrors. -/
theorem compile_inlined_kaleidoscope :
    let result (steps : List Step) :=
      ((mirrorCompiler.compile ⟨steps ++ [⟨"mirror", []⟩], mirrorRequest.context⟩).run
        kaleidoscopeSession).1.result
    ∃ d d', result [kaleidoscopeStep] = .ok d ∧
      result [⟨"mirror", [("mode", .string "quad")]⟩, ⟨"mirror", []⟩] = .ok d' ∧
        mirrorCompiler.SameButNames d d' := by
  have hsound : kaleidoscopeSession.registry.Sound := Registry.sound_ofSkills _
  have hskill : kaleidoscopeSession.registry.require kaleidoscopeStep.skill =
      .ok kaleidoscopeSkill := rfl
  have hinlined := compile_inlined (c := mirrorCompiler) hsound hskill rfl rfl [] [⟨"mirror", []⟩]
    mirrorRequest.context
  exact ⟨_, _, rfl, rfl, (hinlined.2 _ _ rfl rfl).1⟩

end Compiler

end SkillPipeline

namespace SkillPipeline

open Merger

/-- The stages of an expanded pipeline differ by their identifiers, no label of one is that of
another or the name of a folded chain, whatever their fragments call them; so whichever fragments
they give the merger, it never meets a label that is there already. -/
theorem Expansion.steps_namespaced {ss : List Step} {session : Session} {all : List Stage}
    (h : ((steps false 0 ss).run session).1.2 = .ok all) :
    (all.map (·.id)).Nodup ∧ (all.Pairwise fun a b => Apart a.id b.id) ∧
      (∀ stage ∈ all, ∀ label medium count,
        qualified stage.id label ≠ foldName medium count) ∧
      ∀ ops : List Op, (ops.filterMap Op.step?).Nodup →
        (∀ id ∈ ops.filterMap Op.step?, ∃ stage ∈ all, stage.id = id) →
          ∀ name, ({} : Merger).run ops ≠ .error (.invariant (.producedTwice name)) := by
  refine ⟨steps_nodup_ids h, steps_apart h, fun stage _ => qualified_ne_foldName stage.id,
    fun ops hnodup hids name hrun => ?_⟩
  have hnamed : ({} : Merger).Named [] := fun _ hname => absurd hname List.not_mem_nil
  have hsingle : ({} : Merger).Single := ⟨List.nodup_nil, List.nodup_nil⟩
  have hapart : ([] ++ ops.filterMap Op.step?).Pairwise Apart := pairwise_apart h hnodup hids
  exact fresh_run hnamed hsingle hapart _ hrun name rfl

/-- One filter on the main video, whose output has this label. -/
def relabelling (label : String) : Fragment :=
  { nodes := [⟨[.main .video], .wording "negate", [label]⟩], video? := some label }

/-- Labels with numbers and underscores of their own, under the stages of a kaleidoscope and of a
mirror after it. -/
theorem Expansion.steps_namespaced_kaleidoscope :
    let ops : List Op := [.fragment "s1_1" (relabelling "2_o"), .fragment "s1_2" (relabelling "o"),
      .fragment "s2" (relabelling "1_2_o"), .finalize true]
    (∃ all, ((steps false 0 [Compiler.kaleidoscopeStep, ⟨"mirror", []⟩]).run
        Compiler.kaleidoscopeSession).1.2 = .ok all ∧ all.map (·.id) = ["s1_1", "s1_2", "s2"]) ∧
      ∀ name, ({} : Merger).run ops ≠ .error (.invariant (.producedTwice name)) := by
  intro ops
  obtain ⟨all, hall, hids⟩ : ∃ all,
      ((steps false 0 [Compiler.kaleidoscopeStep, ⟨"mirror", []⟩]).run
        Compiler.kaleidoscopeSession).1.2 = .ok all ∧
      all.map (·.id) = ["s1_1", "s1_2", "s2"] := ⟨_, rfl, rfl⟩
  have hsteps : ops.filterMap Op.step? = all.map (·.id) := hids.symm
  obtain ⟨-, -, -, hfresh⟩ := steps_namespaced hall
  refine ⟨⟨all, hall, hids⟩, hfresh ops ?_ fun id hid => ?_⟩
  · rw [hsteps, hids]
    decide
  · rw [hsteps] at hid
    exact List.mem_map.mp hid

end SkillPipeline
