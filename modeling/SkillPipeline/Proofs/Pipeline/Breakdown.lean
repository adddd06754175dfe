import SkillPipeline.Proofs.Pipeline.ClosedGraph
import SkillPipeline.Proofs.Pipeline.Readiness
import SkillPipeline.Proofs.Skill.Coherence

namespace SkillPipeline

open Merger Outcome

/-- Only an input among the output flags keeps a command from its argument list. -/
theorem Descriptor.argv_eq_error {d : Descriptor} {f : Fault} :
    d.argv = .error f ↔ "-i" ∈ d.outputFlags ∧ f = .invariant .inputFlag := by
  rw [argv]
  cases hflag : d.outputFlags.contains "-i" with
  | false =>
    have hnot : "-i" ∉ d.outputFlags := by simpa using hflag
    exact iff_of_false nofun fun h => hnot h.1
  | true =>
    have hmem : "-i" ∈ d.outputFlags := by simpa using hflag
    exact ⟨fun h => ⟨hmem, (Except.error.inj h).symm⟩, fun h => h.2 ▸ rfl⟩

namespace Compiler

open Assembly

variable {c : Compiler} {request : Request} {session : Session} {ctx : Context}
  {stages : List Stage} {r : Reservations} {f : Fault}

/-- The argument list that a request comes to. -/
def argv (c : Compiler) (request : Request) (session : Session) : Except Fault (List String) :=
  ((c.compile request).run session).1.result >>= Descriptor.argv

/-- The stages of a request, ready to be assembled in a context in which they own extra inputs. -/
structure Prepared (c : Compiler) (request : Request) (session : Session) (ctx : Context)
    (stages : List Stage) (r : Reservations) : Prop where
  resolved : request.context.resolve c.files c.defaults = .ok ctx
  expanded : Compiler.stages request session = .ok stages
  reserved : c.reservations ctx stages = .ok r

/-- The ways in which a request breaks down. -/
inductive Breakdown (c : Compiler) (request : Request) (session : Session) : Fault → Prop
  /-- A stage does not contribute. -/
  | stage {ctx : Context} {stages : List Stage} {r : Reservations} {s : Stage} {f : Fault}
      (prepared : c.Prepared request session ctx stages r)
      (fault : contributions c.handlers (c.view ctx r) stages = .error f) (mem : s ∈ stages)
      (breaks : s.Breaks c.files f) : Breakdown c request session f
  /-- A subtitle track is mapped alone, so no mapping names the output of the graph. -/
  | unmapped {ctx : Context} {stages : List Stage} {r : Reservations} {p : Progress}
      {track : Float} {skill label : String} (prepared : c.Prepared request session ctx stages r)
      (advanced : stages.foldlM (advance c.handlers (c.view ctx r)) {} = .ok p)
      (maps : p.maps? = some ([.subtitle 0 track], skill))
      (output : (p.merged ctx).finals.head? = some label) :
      Breakdown c request session (.invariant (.outputUnmapped label (some skill)))
  /-- An output flag reads as the flag of an input. -/
  | inputFlag {d : Descriptor} (compiled : ((c.compile request).run session).1.result = .ok d)
      (mem : "-i" ∈ d.outputFlags) : Breakdown c request session (.invariant .inputFlag)
  /-- The system refuses to look at an input. -/
  | refused {path : String} {e : SystemFailure}
      (unresolved : request.context.resolve c.files c.defaults = .error (.exception (.system e)))
      (mem : path ∈ request.context.input :: request.context.extraInputs)
      (look : c.files.lookUp (c.files.resolve path) = .error e) :
      Breakdown c request session (.exception (.system e))
  /-- A value that a step gives has no plain text. -/
  | noText {ctx : Context} (resolved : request.context.resolve c.files c.defaults = .ok ctx)
      (stopped : Compiler.stages request session = .error (.exception .noText))
      (textless : Expansion.Textless request.steps) :
      Breakdown c request session (.exception .noText)

theorem exists_prepared {a : Assembly} (h : c.plan request session = .ok (ctx, a)) :
    ∃ stages r cs p, c.Prepared request session ctx stages r ∧
      contributions c.handlers (c.view ctx r) stages = .ok cs ∧
        stages.foldlM (advance c.handlers (c.view ctx r)) {} = .ok p ∧ Collects stages cs {} p ∧
          conclude p ctx = .ok a := by
  simp only [plan, assembly, bind_eq_ok, pure_eq_ok, Prod.mk.injEq] at h
  obtain ⟨ctx', hctx, a', ⟨stages, hstages, r, hr, p, hp, hconclude⟩, rfl, rfl⟩ := h
  obtain ⟨cs, hcs, hcollects⟩ := exists_contributions hp
  exact ⟨stages, r, cs, p, ⟨hctx, hstages, hr⟩, hcs, hp, hcollects, hconclude⟩

theorem Prepared.ready (h : c.Prepared request session ctx stages r)
    (hskills : session.Knows (· ∈ Catalogue.builtin)) : ∀ s ∈ stages, s.Ready :=
  Expansion.steps_ready (s := session.note [started request.steps]) hskills h.expanded

theorem Prepared.pairwise_apart (h : c.Prepared request session ctx stages r) :
    (stages.map (·.id)).Pairwise Apart :=
  List.pairwise_map.mpr (Expansion.steps_apart h.expanded)

theorem Prepared.nodup_ids (h : c.Prepared request session ctx stages r) :
    (stages.map (·.id)).Nodup := Expansion.steps_nodup_ids h.expanded

/-- Prepared stages either all contribute and leave the merger sound, or the first that does not
stops the compilation. -/
theorem Prepared.advance_cases (h : c.Prepared request session ctx stages r)
    (hhandlers : c.handlers = .builtin) :
    (∃ cs p, contributions c.handlers (c.view ctx r) stages = .ok cs ∧
        stages.foldlM (advance c.handlers (c.view ctx r)) {} = .ok p ∧
          p.Sound (ctx.extras.length + 1) (stages.map (·.id))) ∨
      ∃ f, contributions c.handlers (c.view ctx r) stages = .error f ∧
        stages.foldlM (advance c.handlers (c.view ctx r)) {} = .error f :=
  Assembly.advance_cases
    (fun _ _ _ hanswer => fits hhandlers h.resolved h.reserved hanswer)
    (sound_start (Nat.succ_pos _)) h.pairwise_apart

theorem Breakdown.not_blameless (h : c.Breakdown request session f) : ¬f.Blameless := by
  cases h with
  | stage prepared fault mem breaks =>
    cases breaks <;> exact Fault.not_blameless_invariant
  | unmapped | inputFlag => exact Fault.not_blameless_invariant
  | refused | noText => exact Fault.not_blameless_exception

theorem named_of_mem_builtin {skill : Skill} (h : skill ∈ Catalogue.builtin) :
    ∀ spec ∈ skill.parameters, spec.name ≠ Inherited.parentKey :=
  (Skill.Parsed.builtin h).coherent.named

theorem Prepared.breakdown (h : c.Prepared request session ctx stages r)
    (hhandlers : c.handlers = .builtin) (hskills : session.Knows (· ∈ Catalogue.builtin))
    (hf : ¬f.Blameless)
    (hfault : (stages.foldlM (advance c.handlers (c.view ctx r)) {} >>= (conclude · ctx)) =
      .error f) : c.Breakdown request session f := by
  -- Once all stages contribute only the mappings can fail, and before that only a stage can.
  obtain ⟨cs, p, hcs, hp, hsound⟩ | ⟨g, hcs, hg⟩ := h.advance_cases hhandlers
  · rw [hp] at hfault
    obtain ⟨track, skill, label, hmaps, hlabel, rfl⟩ :=
      (hsound.conclude_error (Nat.succ_pos _)).mp hfault
    exact .unmapped h hp hmaps hlabel
  · rw [hg] at hfault
    obtain rfl : g = f := Except.error.inj hfault
    obtain ⟨s, hs, hcontribution⟩ := exists_of_mapM_error hcs
    obtain hblameless | hbreaks :=
      contribution_error hhandlers (h.ready hskills) h.nodup_ids h.reserved hs hcontribution
    · exact absurd hblameless hf
    · exact .stage h hcs hs hbreaks

theorem breakdown_of_plan (hhandlers : c.handlers = .builtin)
    (hskills : session.Knows (· ∈ Catalogue.builtin)) (hf : ¬f.Blameless)
    (h : c.plan request session = .error f) : c.Breakdown request session f := by
  obtain hctx | ⟨ctx, hctx, h⟩ := bind_eq_error.mp h
  · obtain ⟨path, why, rfl⟩ | ⟨path, hpath, e, rfl, hlook⟩ := RequestContext.resolve_error hctx
    · exact absurd ⟨_, rfl, nofun⟩ hf
    · exact .refused hctx hpath hlook
  obtain h | ⟨a, -, hpure⟩ := bind_eq_error.mp h
  · obtain hstages | ⟨stages, hstages, h⟩ := bind_eq_error.mp h
    · cases Expansion.steps_halt (s := session.note [started request.steps]) hskills
        (fun _ hskill => named_of_mem_builtin hskill) hstages with
      | configuration cause => exact absurd ⟨_, rfl, nofun⟩ hf
      | request cause => exact absurd ⟨_, rfl, nofun⟩ hf
      | noText htextless => exact .noText hctx hstages htextless
    obtain hr | ⟨r, hr, h⟩ := bind_eq_error.mp h
    · have hready := Expansion.steps_ready (s := session.note [started request.steps]) hskills
        hstages
      exact absurd (reservations_blameless hhandlers hready hr) hf
    have hprepared : c.Prepared request session ctx stages r := ⟨hctx, hstages, hr⟩
    exact hprepared.breakdown hhandlers hskills hf h
  · cases hpure

theorem Prepared.plan_eq_error (h : c.Prepared request session ctx stages r)
    (hfault : (stages.foldlM (advance c.handlers (c.view ctx r)) {} >>= (conclude · ctx)) =
      .error f) : c.plan request session = .error f := by
  have hassembly : c.assembly ctx stages = .error f :=
    bind_eq_error.mpr (.inr ⟨r, h.reserved, hfault⟩)
  have hstages := bind_eq_error.mpr (.inr ⟨stages, h.expanded, hassembly⟩)
  exact bind_eq_error.mpr (.inr ⟨ctx, h.resolved, bind_eq_error.mpr (.inl hstages)⟩)

/-- Compiling with the built-in skills and handlers, and reading off the argument list, breaks down
in the ways that are listed, and in no others: all other faults are those of skills, requests and
paths. -/
theorem argv_eq_error_iff (hhandlers : c.handlers = .builtin)
    (hskills : session.Knows (· ∈ Catalogue.builtin)) :
    (c.argv request session = .error f ∧ ¬f.Blameless) ↔ c.Breakdown request session f := by
  have hplan : ((c.compile request).run session).1.result = .error f ↔
      c.plan request session = .error f := by
    rw [compile_result, map_eq_error]
  rw [argv, bind_eq_error, hplan]
  constructor
  · rintro ⟨h | ⟨d, hd, hargv⟩, hf⟩
    · exact breakdown_of_plan hhandlers hskills hf h
    · obtain ⟨hflag, rfl⟩ := Descriptor.argv_eq_error.mp hargv
      exact .inputFlag hd hflag
  · intro h
    refine ⟨?_, h.not_blameless⟩
    -- Each way leads to its fault, since nothing before it in the compilation fails.
    cases h with
    | stage prepared fault mem breaks =>
      obtain ⟨cs, p, hcs, -⟩ | ⟨g, hcs, hg⟩ := prepared.advance_cases hhandlers
      · cases hcs.symm.trans fault
      · obtain rfl := Except.error.inj (hcs.symm.trans fault)
        exact .inl (prepared.plan_eq_error (bind_eq_error.mpr (.inl hg)))
    | unmapped prepared advanced maps output =>
      obtain ⟨cs, p, -, hp, hsound⟩ | ⟨g, -, hg⟩ := prepared.advance_cases hhandlers
      · obtain rfl := Except.ok.inj (hp.symm.trans advanced)
        have hconclude := (hsound.conclude_error (Nat.succ_pos _)).mpr
          ⟨_, _, _, maps, output, rfl⟩
        exact .inl (prepared.plan_eq_error (bind_eq_error.mpr (.inr ⟨p, hp, hconclude⟩)))
      · cases hg.symm.trans advanced
    | inputFlag compiled mem => exact .inr ⟨_, compiled, Descriptor.argv_eq_error.mpr ⟨mem, rfl⟩⟩
    | refused unresolved => exact .inl (bind_eq_error.mpr (.inl unresolved))
    | noText resolved stopped =>
      exact .inl (bind_eq_error.mpr
        (.inr ⟨_, resolved, bind_eq_error.mpr (.inl (bind_eq_error.mpr (.inl stopped)))⟩))

/-- A bitrate that reads as the option before an input. -/
def bitrateRequest : Request where
  steps := [⟨"bitrate", [("video", .string "-i")]⟩]
  context := ⟨"/in.mp4", "/out.mp4", [], none, none, none, none, none, none, none, [], none⟩

set_option maxRecDepth 100000 in
theorem argv_bitrateRequest :
    mirrorCompiler.argv bitrateRequest { registry := .ofSkills Catalogue.builtin } =
      .error (.invariant .inputFlag) := by
  have hflags : ((((mirrorCompiler.compile bitrateRequest).run
      { registry := .ofSkills Catalogue.builtin }).1.result).map (·.outputFlags)).toOption =
        some ["-b:v", "-i"] := by decide +kernel
  refine ((argv_eq_error_iff rfl (Session.knows_ofSkills fun _ hskill => hskill)).mpr ?_).1
  cases hresult : ((mirrorCompiler.compile bitrateRequest).run
      { registry := .ofSkills Catalogue.builtin }).1.result with
  | error f => cases hresult ▸ hflags
  | ok d =>
    rw [hresult] at hflags
    have heq : d.outputFlags = ["-b:v", "-i"] := Option.some.inj hflags
    exact .inputFlag hresult (by rw [heq]; decide)

end Compiler

end SkillPipeline
