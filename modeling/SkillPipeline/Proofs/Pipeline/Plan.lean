import SkillPipeline.Pipeline.Compiler
import SkillPipeline.Proofs.Work
import SkillPipeline.Pipeline.Context
import SkillPipeline.Proofs.Files.Access
import SkillPipeline.Proofs.Outcome

namespace SkillPipeline

open Work

namespace Assembly

variable {table : HandlerTable} {view : Stage → HandlerContext} {p : Progress}

def advance (table : HandlerTable) (view : Stage → HandlerContext) (p : Progress) (s : Stage) :
    Except Fault Progress :=
  (contribution table (view s) s).2 >>= add p s

@[simp] theorem guarded_eq_ok {s : Stage} {r : Except Fault Contribution} {c : Contribution} :
    guarded s r = .ok c ↔ r = .ok c := by
  cases r with
  | ok a => rfl
  | error f => cases f <;> exact ⟨nofun, nofun⟩

/-- A fault of a stage is that of its handler, or comes of an exception in it. -/
theorem guarded_eq_error {s : Stage} {r : Except Fault Contribution} {f : Fault}
    (h : guarded s r = .error f) :
    (r = .error f ∧ ∀ e, f ≠ .exception e) ∨ ∃ e, r = .error (.exception e) ∧
      f = .invariant (.handlerFailed s.skill.name e.message) := by
  cases r with
  | ok a => cases h
  | error g =>
    cases g with
    | exception e => exact .inr ⟨e, rfl, (Except.error.inj h).symm⟩
    | _ =>
      obtain rfl := Except.error.inj h
      exact .inl ⟨rfl, nofun⟩

theorem addAll_settles {stages : List Stage} :
    Settles (addAll table view p stages) (stages.foldlM (advance table view) p) := by
  induction stages generalizing p with
  | nil => exact settles_pure p
  | cons s rest ih =>
    rw [addAll, List.foldlM_cons, advance]
    cases contribution table (view s) s with
    | mk notices result => exact ((settles_ofExcept _).bind fun _ => ih).after_modify

/-- Whether there is audio in the output, given what the stages have come to. -/
def Progress.keepsAudio (p : Progress) (ctx : Context) : Bool :=
  (ctx.hasAudio || p.audioReplaced) && !audioDisabled (FlagGroup.dedupe p.outputFlags)

/-- The warnings of a command, the last of which may say that audio filters are in vain. -/
def Progress.allWarnings (p : Progress) (ctx : Context) : List String :=
  p.warnings ++ ((discardReason? p (audioDisabled (FlagGroup.dedupe p.outputFlags))
    (p.keepsAudio ctx)).map ("audio filters discarded: " ++ ·)).toList

def conclude (p : Progress) (ctx : Context) : Except Fault Assembly := do
  let (_, merged) ← p.merger.finalize (p.keepsAudio ctx)
  let maps := mappings p merged (p.keepsAudio ctx)
  checkMappings p merged (maps.map (·.text))
  return ⟨FlagGroup.dedupe p.inputFlags, FlagGroup.dedupe p.outputFlags, merged, maps,
    p.keepsAudio ctx, p.allWarnings ctx⟩

theorem finish_settles {ctx : Context} {count : Nat} :
    Settles (finish p ctx count) (conclude p ctx) := by
  refine Settles.after_modify ((settles_ofExcept _).bind fun merged => ?_)
  exact (settles_ofExcept _).bind fun _ => (settles_pure _).after_modify

end Assembly

namespace Compiler

/-- What each stage sees of the context, given the inputs that are reserved. -/
def view (c : Compiler) (ctx : Context) (r : Reservations) (s : Stage) : HandlerContext :=
  ctx.handlerView c.files (r.ownedByOthers s.id) (r.ownedBy s.id)

/-- The inputs that the stages reserve, none of which sees any of its own yet. -/
def reservations (c : Compiler) (ctx : Context) (stages : List Stage) : Except Fault Reservations :=
  reserve c.handlers (fun taken => ctx.handlerView c.files taken []) stages

def assembly (c : Compiler) (ctx : Context) (stages : List Stage) : Except Fault Assembly := do
  let r ← c.reservations ctx stages
  let p ← stages.foldlM (Assembly.advance c.handlers (c.view ctx r)) {}
  Assembly.conclude p ctx

theorem assemble_settles {c : Compiler} {ctx : Context} {stages : List Stage} :
    Settles (c.assemble ctx stages) (c.assembly ctx stages) :=
  (settles_ofExcept _).bind fun _ => Assembly.addAll_settles.bind fun _ => Assembly.finish_settles

/-- The stages of a request, which depend on the skills of the session. -/
def stages (request : Request) (session : Session) : Except Fault (List Stage) :=
  ((Expansion.steps false 0 request.steps).run (session.note [started request.steps])).1.2

/-- The context and the assembly that a request comes to. -/
def plan (c : Compiler) (request : Request) (session : Session) :
    Except Fault (Context × Assembly) := do
  let ctx ← request.context.resolve c.files c.defaults
  let a ← stages request session >>= c.assembly ctx
  return (ctx, a)

/-- What the parameters of the steps become. They stay as they are if there is no context. -/
def rewritten (c : Compiler) (request : Request) (session : Session) : List (Members Value) :=
  match request.context.resolve c.files c.defaults with
  | .error _ => request.steps.map (·.params)
  | .ok _ =>
    ((Expansion.steps false 0 request.steps).run (session.note [started request.steps])).1.1

theorem compile_run (c : Compiler) (request : Request) (session : Session) :
    ((c.compile request).run session).1 =
      ⟨(c.plan request session).map fun (ctx, a) => a.descriptor c.binary ctx,
        c.rewritten request session⟩ := by
  rw [plan, rewritten, compile, StateT.run_bind, StateT.run_modify, pure_bind]
  cases hctx : request.context.resolve c.files c.defaults with
  | error f => rfl
  | ok ctx =>
    dsimp only
    rw [stages, StateT.run_bind]
    cases hrun : (Expansion.steps false 0 request.steps).run (session.note [started request.steps])
      with
    | mk answer session' =>
      obtain ⟨params, result⟩ := answer
      cases result with
      | error f => rfl
      | ok stages =>
        have hsettles : ((c.assemble ctx stages).run.run session').1 = c.assembly ctx stages :=
          assemble_settles session'
        change (⟨((c.assemble ctx stages).run.run session').1.map _, params⟩ : Compiled) =
          ⟨(c.assembly ctx stages >>= fun a => pure (ctx, a)).map _, params⟩
        rw [hsettles]
        cases c.assembly ctx stages <;> rfl

theorem compile_result (c : Compiler) (request : Request) (session : Session) :
    ((c.compile request).run session).1.result =
      (c.plan request session).map fun (ctx, a) => a.descriptor c.binary ctx := by
  rw [compile_run]

end Compiler

end SkillPipeline

namespace SkillPipeline

open Outcome

variable {c : RequestContext} {files : FileSystem} {d : MediaDefaults} {f : Fault}

theorem RequestContext.index_bounds {ctx : Context} (h : c.resolve files d = .ok ctx) :
    ∀ e ∈ ctx.extras, 0 < e.index ∧ e.index ≤ ctx.extras.length := by
  simp only [resolve, bind_eq_ok, pure_eq_ok, mapM_eq_ok] at h
  obtain ⟨extras, hextras, -, -, -, -, rfl⟩ := h
  intro e he
  obtain ⟨⟨path, i⟩, hi, hextra⟩ := exists_of_mem_right hextras he
  obtain ⟨resolved, -, rfl⟩ : ∃ resolved, files.accept path .media = .ok resolved ∧
      (⟨i + 1, resolved, _, _⟩ : ExtraInput) = e := by
    simpa only [extraAt, bind_eq_ok, pure_eq_ok] using hextra
  have hlength : extras.length = c.extraInputs.length := by
    rw [← hextras.length_eq, List.length_zipIdx]
  have hlt : i < c.extraInputs.length := by simpa using (List.mem_zipIdx hi).2.1
  exact ⟨Nat.succ_pos i, hlength.symm ▸ Nat.succ_le_of_lt hlt⟩

theorem RequestContext.index_le {ctx : Context} (h : c.resolve files d = .ok ctx) :
    ∀ e ∈ ctx.extras, e.index ≤ ctx.extras.length := fun e he => (index_bounds h e he).2

theorem RequestContext.hasAudio_of_resolve {ctx : Context} (h : c.resolve files d = .ok ctx) :
    ctx.hasAudio = c.hasAudio?.getD true := by
  simp only [resolve, bind_eq_ok, pure_eq_ok] at h
  obtain ⟨-, -, -, -, -, -, rfl⟩ := h
  rfl

/-- A request without a context is refused for one of its paths, or the system refuses to look at
one of its inputs. -/
theorem RequestContext.resolve_error (h : c.resolve files d = .error f) :
    (∃ path why, f = .sanitization path why) ∨ ∃ path ∈ c.input :: c.extraInputs,
      ∃ e, f = .exception (.system e) ∧ files.lookUp (files.resolve path) = .error e := by
  obtain hextras | ⟨extras, -, h⟩ := bind_eq_error.mp h
  · obtain ⟨⟨path, i⟩, hpath, hextra⟩ := exists_of_mapM_error hextras
    obtain haccept | ⟨resolved, -, hpure⟩ := bind_eq_error.mp hextra
    · obtain ⟨why, rfl⟩ | ⟨-, hrefused⟩ := FileSystem.of_accept_eq_error haccept
      · exact .inl ⟨_, _, rfl⟩
      · exact .inr ⟨path, List.mem_cons_of_mem _ (List.fst_mem_of_mem_zipIdx hpath), hrefused⟩
    · cases hpure
  · obtain hinput | ⟨input, -, h⟩ := bind_eq_error.mp h
    · obtain ⟨why, rfl⟩ | ⟨-, hrefused⟩ := FileSystem.of_accept_eq_error hinput
      · exact .inl ⟨_, _, rfl⟩
      · exact .inr ⟨c.input, List.mem_cons_self, hrefused⟩
    · obtain houtput | ⟨output, -, hpure⟩ := bind_eq_error.mp h
      · obtain ⟨why, rfl⟩ := FileSystem.of_acceptOutput_eq_error houtput
        exact .inl ⟨_, _, rfl⟩
      · cases hpure

end SkillPipeline
