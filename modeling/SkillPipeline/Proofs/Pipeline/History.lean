import Mathlib.Data.List.Induction
import SkillPipeline.Proofs.Pipeline.Repetition

namespace SkillPipeline

open Work

section Assembling

variable {x : Index} {ctx : Context} {stages : List Stage}

/-- The work leaves a session over the skills over them. -/
def Work.Keeps {α : Type} (x : Index) (w : Work α) : Prop :=
  Ensures (Session.Over x) (fun _ => True) w fun _ => True

theorem Work.keeps_note (notices : List Notice) :
    Keeps x (modify (·.note notices) : Work PUnit) := fun _ hs => ⟨hs, trivial⟩

theorem Work.keeps_ofExcept {α : Type} (result : Except Fault α) :
    Keeps x (MonadExcept.ofExcept result) := by
  cases result with
  | error f => exact ensures_throw trivial
  | ok a => exact ensures_pure trivial

theorem Assembly.addAll_keeps {table : HandlerTable} {view : Stage → HandlerContext}
    {p : Progress} : Keeps x (addAll table view p stages) := by
  induction stages generalizing p with
  | nil => exact ensures_pure trivial
  | cons s rest ih =>
    rw [addAll]
    refine (keeps_note _).bind fun _ _ => ?_
    exact (keeps_ofExcept _).bind fun _ _ => ih

theorem Assembly.finish_keeps {p : Progress} {count : Nat} : Keeps x (finish p ctx count) := by
  refine (keeps_note _).bind fun _ _ => (keeps_ofExcept _).bind fun merged _ => ?_
  exact (keeps_ofExcept _).bind fun _ _ => (keeps_note _).bind fun _ _ => ensures_pure trivial

theorem Compiler.assemble_keeps {c : Compiler} : Keeps x (c.assemble ctx stages) := by
  refine (keeps_ofExcept _).bind fun r _ => ?_
  exact Assembly.addAll_keeps.bind fun p _ => Assembly.finish_keeps

end Assembling

namespace Compiler

variable {x : Index} {c : Compiler} {s : Session}

theorem compile_over (hs : s.Over x) (request : Request) :
    ((c.compile request).run s).2.Over x := by
  rw [compile, StateT.run_bind, StateT.run_modify, pure_bind]
  cases request.context.resolve c.files c.defaults with
  | error f => exact hs
  | ok ctx =>
    have hnoted : (s.note [started request.steps]).Over x := hs
    obtain ⟨hkept, -⟩ := Expansion.steps_congr hnoted hnoted request.steps
    dsimp only
    rw [StateT.run_bind]
    cases hr : (Expansion.steps false 0 request.steps).run (s.note [started request.steps]) with
    | mk answer t =>
      rw [hr] at hkept
      obtain ⟨params, result⟩ := answer
      cases result with
      | error f => exact hkept
      | ok stages => exact (assemble_keeps t hkept).1

/-- The issue of a numbered step that comes to this, if it fails. An exception is no issue. -/
def issueOf (p : Step × Nat) : Except Fault (List Stage) → Except Exception (Option String)
  | .ok _ => .ok none
  | .error (.exception e) => .error e
  | .error f => .ok (some (stepIssue p.2 p.1 f))

def tryStep (p : Step × Nat) : ExceptT Exception (StateM Session) (Option String) := do
  match (← Expansion.step false p.2 p.1).2 with
  | .ok _ => return none
  | .error (.exception e) => throw e
  | .error f => return some (stepIssue p.2 p.1 f)

theorem stepIssues_eq (steps : List Step) :
    stepIssues steps = do return (← steps.zipIdx.mapM tryStep).filterMap id := rfl

theorem tryStep_eq (p : Step × Nat) (s : Session) :
    (tryStep p).run.run s = (issueOf p ((Expansion.step false p.2 p.1).run s).1.2,
      ((Expansion.step false p.2 p.1).run s).2) := by
  cases hr : (Expansion.step false p.2 p.1).run s with
  | mk answer t =>
    obtain ⟨raw, result⟩ := answer
    have hlift : (monadLift (Expansion.step false p.2 p.1) :
        ExceptT Exception (StateM Session) _).run.run s = (.ok (raw, result), t) := by
      change (Except.ok <$> Expansion.step false p.2 p.1 : StateM Session _).run s = _
      rw [StateT.run_map, hr]
      rfl
    change ((monadLift (Expansion.step false p.2 p.1) :
        ExceptT Exception (StateM Session) _) >>= _).run.run s = _
    rw [ExceptT.run_bind, Work.run_bind_eq hlift]
    cases result with
    | ok stages => rfl
    | error f => cases f <;> rfl

/-- What trying a numbered step alone comes to, over some skills. -/
def tried (x : Index) (p : Step × Nat) : Except Exception (Option String) :=
  issueOf p (Expansion.alone x p.1)

theorem tryStep_run (hs : s.Over x) (p : Step × Nat) :
    ((tryStep p).run.run s).1 = tried x p ∧ ((tryStep p).run.run s).2.Over x := by
  obtain ⟨hkept, hfault⟩ := Expansion.step_over hs p
  rw [tryStep_eq, tried]
  refine ⟨?_, hkept⟩
  dsimp only
  cases halone : Expansion.alone x p.1 with
  | error f => rw [(hfault f).mpr halone]
  | ok stages =>
    cases hresult : ((Expansion.step false p.2 p.1).run s).1.2 with
    | error f => cases halone.symm.trans ((hfault f).mp hresult)
    | ok stages' => rfl

/-- The issues of the steps are those of each alone, up to the first exception, whatever was done
before. -/
theorem stepIssues_run (hs : s.Over x) (steps : List Step) :
    ((stepIssues steps).run.run s).1 =
        (steps.zipIdx.mapM (tried x)).map (·.filterMap id) ∧
      ((stepIssues steps).run.run s).2.Over x := by
  obtain ⟨hanswers, hkept⟩ := mapM_run_except (fun p _ _ ht => tryStep_run ht p) hs
    (l := steps.zipIdx)
  rw [stepIssues_eq, bind_pure_comp, run_map, hanswers]
  exact ⟨rfl, hkept⟩

theorem validate_over (hs : s.Over x) (request : Request) :
    ((c.validate request).run s).2.Over x := by
  obtain ⟨-, hkept⟩ := stepIssues_run hs request.steps
  cases hr : (stepIssues request.steps).run.run s with
  | mk issues t =>
    rw [hr] at hkept
    have hcompiled := compile_over (c := c) hkept request
    rw [validate, Work.run_bind_eq hr]
    rcases issues with e | _ | ⟨first, rest⟩
    · exact hkept
    · cases hcompile : (c.compile request).run t with
      | mk compiled t' =>
        rw [hcompile] at hcompiled
        dsimp only
        rw [Work.run_bind_eq hcompile]
        obtain ⟨result, params⟩ := compiled
        rcases result with f | d
        · cases f <;> exact hcompiled
        · exact hcompiled
    · exact hkept

end Compiler

inductive Usage where
  | register (skill : Skill)
  | update (skills : List Skill)
  | assertAcyclic (name : String)
  | verify
  | compile (c : Compiler) (request : Request)
  | validate (c : Compiler) (request : Request)

namespace Usage

/-- What it leaves of the session, also if it fails. -/
def run : Usage → Session → Session
  | register skill, s => s.register skill
  | update skills, s => s.update skills
  | assertAcyclic name, s => ((Session.reading (Registry.assertAcyclic name).run).run s).2
  | verify, s => ((Session.reading Registry.verify).run s).2
  | compile c request, s => ((c.compile request).run s).2
  | validate c request, s => ((c.validate request).run s).2

def given : Usage → List Skill
  | register skill => [skill]
  | update skills => skills
  | _ => []

def Looks : Usage → Prop
  | register _ | update _ => False
  | _ => True

variable {u : Usage} {s : Session} {x : Index}

theorem run_over (h : u.Looks) (hs : s.Over x) : (u.run s).Over x := by
  obtain ⟨rfl, hsound⟩ := hs
  cases u with
  | register skill => exact h.elim
  | update skills => exact h.elim
  | assertAcyclic name => exact (Registry.searchFrom_spec hsound name).2
  | verify => exact (Registry.verify_run hsound).2
  | compile c request => exact Compiler.compile_over ⟨rfl, hsound⟩ request
  | validate c request => exact Compiler.validate_over ⟨rfl, hsound⟩ request

theorem run_sound (hs : s.registry.Sound) : (u.run s).registry.Sound := by
  cases u with
  | register skill => exact Registry.sound_changed _
  | update skills => exact Registry.sound_changed _
  | assertAcyclic name => exact (Registry.searchFrom_spec hs name).2.2
  | verify => exact (Registry.verify_run hs).2.2
  | compile c request => exact (Compiler.compile_over ⟨rfl, hs⟩ request).2
  | validate c request => exact (Compiler.validate_over ⟨rfl, hs⟩ request).2

end Usage

namespace Session

/-- An empty session after all that was done in it, one thing after the other. -/
def after (history : List Usage) : Session := history.foldl (fun s u => u.run s) {}

theorem after_concat (history : List Usage) (u : Usage) :
    after (history ++ [u]) = u.run (after history) := by
  rw [after, List.foldl_append]
  rfl

/-- Whatever was done, the registry remembers nothing wrong. -/
theorem sound_after (history : List Usage) : (after history).registry.Sound := by
  induction history using List.reverseRecOn with
  | nil =>
    intro name hname
    cases hname
  | append_singleton history u ih =>
    rw [after_concat]
    exact Usage.run_sound ih

theorem over_after (history : List Usage) :
    (after history).Over (after history).registry.index := ⟨rfl, sound_after history⟩

theorem knows_after {K : Skill → Prop} {history : List Usage}
    (h : ∀ u ∈ history, ∀ skill ∈ u.given, K skill) : (after history).Knows K := by
  -- On the last thing done; an update builds the index of old and new skills.
  induction history using List.reverseRecOn with
  | nil =>
    intro skill hskill
    cases hskill
  | append_singleton history u ih =>
    have hold : (after history).Knows K := ih fun v hv => h v (List.mem_append_left _ hv)
    have hnew := h u (List.mem_append_right _ (List.mem_singleton_self u))
    have hlooks (hu : u.Looks) : (u.run (after history)).Knows K := by
      rw [Knows, Registry.list, (Usage.run_over hu (over_after history)).1]
      exact hold
    rw [after_concat]
    cases u with
    | register skill =>
      intro other hother
      obtain rfl | hmem := Index.mem_add hother
      · exact hnew other (List.mem_singleton_self other)
      · exact hold other hmem
    | update skills =>
      intro other hother
      obtain hrebuilt | hmem := Index.mem_of_mem_foldl_add hother
      · obtain hnone | hmem := Index.mem_of_mem_foldl_add hrebuilt
        · cases hnone
        · exact hold other hmem
      · exact hnew other hmem
    | assertAcyclic name => exact hlooks trivial
    | verify => exact hlooks trivial
    | compile c request => exact hlooks trivial
    | validate c request => exact hlooks trivial

theorem index_after_append (history queries : List Usage) (h : ∀ u ∈ queries, u.Looks) :
    (after (history ++ queries)).registry.index = (after history).registry.index := by
  induction queries using List.reverseRecOn with
  | nil => rw [List.append_nil]
  | append_singleton queries u ih =>
    have hqueries : ∀ v ∈ queries, v.Looks := fun v hv => h v (List.mem_append_left _ hv)
    have hlast : u.Looks := h u (List.mem_append_right _ (List.mem_singleton_self u))
    rw [← List.append_assoc, after_concat, ← ih hqueries]
    exact (Usage.run_over hlast (over_after (history ++ queries))).1

end Session

end SkillPipeline
