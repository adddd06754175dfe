import Mathlib.Logic.Function.Basic
import SkillPipeline.Catalogue.Text
import SkillPipeline.Proofs.Pipeline.Descent

namespace SkillPipeline

/-- Cells with parameters, of which those before `next` are in use. -/
structure Memory where
  next : Nat
  cell : Nat → Members Value

namespace Memory

def write (m : Memory) (i : Nat) (params : Members Value) : Memory :=
  { m with cell := Function.update m.cell i params }

def grown (m : Memory) (params : Members Value) : Memory :=
  ⟨m.next + 1, Function.update m.cell m.next params⟩

/-- The cells that one memory uses are in the other as they were. -/
structure Within (m m' : Memory) : Prop where
  next_le : m.next ≤ m'.next
  kept : ∀ i < m.next, m'.cell i = m.cell i

variable {m m' m'' : Memory} {i : Nat} {params : Members Value}

theorem Within.refl (m : Memory) : m.Within m := ⟨Nat.le_refl _, fun _ _ => rfl⟩

theorem Within.trans (h : m.Within m') (h' : m'.Within m'') : m.Within m'' := by
  have hle := h.next_le
  refine ⟨hle.trans h'.next_le, fun i hi => ?_⟩
  rw [h'.kept i (by omega), h.kept i hi]

theorem within_grown : m.Within (m.grown params) := by
  refine ⟨Nat.le_succ _, fun i hi => ?_⟩
  exact Function.update_of_ne (by omega) _ _

theorem Within.write (h : m.Within m') (hi : m.next ≤ i) : m.Within (m'.write i params) := by
  refine ⟨h.next_le, fun j hj => ?_⟩
  rw [← h.kept j hj]
  exact Function.update_of_ne (by omega) _ _

end Memory

/-- A step whose parameters are in a cell. -/
structure HeldStep where
  skill : String
  cell : Nat

namespace HeldStep

def read (m : Memory) (h : HeldStep) : Step := ⟨h.skill, m.cell h.cell⟩

def copy (m : Memory) (h : HeldStep) : HeldStep × Memory :=
  (⟨h.skill, m.next⟩, m.grown (m.cell h.cell))

def copies : List HeldStep → Memory → List HeldStep × Memory
  | [], m => ([], m)
  | h :: rest, m =>
    let (copied, m) := h.copy m
    let (others, m) := copies rest m
    (copied :: others, m)

end HeldStep

namespace Expansion

/-- Expands steps in place, up to the first fault, with sub-pipelines in front if they are to be
kept. -/
def expandIn (keep : Bool) (position : Nat) :
    List HeldStep → Session → Memory → Except Fault (List Stage) × Session × Memory
  | [], s, m => (.ok [], s, m)
  | h :: rest, s, m =>
    let ((raw, result), s) := (step keep position (h.read m)).run s
    let m := m.write h.cell raw
    match result with
    | .error f => (.error f, s, m)
    | .ok stages =>
      let (result, s, m) := expandIn keep (position + 1) rest s m
      (result.map (stages ++ ·), s, m)

end Expansion

namespace Compiler

open Expansion

/-- What a check comes to if no step fails and compiling comes to this. -/
def verdict : Except Fault Descriptor → Validation
  | .ok _ => .report ⟨[]⟩
  | .error (.exception e) => .exception e
  | .error f => .report ⟨[f.message]⟩

end Compiler

namespace HeldStep

variable {m m' : Memory} {held copied : List HeldStep}

theorem read_congr (h : ∀ step ∈ held, m'.cell step.cell = m.cell step.cell) :
    held.map (·.read m') = held.map (·.read m) := by
  apply List.map_congr_left
  intro step hstep
  rw [read, read, h step hstep]

/-- Copies read as what they are copies of, and are in cells of their own. -/
structure Copies (held : List HeldStep) (m : Memory) (copied : List HeldStep) (m' : Memory) :
    Prop where
  within : m.Within m'
  reads : copied.map (·.read m') = held.map (·.read m)
  nodup : (copied.map (·.cell)).Nodup
  fresh : ∀ step ∈ copied, m.next ≤ step.cell ∧ step.cell < m'.next

theorem Copies.cons {first : HeldStep} (hheld : ∀ step ∈ held, step.cell < m.next)
    (h : Copies held (m.grown (m.cell first.cell)) copied m') :
    Copies (first :: held) m (⟨first.skill, m.next⟩ :: copied) m' := by
  have hgrown : m.Within (m.grown (m.cell first.cell)) := Memory.within_grown
  have hlater : ∀ step ∈ copied, m.next + 1 ≤ step.cell ∧ step.cell < m'.next := h.fresh
  have hroom : m.next + 1 ≤ m'.next := h.within.next_le
  have hcopied : m'.cell m.next = m.cell first.cell := by
    rw [h.within.kept m.next (Nat.lt_succ_self _)]
    exact Function.update_self ..
  constructor
  · exact hgrown.trans h.within
  · have hsame := read_congr fun step hstep => hgrown.kept step.cell (hheld step hstep)
    rw [List.map_cons, List.map_cons, h.reads, hsame, read, read, hcopied]
  · rw [List.map_cons, List.nodup_cons]
    refine ⟨fun hmem => ?_, h.nodup⟩
    obtain ⟨step, hstep, hcell⟩ := List.mem_map.mp hmem
    have hnext : step.cell = m.next := hcell
    have := hlater step hstep
    omega
  · intro step hstep
    obtain rfl | hstep := List.mem_cons.mp hstep
    · exact ⟨Nat.le_refl _, hroom⟩
    · have := hlater step hstep
      omega

theorem copies_spec (hheld : ∀ step ∈ held, step.cell < m.next) :
    Copies held m (copies held m).1 (copies held m).2 := by
  induction held generalizing m with
  | nil => exact ⟨.refl m, rfl, List.nodup_nil, by simp [copies]⟩
  | cons first rest ih =>
    obtain ⟨-, hrest⟩ := List.forall_mem_cons.mp hheld
    refine Copies.cons hrest (ih fun step hstep => ?_)
    exact Nat.lt_succ_of_lt (hrest step hstep)

end HeldStep

namespace Expansion

variable {m m' : Memory} {held : List HeldStep}

/-- The cells of some steps hold these parameters, and nothing else has been written. -/
structure Rewritten (held : List HeldStep) (params : List (Members Value)) (m m' : Memory) :
    Prop where
  holds : (held.map fun h => m'.cell h.cell) = params
  next_eq : m'.next = m.next
  others : ∀ i, i ∉ held.map (·.cell) → m'.cell i = m.cell i

theorem Rewritten.within {m₀ : Memory} {params : List (Members Value)}
    (h : Rewritten held params m m') (hm : m₀.Within m)
    (hheld : ∀ step ∈ held, m₀.next ≤ step.cell) : m₀.Within m' := by
  constructor
  · rw [h.next_eq]
    exact hm.next_le
  · intro i hi
    rw [← hm.kept i hi]
    apply h.others
    intro hmem
    obtain ⟨step, hstep, hcell⟩ := List.mem_map.mp hmem
    have hle : m₀.next ≤ i := hcell ▸ hheld step hstep
    omega

theorem Rewritten.cons {first : HeldStep} {raw : Members Value} {params : List (Members Value)}
    (hfirst : first.cell ∉ held.map (·.cell))
    (h : Rewritten held params (m.write first.cell raw) m') :
    Rewritten (first :: held) (raw :: params) m m' := by
  refine ⟨?_, h.next_eq, fun i hi => ?_⟩
  · rw [List.map_cons, h.holds, h.others first.cell hfirst]
    exact congrArg (· :: params) (Function.update_self ..)
  · rw [List.map_cons, List.mem_cons, not_or] at hi
    rw [h.others i hi.2]
    exact Function.update_of_ne hi.1 _ _

theorem Rewritten.refl (held : List HeldStep) (m : Memory) :
    Rewritten held ((held.map (·.read m)).map (·.params)) m m := by
  refine ⟨?_, rfl, fun _ _ => rfl⟩
  rw [List.map_map]
  rfl

/-- Steps in different cells come in place to what they come to by themselves, and their cells then
hold what their parameters have become. -/
theorem expandIn_spec (keep : Bool) (position : Nat) (s : Session) (m : Memory)
    (hnodup : (held.map (·.cell)).Nodup) :
    ((expandIn keep position held s m).1, (expandIn keep position held s m).2.1) =
        (((steps keep position (held.map (·.read m))).run s).1.2,
          ((steps keep position (held.map (·.read m))).run s).2) ∧
      Rewritten held ((steps keep position (held.map (·.read m))).run s).1.1 m
        (expandIn keep position held s m).2.2 := by
  -- On the steps: writing the cell of the first leaves what the others read as it was.
  induction held generalizing position s m with
  | nil => exact ⟨rfl, rfl, rfl, fun _ _ => rfl⟩
  | cons first rest ih =>
    rw [List.map_cons, List.nodup_cons] at hnodup
    obtain ⟨hfirst, hrest⟩ := hnodup
    cases hr : (step keep position (first.read m)).run s with
    | mk answer t =>
      obtain ⟨raw, result⟩ := answer
      have hwritten : ∀ h ∈ rest, (m.write first.cell raw).cell h.cell = m.cell h.cell := by
        intro h hh
        apply Function.update_of_ne
        intro heq
        exact hfirst (List.mem_map.mpr ⟨h, hh, heq⟩)
      have hsame := HeldStep.read_congr hwritten
      rw [List.map_cons, steps, Work.run_bind_eq hr, expandIn, hr]
      cases result with
      | error f =>
        have hrewritten := Rewritten.refl rest (m.write first.cell raw)
        rw [hsame] at hrewritten
        exact ⟨rfl, hrewritten.cons hfirst⟩
      | ok stages =>
        obtain ⟨hrun, hrewritten⟩ := ih (position + 1) t (m.write first.cell raw) hrest
        rw [hsame] at hrun hrewritten
        obtain ⟨hresult, hsession⟩ := Prod.mk.inj hrun
        dsimp only
        rw [StateT.run_bind]
        refine ⟨?_, hrewritten.cons hfirst⟩
        rw [hresult, hsession]
        rfl

end Expansion

namespace Compiler

open Expansion

variable {c : Compiler} {held : List HeldStep}

end Compiler

end SkillPipeline
