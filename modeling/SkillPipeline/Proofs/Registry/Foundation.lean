import Mathlib.Data.List.Nodup
import SkillPipeline.Proofs.Outcome
import SkillPipeline.Registry.Basic

namespace SkillPipeline

namespace Index

variable {x : Index} {name other : String} {skill : Skill} {m n : Nat}

theorem get?_name (h : x.get? name = some skill) : x.get? skill.name = some skill := by
  have hfind (found : String) (hfound : x.find? found = some skill) :
      x.get? skill.name = some skill := by
    have hname : skill.name = found := by simpa using List.find?_some hfound
    rw [get?, hname, hfound, Option.some_or]
  obtain hfound | ⟨-, halias⟩ := Option.or_eq_some_iff.mp h
  · exact hfind name hfound
  · obtain ⟨found, -, hfound⟩ := Option.bind_eq_some_iff.mp halias
    exact hfind found hfound

theorem name_mem_of_get? (h : x.get? name = some skill) : skill.name ∈ x.skills.map (·.name) := by
  refine List.mem_map.mpr ⟨skill, ?_, rfl⟩
  obtain hfound | ⟨-, halias⟩ := Option.or_eq_some_iff.mp h
  · exact List.mem_of_find?_eq_some hfound
  · obtain ⟨found, -, hfound⟩ := Option.bind_eq_some_iff.mp halias
    exact List.mem_of_find?_eq_some hfound

/-- The skill that a name means is there, and so is every skill that it calls, in chains of fewer
than `n` calls. -/
def Within (x : Index) : Nat → String → Prop
  | 0, _ => False
  | n + 1, name => ∃ skill, x.get? name = some skill ∧ ∀ call ∈ skill.calls, x.Within n call.skill

/-- The skill that a name means can be expanded. -/
def Founded (x : Index) (name : String) : Prop := ∃ n, x.Within n name

theorem Within.mono (h : x.Within m name) (hmn : m ≤ n) : x.Within n name := by
  induction m generalizing n name with
  | zero => exact h.elim
  | succ m ih =>
    obtain ⟨n, rfl⟩ : ∃ k, n = k + 1 := ⟨n - 1, by omega⟩
    obtain ⟨skill, hget, hcalls⟩ := h
    exact ⟨skill, hget, fun call hcall => ih (hcalls call hcall) (by omega)⟩

theorem within_congr (h : x.get? name = x.get? other) : x.Within n name ↔ x.Within n other := by
  cases n with
  | zero => exact Iff.rfl
  | succ n => rw [Within, Within, h]

theorem founded_congr (h : x.get? name = x.get? other) : x.Founded name ↔ x.Founded other :=
  exists_congr fun _ => within_congr h

/-- Finitely many names that can be expanded need no more than some number of calls. -/
theorem exists_within {names : List String} (h : ∀ name ∈ names, x.Founded name) :
    ∃ n, ∀ name ∈ names, x.Within n name := by
  induction names with
  | nil => exact ⟨0, by simp⟩
  | cons name rest ih =>
    obtain ⟨⟨m, hm⟩, hrest⟩ := List.forall_mem_cons.mp h
    obtain ⟨n, hn⟩ := ih hrest
    have hall : ∀ other ∈ rest, x.Within (max m n) other := fun other hother =>
      (hn other hother).mono (Nat.le_max_right m n)
    exact ⟨max m n, List.forall_mem_cons.mpr ⟨hm.mono (Nat.le_max_left m n), hall⟩⟩

theorem founded_iff (hget : x.get? name = some skill) :
    x.Founded name ↔ ∀ call ∈ skill.calls, x.Founded call.skill := by
  constructor
  · rintro ⟨n, hn⟩ call hcall
    cases n with
    | zero => exact hn.elim
    | succ n =>
      obtain ⟨found, hfound, hcalls⟩ := hn
      obtain rfl : skill = found := Option.some.inj (hget.symm.trans hfound)
      exact ⟨n, hcalls call hcall⟩
  · intro h
    have hnames : ∀ name ∈ skill.calls.map (·.skill), x.Founded name := by
      intro name hname
      obtain ⟨call, hcall, rfl⟩ := List.mem_map.mp hname
      exact h call hcall
    obtain ⟨n, hn⟩ := exists_within hnames
    exact ⟨n + 1, skill, hget, fun call hcall => hn call.skill (List.mem_map_of_mem hcall)⟩

theorem Founded.exists_skill (h : x.Founded name) : ∃ skill, x.get? name = some skill := by
  obtain ⟨n, hn⟩ := h
  cases n with
  | zero => exact hn.elim
  | succ n =>
    obtain ⟨skill, hget, -⟩ := hn
    exact ⟨skill, hget⟩

/-- Sub-pipelines above a name, none met twice and none of which the name leads back to. -/
structure Above (x : Index) (n : Nat) (path : List String) : Prop where
  nodup : path.Nodup
  known : ∀ caller ∈ path, caller ∈ x.skills.map (·.name)
  outside : ∀ caller ∈ path, ¬x.Within n caller

theorem Above.length_le {path : List String} (h : x.Above n path) :
    path.length ≤ x.skills.length := by
  have hlength := h.nodup.length_le_of_subset h.known
  rwa [List.length_map] at hlength

theorem Above.lower {path : List String} (h : x.Above (n + 1) path) : x.Above n path :=
  ⟨h.nodup, h.known, fun caller hcaller hwithin =>
    h.outside caller hcaller (hwithin.mono (Nat.le_succ n))⟩

theorem Above.concat {path : List String} (h : x.Above (n + 1) path)
    (hget : x.get? name = some skill) (hwithin : x.Within (n + 1) name)
    (hnot : ¬x.Within n name) : skill.name ∉ path ∧ x.Above n (path ++ [skill.name]) := by
  have hsame : x.get? skill.name = x.get? name := (get?_name hget).trans hget.symm
  have hnew : skill.name ∉ path := fun hmem =>
    h.outside skill.name hmem ((within_congr hsame).mpr hwithin)
  refine ⟨hnew, ?_, ?_, ?_⟩
  · rw [← List.concat_eq_append]
    exact (List.nodup_concat ..).mpr ⟨hnew, h.nodup⟩
  · intro caller hcaller
    obtain hold | hlast := List.mem_append.mp hcaller
    · exact h.known caller hold
    · rw [List.mem_singleton.mp hlast]
      exact name_mem_of_get? hget
  · intro caller hcaller
    obtain hold | hlast := List.mem_append.mp hcaller
    · exact h.lower.outside caller hold
    · rw [List.mem_singleton.mp hlast, within_congr hsame]
      exact hnot

theorem Within.of_above {path : List String} {depth : Nat} (h : x.Within n name)
    (hpath : x.Above n path) (hdepth : x.skills.length ≤ depth + path.length) :
    x.Within depth name := by
  -- On the calls needed; a skill that needs fewer than said is left to the hypothesis as it is.
  induction n generalizing name path depth with
  | zero => exact h.elim
  | succ n ih =>
    by_cases hless : x.Within n name
    · exact ih hless hpath.lower hdepth
    · obtain ⟨skill, hget, hcalls⟩ := h
      obtain ⟨-, hnext⟩ := hpath.concat hget ⟨skill, hget, hcalls⟩ hless
      have hlength := hnext.length_le
      rw [List.length_append, List.length_singleton] at hlength
      obtain ⟨depth, rfl⟩ : ∃ k, depth = k + 1 := ⟨depth - 1, by omega⟩
      refine ⟨skill, hget, fun call hcall => ih (hcalls call hcall) hnext ?_⟩
      rw [List.length_append, List.length_singleton]
      omega

theorem above_nil : x.Above n [] := ⟨List.nodup_nil, by simp, by simp⟩

theorem Founded.within (h : x.Founded name) : x.Within x.skills.length name := by
  obtain ⟨n, hn⟩ := h
  exact hn.of_above above_nil (Nat.le_refl _)

end Index

namespace Registry

open Outcome

variable {r : Registry} {name : String} {skill : Skill}

theorem require_eq_ok : r.require name = .ok skill ↔ r.index.get? name = some skill := by
  rw [require, Registry.get?]
  cases r.index.get? name <;> simp

theorem calls_of_not_isPipeline (h : skill.isPipeline = false) : skill.calls = [] := by
  rw [Skill.isPipeline] at h
  rw [Skill.calls]
  split
  · next hs => simp [hs] at h
  · rfl

def Remembers (x : Index) (passed : List String) : Prop := ∀ name ∈ passed, x.Founded name

/-- What the registry remembers as free of cycles is so. -/
def Sound (r : Registry) : Prop := Remembers r.index r.acyclic

theorem sound_changed (x : Index) : (r.changed x).Sound := by
  intro name hname
  cases hname

theorem sound_ofSkills (skills : List Skill) : (ofSkills skills).Sound := by
  have hall (r : Registry) (h : r.Sound) : (skills.foldl register r).Sound := by
    induction skills generalizing r with
    | nil => exact h
    | cons s rest ih => exact ih _ (sound_changed _)
  refine hall {} fun name hname => ?_
  cases hname

theorem remembers_remember {x : Index} {passed : List String} (h : Remembers x passed)
    (hname : x.Founded name) : Remembers x (remember name passed) := by
  rw [remember]
  split
  · exact h
  · intro other hother
    obtain hold | hlast := List.mem_append.mp hother
    · exact h other hold
    · rwa [List.mem_singleton.mp hlast]

/-- The search remembers only what is so, and if it succeeds something is the case. -/
def Finds (x : Index) (w : Search Unit) (P : Prop) : Prop :=
  ∀ passed, Remembers x passed →
    Remembers x (w.run.run passed).2 ∧ ((w.run.run passed).1 = .ok () → P)

def Succeeds (x : Index) (w : Search Unit) : Prop :=
  ∀ passed, Remembers x passed → (w.run.run passed).1 = .ok ()

theorem search_bind {w k : Search Unit} (passed : List String) :
    (do w; k : Search Unit).run.run passed =
      match (w.run.run passed).1 with
      | .ok () => k.run.run (w.run.run passed).2
      | .error f => (.error f, (w.run.run passed).2) := by
  rw [ExceptT.run_bind, StateT.run_bind]
  cases hw : w.run.run passed with
  | mk outcome passed' => cases outcome <;> rfl

theorem forM_cons_eq (f : Call → Search Unit) (call : Call) (rest : List Call) :
    (call :: rest).forM f = (do f call; rest.forM f) := rfl

theorem Finds.forM {x : Index} {f : Call → Search Unit} {P : Call → Prop} {calls : List Call}
    (h : ∀ call ∈ calls, Finds x (f call) (P call)) :
    Finds x (calls.forM f) (∀ call ∈ calls, P call) := by
  induction calls with
  | nil => exact fun passed hpassed => ⟨hpassed, fun _ => by simp⟩
  | cons call rest ih =>
    obtain ⟨hcall, hrest⟩ := List.forall_mem_cons.mp h
    intro passed hpassed
    obtain ⟨hkept, hfound⟩ := hcall passed hpassed
    obtain ⟨hlast, hothers⟩ := ih hrest _ hkept
    rw [forM_cons_eq, search_bind]
    cases hrun : ((f call).run.run passed).1 with
    | error f => exact ⟨hkept, fun heq => by cases heq⟩
    | ok done => exact ⟨hlast, fun heq => List.forall_mem_cons.mpr ⟨hfound hrun, hothers heq⟩⟩

theorem Succeeds.forM {x : Index} {f : Call → Search Unit} {P : Call → Prop} {calls : List Call}
    (hfinds : ∀ call ∈ calls, Finds x (f call) (P call)) (h : ∀ call ∈ calls, Succeeds x (f call)) :
    Succeeds x (calls.forM f) := by
  induction calls with
  | nil => exact fun _ _ => rfl
  | cons call rest ih =>
    obtain ⟨hcall, hrest⟩ := List.forall_mem_cons.mp h
    obtain ⟨hfind, hothers⟩ := List.forall_mem_cons.mp hfinds
    intro passed hpassed
    rw [forM_cons_eq, search_bind, hcall passed hpassed]
    exact ih hothers hrest _ (hfind passed hpassed).1

theorem visit_of_require {depth : Nat} {path : List String} (h : r.require name = .ok skill)
    (passed : List String) :
    (r.visit (depth + 1) path name).run.run passed =
      if !skill.isPipeline || passed.contains skill.name then (.ok (), passed)
      else if path.contains skill.name then
        (.error (.cyclic (path ++ [skill.name]) skill.name), passed)
      else
        (do skill.calls.forM fun call => r.visit depth (path ++ [skill.name]) call.skill
            modify (remember skill.name) : Search Unit).run.run passed := by
  rw [visit, h]
  change ((if !skill.isPipeline || passed.contains skill.name then pure ()
    else if path.contains skill.name then throw (.cyclic (path ++ [skill.name]) skill.name)
    else do
      skill.calls.forM fun call => r.visit depth (path ++ [skill.name]) call.skill
      modify (remember skill.name) : Search Unit).run.run passed) = _
  split
  · rfl
  · split <;> rfl

theorem visit_finds (depth : Nat) (path : List String) (name : String) :
    Finds r.index (r.visit depth path name) (r.index.Founded name) := by
  -- On the room for calls; what is remembered grows by the name once its calls have passed.
  induction depth generalizing path name with
  | zero => exact fun passed hpassed => ⟨hpassed, fun h => by cases h⟩
  | succ depth ih =>
    intro passed hpassed
    cases hrequire : r.require name with
    | error f =>
      rw [visit, hrequire]
      exact ⟨hpassed, fun h => by cases h⟩
    | ok skill =>
      have hget := require_eq_ok.mp hrequire
      have hsame : r.index.get? skill.name = r.index.get? name :=
        (Index.get?_name hget).trans hget.symm
      rw [visit_of_require hrequire]
      split
      · next hskip =>
        refine ⟨hpassed, fun _ => ?_⟩
        obtain hleaf | hknown := Bool.or_eq_true_iff.mp hskip
        · rw [Index.founded_iff hget, calls_of_not_isPipeline (by simpa using hleaf)]
          simp
        · exact (Index.founded_congr hsame).mp
            (hpassed skill.name (List.contains_iff_mem.mp hknown))
      · split
        · exact ⟨hpassed, fun h => by cases h⟩
        · have hcalls : Finds r.index
              (skill.calls.forM fun call => r.visit depth (path ++ [skill.name]) call.skill)
              (∀ call ∈ skill.calls, r.index.Founded call.skill) :=
            Finds.forM fun call _ => ih (path ++ [skill.name]) call.skill
          obtain ⟨hkept, hfound⟩ := hcalls passed hpassed
          rw [search_bind]
          cases hrun : ((skill.calls.forM fun call =>
              r.visit depth (path ++ [skill.name]) call.skill).run.run passed).1 with
          | error f => exact ⟨hkept, fun h => by cases h⟩
          | ok done =>
            have hfounded := (Index.founded_iff hget).mpr (hfound hrun)
            exact ⟨remembers_remember hkept ((Index.founded_congr hsame).mpr hfounded),
              fun _ => hfounded⟩

theorem visit_succeeds {n depth : Nat} {path : List String} (h : r.index.Within n name)
    (hdepth : n ≤ depth) (hpath : r.index.Above n path) :
    Succeeds r.index (r.visit depth path name) := by
  -- On the calls needed, as for the length of chains.
  induction n generalizing name path depth with
  | zero => exact h.elim
  | succ n ih =>
    by_cases hless : r.index.Within n name
    · exact ih hless (by omega) hpath.lower
    · obtain ⟨skill, hget, hcalls⟩ := h
      obtain ⟨hnew, hnext⟩ := hpath.concat hget ⟨skill, hget, hcalls⟩ hless
      obtain ⟨depth, rfl⟩ : ∃ k, depth = k + 1 := ⟨depth - 1, by omega⟩
      intro passed hpassed
      have hagain : path.contains skill.name = false := by simpa using hnew
      have hbelow : Succeeds r.index (skill.calls.forM fun call =>
          r.visit depth (path ++ [skill.name]) call.skill) :=
        Succeeds.forM (fun call _ => visit_finds depth _ call.skill)
          fun call hcall => ih (hcalls call hcall) (by omega) hnext
      rw [visit_of_require (require_eq_ok.mpr hget)]
      split
      · rfl
      · rw [hagain, if_neg Bool.false_ne_true, search_bind, hbelow passed hpassed]
        rfl

/-- The search decides whether a skill can be expanded. What the registry remembers stays true, and
its skills stay what they are. -/
theorem searchFrom_spec (h : r.Sound) (name : String) :
    ((r.searchFrom name).1 = .ok () ↔ r.index.Founded name) ∧
      (r.searchFrom name).2.index = r.index ∧ (r.searchFrom name).2.Sound := by
  obtain ⟨hkept, hfound⟩ := visit_finds (r.size + 2) [] name r.acyclic h
  refine ⟨⟨hfound, fun hfounded => ?_⟩, rfl, hkept⟩
  have hdepth : r.index.skills.length ≤ r.size + 2 := Nat.le_add_right _ 2
  exact visit_succeeds hfounded.within hdepth Index.above_nil r.acyclic h

end Registry

end SkillPipeline
