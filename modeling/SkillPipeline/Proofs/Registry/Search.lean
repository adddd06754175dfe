import Mathlib.Data.Fintype.Card
import Mathlib.Data.Set.Finite.List
import Mathlib.Logic.Relation
import SkillPipeline.Proofs.Pipeline.Expansion
import SkillPipeline.Proofs.Registry.Foundation

namespace SkillPipeline

theorem Skill.isPipeline_of_mem_calls {skill : Skill} {call : Call} (h : call ∈ skill.calls) :
    skill.isPipeline = true := by
  cases hp : skill.isPipeline with
  | true => rfl
  | false =>
    rw [Registry.calls_of_not_isPipeline hp] at h
    cases h

namespace Index

open Relation

variable {x : Index} {name : String} {skill callee : Skill}

/-- One skill calls the other, by its name or by an alias. -/
def Invokes (x : Index) (caller callee : Skill) : Prop :=
  ∃ call ∈ caller.calls, x.get? call.skill = some callee

/-- A name means a skill from which chains of calls lead to this one. -/
def Reaches (x : Index) (name : String) (skill : Skill) : Prop :=
  ∃ first, x.get? name = some first ∧ ReflTransGen x.Invokes first skill

/-- The name is known, and so is every name that a skill calls which it reaches. -/
def Resolves (x : Index) (name : String) : Prop :=
  (∃ first, x.get? name = some first) ∧
    ∀ skill, x.Reaches name skill → ∀ call ∈ skill.calls, ∃ callee, x.get? call.skill = some callee

/-- No sub-pipeline that the name reaches can reach itself. -/
def LoopFree (x : Index) (name : String) : Prop :=
  ∀ skill, x.Reaches name skill → skill.isPipeline = true → ¬TransGen x.Invokes skill skill

theorem Reaches.get?_name (h : x.Reaches name skill) : x.get? skill.name = some skill := by
  obtain ⟨first, hfirst, hpath⟩ := h
  obtain rfl | ⟨caller, -, call, -, hget⟩ := ReflTransGen.cases_tail hpath
  · exact Index.get?_name hfirst
  · exact Index.get?_name hget

theorem Reaches.invokes (h : x.Reaches name skill) (hcall : x.Invokes skill callee) :
    x.Reaches name callee := by
  obtain ⟨first, hfirst, hpath⟩ := h
  exact ⟨first, hfirst, hpath.tail hcall⟩

theorem Founded.of_reaches (h : x.Founded name) (hreach : x.Reaches name skill) :
    x.Founded skill.name := by
  obtain ⟨first, hfirst, hpath⟩ := hreach
  induction hpath with
  | refl => exact (founded_congr ((Index.get?_name hfirst).trans hfirst.symm)).mpr h
  | @tail caller callee hpath hcall ih =>
    have hcaller : x.get? caller.name = some caller := Reaches.get?_name ⟨first, hfirst, hpath⟩
    obtain ⟨call, hmem, hget⟩ := hcall
    rw [founded_congr ((Index.get?_name hget).trans hget.symm)]
    exact (founded_iff hcaller).mp ih call hmem

theorem not_within_of_loop {n : Nat} (hloop : TransGen x.Invokes skill skill)
    (hget : x.get? name = some skill) : ¬x.Within n name := by
  induction n generalizing name skill with
  | zero => exact id
  | succ n ih =>
    rintro ⟨found, hfound, hcalls⟩
    obtain rfl : skill = found := Option.some.inj (hget.symm.trans hfound)
    -- The next skill of the loop lies on the same loop, with one call less to go.
    obtain ⟨next, hfirst, hback⟩ := TransGen.head'_iff.mp hloop
    have hnext : TransGen x.Invokes next next := TransGen.tail' hback hfirst
    obtain ⟨call, hmem, hcallee⟩ := hfirst
    exact ih hnext hcallee (hcalls call hmem)

theorem Founded.loopFree (h : x.Founded name) : x.LoopFree name := by
  intro skill hreach _ hloop
  obtain ⟨n, hn⟩ := h.of_reaches hreach
  exact not_within_of_loop hloop hreach.get?_name hn

theorem Founded.resolves (h : x.Founded name) : x.Resolves name := by
  refine ⟨h.exists_skill, fun skill hreach call hcall => ?_⟩
  have hskill := h.of_reaches hreach
  exact ((founded_iff hreach.get?_name).mp hskill call hcall).exists_skill

/-- Skills that lead to others and never back are finitely many, so chains among them end. -/
theorem LoopFree.wellFounded (h : x.LoopFree name) :
    WellFounded fun callee caller : { skill // x.Reaches name skill ∧ skill ∈ x.skills } =>
      TransGen x.Invokes caller.1 callee.1 := by
  have : Finite { skill // x.Reaches name skill ∧ skill ∈ x.skills } :=
    ((List.finite_toSet x.skills).subset fun skill hskill => hskill.2).to_subtype
  have : Std.Irrefl fun callee caller : { skill // x.Reaches name skill ∧ skill ∈ x.skills } =>
      TransGen x.Invokes caller.1 callee.1 := by
    refine ⟨fun skill hloop => ?_⟩
    obtain ⟨next, ⟨call, hmem, -⟩, -⟩ := TransGen.head'_iff.mp hloop
    exact h skill.1 skill.2.1 (Skill.isPipeline_of_mem_calls hmem) hloop
  have : IsTrans { skill // x.Reaches name skill ∧ skill ∈ x.skills } fun callee caller =>
      TransGen x.Invokes caller.1 callee.1 := ⟨fun _ _ _ hbc hab => hab.trans hbc⟩
  exact Finite.wellFounded_of_trans_of_irrefl _

theorem founded_of_resolves (hknown : x.Resolves name) (hfree : x.LoopFree name) :
    x.Founded name := by
  obtain ⟨⟨first, hfirst⟩, hcalls⟩ := hknown
  have hall (skill : { skill // x.Reaches name skill ∧ skill ∈ x.skills }) :
      x.Founded skill.1.name := by
    induction skill using hfree.wellFounded.induction with
    | _ skill ih =>
      refine (founded_iff skill.2.1.get?_name).mpr fun call hcall => ?_
      obtain ⟨callee, hget⟩ := hcalls skill.1 skill.2.1 call hcall
      have hstep : x.Invokes skill.1 callee := ⟨call, hcall, hget⟩
      rw [founded_congr ((Index.get?_name hget).symm ▸ hget)]
      exact ih ⟨callee, skill.2.1.invokes hstep, mem_of_get? hget⟩ (.single hstep)
  rw [founded_congr (hfirst.trans (Index.get?_name hfirst).symm)]
  exact hall ⟨first, ⟨first, hfirst, .refl⟩, mem_of_get? hfirst⟩

/-- A name can be expanded if all is known that it reaches, and nothing there leads back. -/
theorem founded_iff_loopFree : x.Founded name ↔ x.Resolves name ∧ x.LoopFree name :=
  ⟨fun h => ⟨h.resolves, h.loopFree⟩, fun ⟨hknown, hfree⟩ => founded_of_resolves hknown hfree⟩

end Index

end SkillPipeline

namespace SkillPipeline

/-- Sub-pipelines above a name: all are there, and none is met twice. -/
structure Index.Trail (x : Index) (path : List String) : Prop where
  nodup : path.Nodup
  known : ∀ caller ∈ path, caller ∈ x.skills.map (·.name)

namespace Index.Trail

variable {x : Index} {path : List String}

theorem nil : x.Trail [] := ⟨List.nodup_nil, by simp⟩

theorem length_le (h : x.Trail path) : path.length ≤ x.skills.length := by
  have hlength := h.nodup.length_le_of_subset h.known
  rwa [List.length_map] at hlength

theorem concat (h : x.Trail path) {name : String} {skill : Skill} (hget : x.get? name = some skill)
    (hnew : skill.name ∉ path) : x.Trail (path ++ [skill.name]) := by
  constructor
  · rw [← List.concat_eq_append]
    exact (List.nodup_concat ..).mpr ⟨hnew, h.nodup⟩
  · intro caller hcaller
    obtain hold | hlast := List.mem_append.mp hcaller
    · exact h.known caller hold
    · rw [List.mem_singleton.mp hlast]
      exact name_mem_of_get? hget

end Index.Trail

namespace Registry

variable {r r' : Registry} {name : String} {names path passed passed' : List String}
  {skill : Skill} {outcome : Except ConfigurationFault Unit}

/-- A search goes below a name: that of a sub-pipeline which is neither passed nor above. -/
structure Enters (r : Registry) (path passed : List String) (name : String) (skill : Skill) :
    Prop where
  found : r.require name = .ok skill
  pipeline : skill.isPipeline = true
  fresh : skill.name ∉ passed
  outside : skill.name ∉ path

/-- The search from some names, one after the other, with `path` the sub-pipelines above them: from
what it remembers first, it comes to an outcome and to what it remembers then. Nothing bounds how
deep it goes. -/
inductive Follows (r : Registry) : List String → List String → List String →
    Except ConfigurationFault Unit → List String → Prop
  | done {path passed : List String} : Follows r path [] passed (.ok ()) passed
  | unknown {path passed rest : List String} {name : String} {f : ConfigurationFault}
      (h : r.require name = .error f) : Follows r path (name :: rest) passed (.error f) passed
  | skipped {path passed passed' rest : List String} {name : String} {skill : Skill}
      {outcome : Except ConfigurationFault Unit} (h : r.require name = .ok skill)
      (hskip : skill.isPipeline = false ∨ skill.name ∈ passed)
      (hrest : Follows r path rest passed outcome passed') :
      Follows r path (name :: rest) passed outcome passed'
  | again {path passed rest : List String} {name : String} {skill : Skill}
      (h : r.require name = .ok skill) (hpipeline : skill.isPipeline = true)
      (hfresh : skill.name ∉ passed) (hagain : skill.name ∈ path) :
      Follows r path (name :: rest) passed (.error (.cyclic (path ++ [skill.name]) skill.name))
        passed
  | stopped {path passed passed' rest : List String} {name : String} {skill : Skill}
      {f : ConfigurationFault} (h : r.Enters path passed name skill)
      (hbelow : Follows r (path ++ [skill.name]) (skill.calls.map (·.skill)) passed (.error f)
        passed') :
      Follows r path (name :: rest) passed (.error f) passed'
  | through {path passed passed' passed'' rest : List String} {name : String} {skill : Skill}
      {outcome : Except ConfigurationFault Unit} (h : r.Enters path passed name skill)
      (hbelow :
        Follows r (path ++ [skill.name]) (skill.calls.map (·.skill)) passed (.ok ()) passed')
      (hrest : Follows r path rest (remember skill.name passed') outcome passed'') :
      Follows r path (name :: rest) passed outcome passed''

namespace Follows

theorem eq_of_nil (h : r.Follows path [] passed outcome passed') :
    outcome = .ok () ∧ passed' = passed := by
  cases h
  exact ⟨rfl, rfl⟩

theorem cons_ok {rest passed'' : List String} (h : r.Follows path [name] passed (.ok ()) passed')
    (hrest : r.Follows path rest passed' outcome passed'') :
    r.Follows path (name :: rest) passed outcome passed'' := by
  cases h with
  | skipped h hskip hnil =>
    obtain ⟨-, rfl⟩ := hnil.eq_of_nil
    exact .skipped h hskip hrest
  | through h hbelow hnil =>
    obtain ⟨-, rfl⟩ := hnil.eq_of_nil
    exact .through h hbelow hrest

theorem cons_error {rest : List String} {f : ConfigurationFault}
    (h : r.Follows path [name] passed (.error f) passed') :
    r.Follows path (name :: rest) passed (.error f) passed' := by
  cases h with
  | unknown h => exact .unknown h
  | skipped h hskip hnil => cases hnil.eq_of_nil.1
  | again h hpipeline hfresh hagain => exact .again h hpipeline hfresh hagain
  | stopped h hbelow => exact .stopped h hbelow
  | through h hbelow hnil => cases hnil.eq_of_nil.1

theorem unique {outcome' : Except ConfigurationFault Unit} {passed'' : List String}
    (h : r.Follows path names passed outcome passed')
    (h' : r.Follows path names passed outcome' passed'') :
    outcome = outcome' ∧ passed' = passed'' := by
  -- On the first search; each of its steps leaves the second one no other.
  induction h generalizing outcome' passed'' with
  | done => exact ⟨h'.eq_of_nil.1.symm, h'.eq_of_nil.2.symm⟩
  | unknown h => cases h' <;> grind [Enters]
  | skipped h hskip hrest ih => cases h' <;> grind [Enters]
  | again h hpipeline hfresh hagain => cases h' <;> grind [Enters]
  | stopped h hbelow ih => cases h' <;> grind [Enters]
  | through h hbelow hrest ihbelow ihrest => cases h' <;> grind [Enters]

end Follows

theorem forM_follows {f : Call → Search Unit} {calls : List Call}
    (h : ∀ call ∈ calls, ∀ passed, r.Follows path [call.skill] passed
      ((f call).run.run passed).1 ((f call).run.run passed).2) (passed : List String) :
    r.Follows path (calls.map (·.skill)) passed ((calls.forM f).run.run passed).1
      ((calls.forM f).run.run passed).2 := by
  induction calls generalizing passed with
  | nil => exact .done
  | cons call rest ih =>
    obtain ⟨hcall, hrest⟩ := List.forall_mem_cons.mp h
    have hfirst := hcall passed
    rw [forM_cons_eq, search_bind, List.map_cons]
    cases hrun : ((f call).run.run passed).1 with
    | error f =>
      rw [hrun] at hfirst
      exact hfirst.cons_error
    | ok done =>
      rw [hrun] at hfirst
      exact hfirst.cons_ok (ih hrest _)

/-- With room for a path without repetitions, the search does what the unbounded one does. -/
theorem visit_follows {depth : Nat} (hpath : r.index.Trail path)
    (hroom : r.size < depth + path.length) (name : String) (passed : List String) :
    r.Follows path [name] passed ((r.visit depth path name).run.run passed).1
      ((r.visit depth path name).run.run passed).2 := by
  -- On the room for calls: without room the path would be longer than the registry is large.
  induction depth generalizing path name passed with
  | zero =>
    have hlength := hpath.length_le
    rw [size] at hroom
    omega
  | succ depth ih =>
    cases hrequire : r.require name with
    | error f =>
      rw [visit, hrequire]
      exact .unknown hrequire
    | ok skill =>
      rw [visit_of_require hrequire]
      split
      · next hskip =>
        refine .skipped hrequire ?_ .done
        simpa using hskip
      · next hskip =>
        obtain ⟨hpipeline, hfresh⟩ : skill.isPipeline = true ∧ skill.name ∉ passed := by
          simpa using hskip
        split
        · next hagain => exact .again hrequire hpipeline hfresh (List.contains_iff_mem.mp hagain)
        · next hagain =>
          have houtside : skill.name ∉ path := by simpa using hagain
          have henters : r.Enters path passed name skill :=
            ⟨hrequire, hpipeline, hfresh, houtside⟩
          have hnext := hpath.concat (require_eq_ok.mp hrequire) houtside
          have hroom' : r.size < depth + (path ++ [skill.name]).length := by
            rw [List.length_append, List.length_singleton]
            omega
          have hbelow : r.Follows (path ++ [skill.name]) (skill.calls.map (·.skill)) passed _ _ :=
            forM_follows (fun call _ => ih hnext hroom' call.skill) passed
          rw [search_bind]
          cases hrun : ((skill.calls.forM fun call =>
              r.visit depth (path ++ [skill.name]) call.skill).run.run passed).1 with
          | error f =>
            rw [hrun] at hbelow
            exact .stopped henters hbelow
          | ok done =>
            rw [hrun] at hbelow
            exact .through henters hbelow .done

/-- The search from a name is the unbounded search, which ends. -/
theorem follows_iff : r.Follows [] [name] r.acyclic outcome passed ↔
    outcome = (r.searchFrom name).1 ∧ passed = (r.searchFrom name).2.acyclic := by
  have hfollows : r.Follows [] [name] r.acyclic (r.searchFrom name).1
      (r.searchFrom name).2.acyclic := by
    have hroom : r.size < r.size + 2 + ([] : List String).length := by simp
    exact visit_follows Index.Trail.nil hroom name r.acyclic
  constructor
  · exact fun h => h.unique hfollows
  · rintro ⟨rfl, rfl⟩
    exact hfollows

theorem visit_congr (h : r.index = r'.index) (depth : Nat) (path : List String) (name : String) :
    r.visit depth path name = r'.visit depth path name := by
  have hrequire (name : String) : r.require name = r'.require name := by
    simp only [require, get?, suggestions, search, h]
  induction depth generalizing path name with
  | zero => rfl
  | succ depth ih =>
    rw [visit, visit, hrequire]
    simp only [ih]

/-- The search comes to the same, whatever it remembers that is true. -/
def Steady (x : Index) (w : Search Unit) : Prop :=
  ∀ passed passed', Remembers x passed → Remembers x passed' →
    (w.run.run passed).1 = (w.run.run passed').1

theorem Steady.forM {x : Index} {f : Call → Search Unit} {P : Call → Prop} {calls : List Call}
    (hfinds : ∀ call ∈ calls, Finds x (f call) (P call)) (h : ∀ call ∈ calls, Steady x (f call)) :
    Steady x (calls.forM f) := by
  induction calls with
  | nil => exact fun _ _ _ _ => rfl
  | cons call rest ih =>
    obtain ⟨hcall, hrest⟩ := List.forall_mem_cons.mp h
    obtain ⟨hfind, hothers⟩ := List.forall_mem_cons.mp hfinds
    intro passed passed' hpassed hpassed'
    rw [forM_cons_eq, search_bind, search_bind, hcall passed passed' hpassed hpassed']
    cases ((f call).run.run passed').1 with
    | error f => rfl
    | ok done => exact ih hothers hrest _ _ (hfind passed hpassed).1 (hfind passed' hpassed').1

/-- What cannot be expanded is a sub-pipeline, and the search never passes it by. -/
theorem unpassed_of_not_founded {skill : Skill} (hget : r.index.get? name = some skill)
    (hnot : ¬r.index.Founded name) : ¬r.index.Founded skill.name ∧ ∀ remembered,
      Remembers r.index remembered →
        (!skill.isPipeline || remembered.contains skill.name) = false := by
  have hunfounded : ¬r.index.Founded skill.name := fun h =>
    hnot ((Index.founded_congr ((Index.get?_name hget).trans hget.symm)).mp h)
  have hpipeline : skill.isPipeline = true := by
    by_contra hleaf
    have hcalls := calls_of_not_isPipeline (by simpa using hleaf)
    exact hnot ((Index.founded_iff hget).mpr (by simp [hcalls]))
  refine ⟨hunfounded, fun remembered h => ?_⟩
  have hfresh : skill.name ∉ remembered := fun hmem => hunfounded (h skill.name hmem)
  simp [hpipeline, hfresh]

/-- A search that goes below a sub-pipeline which cannot be expanded comes to the same, whatever it
remembers: what can be expanded is passed in any case, and what cannot is never remembered. -/
theorem visit_steady {depth : Nat} (hpath : r.index.Trail path)
    (hunfounded : ∀ caller ∈ path, ¬r.index.Founded caller)
    (hroom : r.size ≤ depth + path.length) (name : String) :
    Steady r.index (r.visit depth path name) := by
  induction depth generalizing path name with
  | zero => exact fun _ _ _ _ => rfl
  | succ depth ih =>
    intro passed passed' hpassed hpassed'
    have habove (n : Nat) : r.index.Above n path :=
      ⟨hpath.nodup, hpath.known, fun caller hcaller hwithin =>
        hunfounded caller hcaller ⟨n, hwithin⟩⟩
    -- What can be expanded is passed from anywhere, so only the rest has to be followed.
    by_cases hfounded : r.index.Founded name
    · obtain ⟨n, hn⟩ := hfounded
      have hwithin : r.index.Within (depth + 1) name := hn.of_above (habove n) hroom
      have hsucceeds := visit_succeeds hwithin (Nat.le_refl _) (habove (depth + 1))
      rw [hsucceeds passed hpassed, hsucceeds passed' hpassed']
    · cases hrequire : r.require name with
      | error f =>
        rw [visit, hrequire]
        rfl
      | ok skill =>
        have hget := require_eq_ok.mp hrequire
        obtain ⟨hnot, hskip⟩ := unpassed_of_not_founded hget hfounded
        rw [visit_of_require hrequire, visit_of_require hrequire, hskip passed hpassed,
          hskip passed' hpassed', if_neg Bool.false_ne_true, if_neg Bool.false_ne_true]
        split
        · rfl
        · next hagain =>
          have hnext := hpath.concat hget (by simpa using hagain)
          have hothers : ∀ caller ∈ path ++ [skill.name], ¬r.index.Founded caller := by
            intro caller hcaller
            obtain hold | hlast := List.mem_append.mp hcaller
            · exact hunfounded caller hold
            · rw [List.mem_singleton.mp hlast]
              exact hnot
          have hbelow : Steady r.index (skill.calls.forM fun call =>
              r.visit depth (path ++ [skill.name]) call.skill) := by
            refine Steady.forM (fun call _ => visit_finds depth _ call.skill) fun call _ => ?_
            refine ih hnext hothers ?_ call.skill
            rw [List.length_append, List.length_singleton]
            omega
          rw [search_bind, search_bind, hbelow passed passed' hpassed hpassed']
          split <;> rfl

/-- What the search from a name comes to depends on the skills alone. -/
theorem searchFrom_congr (h : r.Sound) (h' : r'.Sound) (hindex : r.index = r'.index)
    (name : String) : (r.searchFrom name).1 = (r'.searchFrom name).1 := by
  have hsize : r.size = r'.size := by rw [size, size, hindex]
  have hsteady : Steady r.index (r.visit (r.size + 2) [] name) :=
    visit_steady Index.Trail.nil (by simp) (Nat.le_add_right r.size 2) name
  have hsound : Remembers r.index r'.acyclic := hindex ▸ h'
  change ((r.visit (r.size + 2) [] name).run.run r.acyclic).1 =
    ((r'.visit (r'.size + 2) [] name).run.run r'.acyclic).1
  rw [← visit_congr hindex, ← hsize]
  exact hsteady r.acyclic r'.acyclic h hsound

/-- What there is to say of a sub-pipeline, if the search from it fails. -/
def problem? (r : Registry) (s : Skill) : Option String :=
  match (r.searchFrom s.name).1 with
  | .ok () => none
  | .error f => some (s.name ++ ": " ++ f.message)

/-- The problems of some skills, whatever is found out on the way. -/
def problems (r : Registry) (skills : List Skill) : List String :=
  (skills.filter (·.isPipeline)).filterMap r.problem?

theorem problems_eq_flatten (skills : List Skill) :
    r.problems skills = (skills.map fun s => r.problems [s]).flatten := by
  induction skills with
  | nil => rfl
  | cons s rest ih =>
    have hcons : r.problems (s :: rest) = r.problems [s] ++ r.problems rest := by
      rw [problems, problems, problems, ← List.filterMap_append, ← List.filter_append,
        List.singleton_append]
    rw [hcons, ih, List.map_cons, List.flatten_cons]

theorem problemOf_run (h : r.Sound) (s : Skill) :
    ((problemOf s).run r).1 = r.problems [s] ∧ ((problemOf s).run r).2.index = r.index ∧
      ((problemOf s).run r).2.Sound := by
  obtain ⟨-, hindex, hkept⟩ := searchFrom_spec h s.name
  cases hpipeline : s.isPipeline with
  | false =>
    have hrun : (problemOf s).run r = ([], r) := by
      rw [problemOf, hpipeline]
      rfl
    rw [hrun]
    exact ⟨by simp [problems, hpipeline], rfl, h⟩
  | true =>
    have hrun : (problemOf s).run r = ((match (r.searchFrom s.name).1 with
        | .ok () => []
        | .error f => [s.name ++ ": " ++ f.message]), (r.searchFrom s.name).2) := by
      rw [problemOf, hpipeline]
      change (match (r.searchFrom s.name).1 with
        | .ok () => pure []
        | .error f => pure [s.name ++ ": " ++ f.message] : StateM Registry (List String)).run
          (r.searchFrom s.name).2 = _
      cases (r.searchFrom s.name).1 <;> rfl
    rw [hrun]
    refine ⟨?_, hindex, hkept⟩
    cases hsearch : (r.searchFrom s.name).1 <;> simp [problems, problem?, hpipeline, hsearch]

theorem problems_congr (h : r.Sound) (h' : r'.Sound) (hindex : r.index = r'.index)
    (skills : List Skill) : r.problems skills = r'.problems skills := by
  have hproblem : r.problem? = r'.problem? := by
    funext s
    rw [problem?, problem?, searchFrom_congr h h' hindex]
  rw [problems, problems, hproblem]

/-- Verifying gives the problem of each sub-pipeline from which the search fails. -/
theorem verify_run (h : r.Sound) :
    (verify.run r).1 = r.problems r.list ∧ (verify.run r).2.index = r.index ∧
      (verify.run r).2.Sound := by
  have hproblem : ∀ s ∈ r.list, ∀ r', r'.index = r.index ∧ r'.Sound →
      ((problemOf s).run r').1 = r.problems [s] ∧
        ((problemOf s).run r').2.index = r.index ∧ ((problemOf s).run r').2.Sound := by
    rintro s - r' ⟨hindex, hsound⟩
    obtain ⟨hanswer, hsame, hkept⟩ := problemOf_run hsound s
    exact ⟨hanswer.trans (problems_congr hsound h hindex [s]), hsame.trans hindex, hkept⟩
  obtain ⟨hanswers, hkept⟩ := Work.mapM_run hproblem ⟨rfl, h⟩
  refine ⟨?_, hkept⟩
  rw [problems_eq_flatten, ← hanswers]
  rfl

end Registry

end SkillPipeline
