import SkillPipeline.Proofs.Pipeline.History

namespace SkillPipeline

/-- The session finds the skill that a name means, and no cycle from there. -/
structure Session.Admits (s : Session) (name : String) (skill : Skill) : Prop where
  found : s.registry.require name = .ok skill
  acyclic : (s.registry.searchFrom skill.name).1 = .ok ()

namespace Expansion

open Work

variable {x : Index} {keep : Bool} {place : Place} {step : Step} {params : Params}
  {rest : List (Place × Step)} {s s' s'' : Session} {outcome : Except Fault (List Stage)}

/-- The calls of a sub-pipeline as steps at their places. -/
def callSteps (place : Place) (params : Params) : List (Place × Step) :=
  params.skill.calls.zipIdx.map fun p =>
    (place.call params.skill.name p.2, callStep params p.1)

/-- The expansion of steps at their places, one after the other: the session before, what the
expansion comes to, and the session after. There is no way for a skill not to be found or to have a
cycle. -/
inductive Opens (keep : Bool) :
    List (Place × Step) → Session → Except Fault (List Stage) → Session → Prop
  | done {s : Session} : Opens keep [] s (.ok []) s
  | rejected {place : Place} {step : Step} {rest : List (Place × Step)} {s s' : Session}
      {skill : Skill} {raw : Members Value} {f : Fault} (hadmits : s.Admits step.skill skill)
      (hprepare : (prepare place step).run s = ((raw, .error f), s')) :
      Opens keep ((place, step) :: rest) s (.error f) s'
  | leaf {place : Place} {step : Step} {rest : List (Place × Step)} {s s' s'' : Session}
      {skill : Skill} {raw : Members Value} {params : Params}
      {outcome : Except Fault (List Stage)} (hadmits : s.Admits step.skill skill)
      (hprepare : (prepare place step).run s = ((raw, .ok params), s'))
      (hleaf : params.skill.isPipeline = false) (hrest : Opens keep rest s' outcome s'') :
      Opens keep ((place, step) :: rest) s
        (outcome.map ([⟨place.id, params, place.depth⟩] ++ ·)) s''
  | stopped {place : Place} {step : Step} {rest : List (Place × Step)} {s s' s'' : Session}
      {skill : Skill} {raw : Members Value} {params : Params} {f : Fault}
      (hadmits : s.Admits step.skill skill)
      (hprepare : (prepare place step).run s = ((raw, .ok params), s'))
      (hpipeline : params.skill.isPipeline = true)
      (hbelow : Opens keep (callSteps place params) s' (.error f) s'') :
      Opens keep ((place, step) :: rest) s (.error f) s''
  | opened {place : Place} {step : Step} {rest : List (Place × Step)} {s s' s'' s''' : Session}
      {skill : Skill} {raw : Members Value} {params : Params} {inner : List Stage}
      {outcome : Except Fault (List Stage)} (hadmits : s.Admits step.skill skill)
      (hprepare : (prepare place step).run s = ((raw, .ok params), s'))
      (hpipeline : params.skill.isPipeline = true)
      (hbelow : Opens keep (callSteps place params) s' (.ok inner) s'')
      (hrest : Opens keep rest s'' outcome s''') :
      Opens keep ((place, step) :: rest) s
        (outcome.map (retained keep place params ++ inner ++ ·)) s'''

namespace Opens

theorem eq_of_nil (h : Opens keep [] s outcome s') : outcome = .ok [] ∧ s' = s := by
  cases h
  exact ⟨rfl, rfl⟩

theorem cons_ok {p : Place × Step} {stages : List Stage} (h : Opens keep [p] s (.ok stages) s')
    (hrest : Opens keep rest s' outcome s'') :
    Opens keep (p :: rest) s (outcome.map (stages ++ ·)) s'' := by
  generalize hanswer : (Except.ok stages : Except Fault (List Stage)) = answer at h
  cases h with
  | rejected hadmits hprepare => cases hanswer
  | leaf hadmits hprepare hleaf hnil =>
    obtain ⟨rfl, rfl⟩ := hnil.eq_of_nil
    cases hanswer
    exact .leaf hadmits hprepare hleaf hrest
  | stopped hadmits hprepare hpipeline hbelow => cases hanswer
  | opened hadmits hprepare hpipeline hbelow hnil =>
    obtain ⟨rfl, rfl⟩ := hnil.eq_of_nil
    have hopened := Opens.opened hadmits hprepare hpipeline hbelow hrest
    cases hanswer
    simpa only [List.append_nil] using hopened

theorem cons_error {p : Place × Step} {f : Fault} (h : Opens keep [p] s (.error f) s') :
    Opens keep (p :: rest) s (.error f) s' := by
  generalize hanswer : (Except.error f : Except Fault (List Stage)) = answer at h
  cases h with
  | rejected hadmits hprepare =>
    cases hanswer
    exact .rejected hadmits hprepare
  | leaf hadmits hprepare hleaf hnil =>
    obtain ⟨rfl, rfl⟩ := hnil.eq_of_nil
    cases hanswer
  | stopped hadmits hprepare hpipeline hbelow =>
    cases hanswer
    exact .stopped hadmits hprepare hpipeline hbelow
  | opened hadmits hprepare hpipeline hbelow hnil =>
    obtain ⟨rfl, rfl⟩ := hnil.eq_of_nil
    cases hanswer

theorem unique {ps : List (Place × Step)} {outcome' : Except Fault (List Stage)}
    (h : Opens keep ps s outcome s') (h' : Opens keep ps s outcome' s'') :
    outcome = outcome' ∧ s' = s'' := by
  -- On the first expansion; each of its steps leaves the second one no other.
  induction h generalizing outcome' s'' with
  | done => exact ⟨h'.eq_of_nil.1.symm, h'.eq_of_nil.2.symm⟩
  | rejected hadmits hprepare => cases h' <;> grind
  | leaf hadmits hprepare hleaf hrest ih => cases h' <;> grind
  | stopped hadmits hprepare hpipeline hbelow ih => cases h' <;> grind
  | opened hadmits hprepare hpipeline hbelow hrest ihbelow ihrest => cases h' <;> grind

end Opens

theorem prepare_of_founded (hs : s.Over x) {skill : Skill} (hfounded : x.Founded step.skill)
    (hget : x.get? step.skill = some skill) (place : Place) :
    s.Admits step.skill skill ∧ ∃ done, done.Over x ∧ (prepare place step).run s =
      (((Params.normalize skill step.params).raw, (Params.normalize skill step.params).result),
        done) := by
  obtain ⟨hkept, hskill⟩ := soundSkill_run step.skill hs
  have hok := (hskill skill).mpr ⟨hfounded, hget⟩
  constructor
  · obtain ⟨rfl, hsound⟩ := hs
    refine ⟨Registry.require_eq_ok.mpr hget, ?_⟩
    obtain ⟨hdecides, -⟩ := Registry.searchFrom_spec hsound skill.name
    rw [hdecides, Index.founded_congr ((Index.get?_name hget).trans hget.symm)]
    exact hfounded
  · cases hr : (soundSkill step.skill).run s with
    | mk answer t =>
      rw [hr] at hok hkept
      obtain rfl : answer = .ok skill := hok
      obtain ⟨done, hregistry, hrun⟩ := prepare_of_ok hr
      exact ⟨done, ⟨hregistry ▸ hkept.1, hregistry ▸ hkept.2⟩, hrun⟩

/-- If each call is expanded without a fault of the skills, so are all of them in turn. -/
theorem mapM_opens {depth : Nat} {l : List (Call × Nat)}
    (h : ∀ p ∈ l, ∀ s, s.Over x →
      ((callStages keep depth place params p).run.run s).2.Over x ∧
        Opens keep [(place.call params.skill.name p.2, callStep params p.1)] s
          ((callStages keep depth place params p).run.run s).1
          ((callStages keep depth place params p).run.run s).2)
    (hs : s.Over x) :
    ((l.mapM (callStages keep depth place params)).run.run s).2.Over x ∧
      Opens keep (l.map fun p => (place.call params.skill.name p.2, callStep params p.1)) s
        (((l.mapM (callStages keep depth place params)).run.run s).1.map List.flatten)
        ((l.mapM (callStages keep depth place params)).run.run s).2 := by
  induction l generalizing s with
  | nil => exact ⟨hs, .done⟩
  | cons p others ih =>
    obtain ⟨hp, hothers⟩ := List.forall_mem_cons.mp h
    obtain ⟨hkept, hfirst⟩ := hp s hs
    have hcons : (p :: others).mapM (callStages keep depth place params) =
        callStages keep depth place params p >>= fun stages =>
          List.cons stages <$> others.mapM (callStages keep depth place params) := by
      simp only [List.mapM_cons, map_eq_pure_bind]
    rw [hcons, List.map_cons, ExceptT.run_bind, StateT.run_bind]
    -- The rest is opened in the session that the first call leaves.
    cases hr : (callStages keep depth place params p).run.run s with
    | mk answer t =>
      rw [hr] at hkept hfirst
      cases answer with
      | error f => exact ⟨hkept, hfirst.cons_error⟩
      | ok stages =>
        obtain ⟨hlast, hrest⟩ := ih hothers hkept
        change ((List.cons stages <$> others.mapM (callStages keep depth place params)).run.run
            t).2.Over x ∧
          Opens keep _ s (((List.cons stages <$> others.mapM
              (callStages keep depth place params)).run.run t).1.map List.flatten)
            ((List.cons stages <$> others.mapM (callStages keep depth place params)).run.run t).2
        rw [run_map]
        refine ⟨hlast, ?_⟩
        have hopened := hfirst.cons_ok hrest
        cases hothers : (others.mapM (callStages keep depth place params)).run.run t with
        | mk answer' t' =>
          rw [hothers] at hopened
          cases answer' <;> exact hopened

/-- A step that needs no more calls than there is room for is expanded without a fault of the
skills. -/
theorem opens_of_within {n depth : Nat} (h : x.Within n step.skill) (hdepth : n ≤ depth)
    (hs : s.Over x) (keep : Bool) (place : Place) :
    ((prepared place step >>= stages keep depth place).run.run s).2.Over x ∧
      Opens keep [(place, step)] s ((prepared place step >>= stages keep depth place).run.run s).1
        ((prepared place step >>= stages keep depth place).run.run s).2 := by
  -- On the calls needed, of which each sub-pipeline uses up one, as it does of the room.
  induction n generalizing step place depth s with
  | zero => exact h.elim
  | succ n ih =>
    obtain ⟨depth, rfl⟩ : ∃ k, depth = k + 1 := ⟨depth - 1, by omega⟩
    have hfounded : x.Founded step.skill := ⟨n + 1, h⟩
    obtain ⟨skill, hget, hcalls⟩ := h
    obtain ⟨hadmits, done, hover, hprepare⟩ := prepare_of_founded hs hfounded hget place
    rw [ExceptT.run_bind, StateT.run_bind, prepared_run hprepare]
    cases hresult : (Params.normalize skill step.params).result with
    | error f =>
      rw [hresult] at hprepare
      exact ⟨hover, .rejected hadmits hprepare⟩
    | ok params =>
      obtain ⟨rfl, -⟩ := Params.normalize_settled hresult
      rw [hresult] at hprepare
      change ((stages keep (depth + 1) place params).run.run done).2.Over x ∧
        Opens keep [(place, step)] s ((stages keep (depth + 1) place params).run.run done).1
          ((stages keep (depth + 1) place params).run.run done).2
      cases hp : params.skill.isPipeline with
      | false =>
        rw [stages_leaf hp]
        exact ⟨hover, .leaf hadmits hprepare hp .done⟩
      | true =>
        have hcall : ∀ p ∈ params.skill.calls.zipIdx, ∀ t, t.Over x →
            ((callStages keep depth place params p).run.run t).2.Over x ∧
              Opens keep [(place.call params.skill.name p.2, callStep params p.1)] t
                ((callStages keep depth place params p).run.run t).1
                ((callStages keep depth place params p).run.run t).2 := fun p hmem t ht =>
          ih (hcalls p.1 (List.fst_mem_of_mem_zipIdx hmem)) (by omega) ht _
        obtain ⟨hlast, hbelow⟩ := mapM_opens hcall hover
        rw [stages_of_calls hp, run_map]
        refine ⟨hlast, ?_⟩
        cases hr : (params.skill.calls.zipIdx.mapM
            (callStages keep depth place params)).run.run done with
        | mk answer t =>
          rw [hr] at hbelow
          cases answer with
          | error f => exact .stopped hadmits hprepare hp hbelow
          | ok parts =>
            have hopened := Opens.opened hadmits hprepare hp hbelow .done
            simpa only [Except.map, List.append_nil] using hopened

/-- The expansion of a step whose skill can be expanded is the unbounded one, which ends. -/
theorem opens_iff (hs : s.Over x) (hfounded : x.Founded step.skill) (keep : Bool)
    (position : Nat) : Opens keep [(.ofStep position, step)] s outcome s' ↔
      outcome = ((Expansion.step keep position step).run s).1.2 ∧
        s' = ((Expansion.step keep position step).run s).2 := by
  obtain ⟨skill, hget⟩ := hfounded.exists_skill
  obtain ⟨-, done, hover, hprepare⟩ :=
    prepare_of_founded hs hfounded hget (.ofStep position)
  have hsize : done.registry.size + 1 = x.skills.length + 1 := by rw [Registry.size, hover.1]
  have hrun : (((Expansion.step keep position step).run s).1.2,
      ((Expansion.step keep position step).run s).2) =
        (prepared (.ofStep position) step >>=
          stages keep (x.skills.length + 1) (.ofStep position)).run.run s := by
    rw [Expansion.step, run_bind_eq hprepare, ExceptT.run_bind, StateT.run_bind,
      prepared_run hprepare, ← hsize]
    cases (Params.normalize skill step.params).result <;> rfl
  obtain ⟨-, hopens⟩ :=
    opens_of_within hfounded.within (Nat.le_succ _) hs keep (.ofStep position)
  rw [← hrun] at hopens
  constructor
  · exact fun h => h.unique hopens
  · rintro ⟨rfl, rfl⟩
    exact hopens

end Expansion

open Registry in
/-- After any history, the search for cycles from a name ends, with what the unbounded search comes
to. It succeeds if every skill is known that the name reaches and no sub-pipeline there reaches
itself, and fails otherwise; verifying reports the sub-pipelines from which it fails, and no others.
Where it succeeds, a step of the skill is expanded to the end, without a skill on the way that is
unknown or has a cycle, whatever was looked at in between. -/
theorem Session.cycles_decided (history : List Usage) (name : String) :
    let registry := (Session.after history).registry
    let outcome := ((assertAcyclic name).run.run registry).1
    (∀ o passed, registry.Follows [] [name] registry.acyclic o passed ↔
        o = outcome ∧ passed = ((assertAcyclic name).run.run registry).2.acyclic) ∧
      (outcome = .ok () ↔ registry.index.Resolves name ∧ registry.index.LoopFree name) ∧
      (¬(registry.index.Resolves name ∧ registry.index.LoopFree name) →
        ∃ f : ConfigurationFault, outcome = .error f) ∧
      (verify.run registry).1 = (registry.list.filter (·.isPipeline)).filterMap (fun s =>
        match ((assertAcyclic s.name).run.run registry).1 with
        | .ok () => none
        | .error f => some (s.name ++ ": " ++ f.message)) ∧
      (outcome = .ok () → ∀ (queries : List Usage) (keep : Bool) (position : Nat) (step : Step),
        (∀ u ∈ queries, u.Looks) → registry.index.get? step.skill = registry.index.get? name →
          ∀ o s, Expansion.Opens keep [(.ofStep position, step)]
              (Session.after (history ++ queries)) o s ↔
            o = ((Expansion.step keep position step).run (Session.after (history ++ queries))).1.2 ∧
              s = ((Expansion.step keep position step).run
                (Session.after (history ++ queries))).2) := by
  intro registry outcome
  have hsound : registry.Sound := sound_after history
  obtain ⟨hdecides, -⟩ := searchFrom_spec hsound name
  have hfounded : outcome = .ok () ↔ registry.index.Founded name := hdecides
  refine ⟨fun o passed => follows_iff, ?_, ?_, (verify_run hsound).1, ?_⟩
  · rw [hfounded, Index.founded_iff_loopFree]
  · intro hnot
    cases houtcome : outcome with
    | error f => exact ⟨f, rfl⟩
    | ok done => exact absurd (Index.founded_iff_loopFree.mp (hfounded.mp houtcome)) hnot
  -- What is looked at in between leaves the skills as they are.
  · intro hok queries keep position step hqueries hsame o s
    have hover : (Session.after (history ++ queries)).Over registry.index :=
      ⟨index_after_append history queries hqueries, sound_after _⟩
    have hstep := (Index.founded_congr hsame).mpr (hfounded.mp hok)
    exact Expansion.opens_iff hover hstep keep position

def treadmillSkill : Skill where
  name := "treadmill"
  category := .outcome
  strategy := .pipeline [⟨"stairs", []⟩]
  aliases := ["stairs"]

def paceSkill : Skill where
  name := "pace"
  category := .outcome
  strategy := .handler "pace"
  aliases := ["step"]

/-- A sub-pipeline that calls one skill by its alias and by its name. -/
def strollSkill : Skill where
  name := "stroll"
  category := .outcome
  strategy := .pipeline [⟨"step", []⟩, ⟨"pace", []⟩]

def treadmillHistory : List Usage :=
  [.register treadmillSkill, .register paceSkill, .verify, .register strollSkill,
    .assertAcyclic "treadmill"]

open Registry in
theorem Session.cycles_decided_treadmill :
    let session := Session.after treadmillHistory
    session.registry.index.LoopFree "stroll" ∧
      ¬(session.registry.index.Resolves "stairs" ∧ session.registry.index.LoopFree "stairs") ∧
      (verify.run session.registry).1 =
        ["treadmill: Cyclic sub-pipeline: treadmill -> treadmill"] ∧
      ∃ stages s, Expansion.Opens false [(.ofStep 0, ⟨"stroll", []⟩)] session (.ok stages) s ∧
        stages.length = 2 := by
  intro session
  obtain ⟨-, hstroll, -, hverify, hsteps⟩ := cycles_decided treadmillHistory "stroll"
  obtain ⟨-, hstairs, -⟩ := cycles_decided treadmillHistory "stairs"
  have hend : ((assertAcyclic "stroll").run.run session.registry).1 = .ok () := rfl
  have hcyclic := hstairs.mpr.mt (by exact nofun)
  refine ⟨(hstroll.mp hend).2, hcyclic, hverify, ?_⟩
  have hopens := hsteps hend [] false 0 ⟨"stroll", []⟩ (by simp) rfl
  exact ⟨_, _, (hopens _ _).mpr ⟨rfl, rfl⟩, rfl⟩

end SkillPipeline
