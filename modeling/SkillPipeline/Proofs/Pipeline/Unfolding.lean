import SkillPipeline.Proofs.Pipeline.Expansion
import SkillPipeline.Proofs.Pipeline.Plan
import SkillPipeline.Proofs.Registry.Foundation

namespace SkillPipeline

open Outcome

/-- A list cut into parts, one for each element of another list. -/
def Spreads {α β : Type} (R : α → List β → Prop) (l : List α) (r : List β) : Prop :=
  ∃ parts, List.Forall₂ R l parts ∧ r = parts.flatten

namespace Spreads

variable {α β γ : Type} {R S : α → List β → Prop} {l l' : List α} {r : List β}

theorem singleton {a : α} : Spreads R [a] r ↔ R a r := by
  constructor
  · rintro ⟨parts, hparts, rfl⟩
    obtain ⟨part, rest, hpart, hrest, rfl⟩ := List.forall₂_cons_left_iff.mp hparts
    cases hrest
    simpa using hpart
  · intro h
    exact ⟨[r], .cons h .nil, by simp⟩

theorem append : Spreads R (l ++ l') r ↔ ∃ a b, Spreads R l a ∧ Spreads R l' b ∧ r = a ++ b := by
  constructor
  · rintro ⟨parts, hparts, rfl⟩
    induction l generalizing parts with
    | nil => exact ⟨[], parts.flatten, ⟨[], .nil, rfl⟩, ⟨parts, hparts, rfl⟩, rfl⟩
    | cons first rest ih =>
      obtain ⟨part, others, hpart, hothers, rfl⟩ := List.forall₂_cons_left_iff.mp hparts
      obtain ⟨a, b, ⟨left, hleft, rfl⟩, hb, heq⟩ := ih others hothers
      refine ⟨(part :: left).flatten, b, ⟨part :: left, .cons hpart hleft, rfl⟩, hb, ?_⟩
      rw [List.flatten_cons, List.flatten_cons, heq, List.append_assoc]
  · rintro ⟨a, b, ⟨left, hleft, rfl⟩, ⟨right, hright, rfl⟩, rfl⟩
    exact ⟨left ++ right, List.rel_append hleft hright, List.flatten_append.symm⟩

theorem map {f : γ → α} {l : List γ} : Spreads R (l.map f) r ↔ Spreads (fun c => R (f c)) l r := by
  simp only [Spreads, List.forall₂_map_left_iff]

theorem congr (h : ∀ a ∈ l, ∀ part, R a part ↔ S a part) : Spreads R l r ↔ Spreads S l r := by
  refine exists_congr fun parts => and_congr_left fun hflat => ?_
  clear hflat
  induction l generalizing parts with
  | nil => rw [List.forall₂_nil_left_iff, List.forall₂_nil_left_iff]
  | cons first rest ih =>
    obtain ⟨hfirst, hrest⟩ := List.forall_mem_cons.mp h
    rw [List.forall₂_cons_left_iff, List.forall₂_cons_left_iff]
    refine exists_congr fun part => exists_congr fun others => ?_
    rw [hfirst part, ih hrest]

/-- Where related elements have parts that match, so do the lists that these make up. -/
theorem forall₂ {δ ε : Type} {S : δ → List ε → Prop} {P : α → δ → Prop} {Q : β → ε → Prop}
    {m : List δ} {t : List ε} (hl : Spreads R l r) (hm : Spreads S m t) (h : List.Forall₂ P l m)
    (hparts : ∀ a d part part', P a d → R a part → S d part' → List.Forall₂ Q part part') :
    List.Forall₂ Q r t := by
  obtain ⟨left, hleft, rfl⟩ := hl
  obtain ⟨right, hright, rfl⟩ := hm
  induction h generalizing left right with
  | nil =>
    cases hleft
    cases hright
    exact .nil
  | cons hfirst hrest ih =>
    obtain ⟨part, others, hpart, hothers, rfl⟩ := List.forall₂_cons_left_iff.mp hleft
    obtain ⟨part', others', hpart', hothers', rfl⟩ := List.forall₂_cons_left_iff.mp hright
    rw [List.flatten_cons, List.flatten_cons]
    exact List.rel_append (hparts _ _ part part' hfirst hpart hpart')
      (ih others hothers others' hothers')

theorem unique {t : List β} (hr : Spreads R l r) (ht : Spreads R l t)
    (h : ∀ a ∈ l, ∀ part part', R a part → R a part' → part = part') : r = t := by
  have hsame : List.Forall₂ (fun a b => a ∈ l ∧ a = b) l l :=
    List.forall₂_same.mpr fun a ha => ⟨ha, rfl⟩
  rw [← List.forall₂_eq_eq_eq]
  refine hr.forall₂ ht hsame fun a b part part' hab hpart hpart' => ?_
  obtain ⟨ha, rfl⟩ := hab
  rw [List.forall₂_eq_eq_eq]
  exact h a ha part part' hpart hpart'

theorem exists_part (h : Spreads R l r) {a : α} (ha : a ∈ l) : ∃ part, R a part := by
  obtain ⟨parts, hparts, -⟩ := h
  obtain ⟨part, -, hpart⟩ := exists_of_mem_left hparts ha
  exact ⟨part, hpart⟩

end Spreads

/-- A session over some skills, with a registry that remembers nothing wrong. -/
def Session.Over (x : Index) (s : Session) : Prop := s.registry.index = x ∧ s.registry.Sound

namespace Work

variable {α β : Type} {x : Index} {P : α → Prop} {Q : α → β → Prop}

/-- In every session over the skills, the work succeeds with the answers that have a property, and
with no other. -/
def Yields (x : Index) (w : Work α) (P : α → Prop) : Prop :=
  ∀ s, s.Over x → (w.run.run s).2.Over x ∧ ∀ a, (w.run.run s).1 = .ok a ↔ P a

theorem yields_pure (a : α) : Yields x (pure a) (· = a) := by
  refine fun s hs => ⟨hs, fun b => ?_⟩
  change (Except.ok a : Except Fault α) = .ok b ↔ b = a
  rw [Except.ok.injEq, eq_comm]

theorem yields_throw (f : Fault) : Yields x (throw f : Work α) fun _ => False := by
  refine fun s hs => ⟨hs, fun b => iff_of_false (fun h => ?_) id⟩
  cases h

theorem Yields.congr {w : Work α} {P' : α → Prop} (h : Yields x w P) (hP : ∀ a, P a ↔ P' a) :
    Yields x w P' := by
  intro s hs
  obtain ⟨hkept, hanswer⟩ := h s hs
  exact ⟨hkept, fun a => (hanswer a).trans (hP a)⟩

theorem Yields.bind {w : Work α} {k : α → Work β} (hw : Yields x w P)
    (hk : ∀ a, P a → Yields x (k a) (Q a)) :
    Yields x (w >>= k) fun b => ∃ a, P a ∧ Q a b := by
  intro s hs
  obtain ⟨hkept, hanswer⟩ := hw s hs
  rw [ExceptT.run_bind, StateT.run_bind]
  cases hr : w.run.run s with
  | mk result s' =>
    rw [hr] at hkept hanswer
    cases result with
    | error f =>
      refine ⟨hkept, fun b => iff_of_false (fun h => ?_) ?_⟩
      · cases h
      · rintro ⟨a, ha, -⟩
        cases (hanswer a).mpr ha
    | ok a =>
      have ha : P a := (hanswer a).mp rfl
      obtain ⟨hlast, hnext⟩ := hk a ha s' hkept
      refine ⟨hlast, fun b => (hnext b).trans ⟨fun hb => ⟨a, ha, hb⟩, ?_⟩⟩
      rintro ⟨a', ha', hb⟩
      obtain rfl : a = a' := Except.ok.inj ((hanswer a').mpr ha')
      exact hb

theorem Yields.map {w : Work α} {f : α → β} (hw : Yields x w P) :
    Yields x (f <$> w) fun b => ∃ a, P a ∧ b = f a := by
  rw [map_eq_pure_bind]
  exact hw.bind fun a _ => yields_pure (f a)

theorem yields_mapM {f : α → Work β} {l : List α} (h : ∀ a ∈ l, Yields x (f a) (Q a)) :
    Yields x (l.mapM f) (List.Forall₂ Q l) := by
  induction l with
  | nil =>
    rw [List.mapM_nil]
    exact (yields_pure []).congr fun r => List.forall₂_nil_left_iff.symm
  | cons a rest ih =>
    obtain ⟨ha, hrest⟩ := List.forall_mem_cons.mp h
    rw [List.mapM_cons]
    refine (ha.bind fun b _ => (ih hrest).bind fun bs _ => yields_pure (b :: bs)).congr fun r => ?_
    rw [List.forall₂_cons_left_iff]
    constructor
    · rintro ⟨b, hb, bs, hbs, rfl⟩
      exact ⟨b, bs, hb, hbs, rfl⟩
    · rintro ⟨b, bs, hb, hbs, rfl⟩
      exact ⟨b, hb, bs, hbs, rfl⟩

end Work

namespace Expansion

open Work

variable {x : Index} {place : Place} {params : Params} {depth : Nat}

/-- The parameters that a step comes to: its skill can be expanded, and those given are in order. -/
def Prepares (x : Index) (step : Step) (params : Params) : Prop :=
  x.Founded step.skill ∧ ∃ skill, x.get? step.skill = some skill ∧
    (Params.normalize skill step.params).result = .ok params

theorem Prepares.get?_eq {step : Step} (h : Prepares x step params) :
    x.get? step.skill = some params.skill := by
  obtain ⟨-, skill, hget, hresult⟩ := h
  obtain ⟨rfl, -⟩ := Params.normalize_settled hresult
  exact hget

theorem Prepares.unique {step : Step} {params' : Params} (h : Prepares x step params)
    (h' : Prepares x step params') : params = params' := by
  obtain ⟨-, skill, hget, hresult⟩ := h
  obtain ⟨-, skill', hget', hresult'⟩ := h'
  obtain rfl : skill = skill' := Option.some.inj (hget.symm.trans hget')
  exact Except.ok.inj (hresult.symm.trans hresult')

theorem soundSkill_run (name : String) {s : Session} (hs : s.Over x) :
    ((soundSkill name).run s).2.Over x ∧ ∀ skill, ((soundSkill name).run s).1 = .ok skill ↔
      x.Founded name ∧ x.get? name = some skill := by
  obtain ⟨rfl, hsound⟩ := hs
  rw [soundSkill, StateT.run_bind, StateT.run_get, pure_bind]
  dsimp only
  cases hrequire : s.registry.require name with
  | error f =>
    refine ⟨⟨rfl, hsound⟩, fun skill => iff_of_false (fun h => ?_) ?_⟩
    · cases h
    · rintro ⟨-, hget⟩
      rw [Registry.require_eq_ok.mpr hget] at hrequire
      cases hrequire
  | ok skill =>
    have hget := Registry.require_eq_ok.mp hrequire
    -- The search starts at the own name of the skill, which means the same as the name given.
    have hsame : s.registry.index.get? skill.name = s.registry.index.get? name :=
      (Index.get?_name hget).trans hget.symm
    obtain ⟨hdecides, hindex, hkept⟩ := Registry.searchFrom_spec hsound skill.name
    rw [Index.founded_congr hsame] at hdecides
    let done : Session := { s with registry := (s.registry.searchFrom skill.name).2 }
    have hover : done.Over s.registry.index := ⟨hindex, hkept⟩
    have hrun : (Session.reading (Registry.assertAcyclic skill.name).run).run s =
        ((s.registry.searchFrom skill.name).1, done) := rfl
    rw [StateT.run_bind, hrun]
    cases hsearch : (s.registry.searchFrom skill.name).1 with
    | error f =>
      refine ⟨hover, fun other => iff_of_false (fun h => ?_) ?_⟩
      · cases h
      · rintro ⟨hfounded, -⟩
        rw [hsearch] at hdecides
        cases hdecides.mpr hfounded
    | ok found =>
      refine ⟨hover, fun other => ?_⟩
      have hfounded := hdecides.mp hsearch
      change (Except.ok skill : Except ConfigurationFault Skill) = .ok other ↔ _
      rw [hget, Except.ok.injEq, Option.some.injEq, and_iff_right hfounded]

theorem prepared_yields (step : Step) : Yields x (prepared place step) (Prepares x step) := by
  intro s hs
  obtain ⟨hkept, hskill⟩ := soundSkill_run step.skill hs
  cases hr : (soundSkill step.skill).run s with
  | mk outcome s' =>
    rw [hr] at hkept hskill
    cases outcome with
    | error f =>
      rw [prepared_run (prepare_of_error hr)]
      refine ⟨hkept, fun params => iff_of_false (fun h => ?_) ?_⟩
      · cases h
      · rintro ⟨hfounded, skill, hget, -⟩
        cases (hskill skill).mpr ⟨hfounded, hget⟩
    | ok skill =>
      obtain ⟨done, hregistry, hrun⟩ := prepare_of_ok hr
      obtain ⟨hfounded, hget⟩ := (hskill skill).mp rfl
      rw [prepared_run hrun]
      refine ⟨⟨hregistry ▸ hkept.1, hregistry ▸ hkept.2⟩, fun params => ?_⟩
      constructor
      · intro hresult
        exact ⟨hfounded, skill, hget, hresult⟩
      · rintro ⟨-, other, hother, hresult⟩
        obtain rfl : skill = other := Option.some.inj (hget.symm.trans hother)
        exact hresult

/-- The step that a call of a sub-pipeline amounts to. -/
def callStep (outer : Params) (call : Call) : Step := ⟨call.skill, Call.resolve call.params outer⟩

/-- The parameters of the stages that a skill comes to, with room for so many calls in a chain. -/
def Leaves (x : Index) : Nat → Params → List Params → Prop
  | 0, params, leaves => params.skill.isPipeline = false ∧ leaves = [params]
  | depth + 1, params, leaves =>
    (params.skill.isPipeline = false ∧ leaves = [params]) ∨
      (params.skill.isPipeline = true ∧
        Spreads (fun call part => ∃ inner, Prepares x (callStep params call) inner ∧
          Leaves x depth inner part) params.skill.calls leaves)

theorem leaves_leaf (h : params.skill.isPipeline = false) {leaves : List Params} :
    Leaves x depth params leaves ↔ leaves = [params] := by
  cases depth <;> simp [Leaves, h]

theorem leaves_pipeline (h : params.skill.isPipeline = true) {leaves : List Params} :
    Leaves x (depth + 1) params leaves ↔ Spreads (fun call part => ∃ inner,
      Prepares x (callStep params call) inner ∧ Leaves x depth inner part)
        params.skill.calls leaves := by
  simp [Leaves, h]

theorem Leaves.unique {leaves leaves' : List Params} (h : Leaves x depth params leaves)
    (h' : Leaves x depth params leaves') : leaves = leaves' := by
  induction depth generalizing params leaves leaves' with
  | zero => rw [h.2, h'.2]
  | succ depth ih =>
    cases hp : params.skill.isPipeline with
    | false =>
      rw [leaves_leaf hp] at h h'
      rw [h, h']
    | true =>
      rw [leaves_pipeline hp] at h h'
      refine h.unique h' fun call _ part part' hpart hpart' => ?_
      obtain ⟨inner, hinner, hpart⟩ := hpart
      obtain ⟨inner', hinner', hpart'⟩ := hpart'
      obtain rfl := hinner.unique hinner'
      exact ih hpart hpart'

def Unfolds (x : Index) (step : Step) (leaves : List Params) : Prop :=
  ∃ params, Prepares x step params ∧ Leaves x (x.skills.length + 1) params leaves

theorem map_zipIdx_fst {α : Type} (l : List α) (k : Nat) : (l.zipIdx k).map Prod.fst = l := by
  induction l generalizing k with
  | nil => rfl
  | cons a rest ih => rw [List.zipIdx_cons, List.map_cons, ih]

theorem spreads_zipIdx {α : Type} (R : α → List Params → Prop) {l : List α} {k : Nat}
    {leaves : List Params} :
    Spreads (fun p => R p.1) (l.zipIdx k) leaves ↔ Spreads R l leaves := by
  rw [← Spreads.map, map_zipIdx_fst]

theorem mapM_map_fmap {α β γ : Type} (g : β → γ) (f : α → Work β) (l : List α) :
    (l.mapM fun a => g <$> f a) = List.map g <$> l.mapM f := by
  induction l with
  | nil => rw [List.mapM_nil, List.mapM_nil, map_pure, List.map_nil]
  | cons a rest ih =>
    rw [List.mapM_cons, List.mapM_cons, ih]
    simp only [map_eq_pure_bind, bind_assoc, pure_bind, List.map_cons]

theorem yields_flatten {α : Type} {f : α → Work (List Stage)} {R : α → List Params → Prop}
    {l : List α} (h : ∀ a ∈ l, Yields x (List.map Stage.params <$> f a) (R a)) :
    Yields x (List.map Stage.params <$> List.flatten <$> l.mapM f) (Spreads R l) := by
  have hsplit : List.map Stage.params <$> List.flatten <$> l.mapM f =
      List.flatten <$> l.mapM fun a => List.map Stage.params <$> f a := by
    rw [mapM_map_fmap, ← comp_map, ← comp_map]
    congr 1
    funext parts
    exact List.map_flatten
  rw [hsplit]
  exact (yields_mapM h).map

theorem stages_yields :
    Yields x (List.map Stage.params <$> stages false depth place params)
      (Leaves x depth params) := by
  -- On the depth that is left, which a leaf does not need and a call uses up by one.
  induction depth generalizing place params with
  | zero =>
    cases hp : params.skill.isPipeline with
    | false =>
      rw [stages_leaf hp, map_pure]
      exact (yields_pure _).congr fun leaves => (leaves_leaf hp).symm
    | true =>
      obtain ⟨calls, hs⟩ := exists_calls hp
      rw [stages_cyclic hs]
      refine (yields_throw _).map.congr fun leaves => ?_
      simp [Leaves, hp]
  | succ depth ih =>
    cases hp : params.skill.isPipeline with
    | false =>
      rw [stages_leaf hp, map_pure]
      exact (yields_pure _).congr fun leaves => (leaves_leaf hp).symm
    | true =>
      obtain ⟨calls, hs⟩ := exists_calls hp
      have hcalls : params.skill.calls = calls := by rw [Skill.calls, hs]
      rw [stages_pipeline hs]
      have hcall (p : Call × Nat) :
          Yields x (List.map Stage.params <$> callStages false depth place params p)
            fun part => ∃ inner, Prepares x (callStep params p.1) inner ∧
              Leaves x depth inner part := by
        rw [callStages, map_bind]
        exact (prepared_yields _).bind fun inner _ => ih
      refine (yields_flatten fun p _ => hcall p).congr fun leaves => ?_
      rw [leaves_pipeline hp, hcalls]
      exact spreads_zipIdx fun call part => ∃ inner, Prepares x (callStep params call) inner ∧
        Leaves x depth inner part

theorem stepStages_yields (p : Step × Nat) :
    Yields x (List.map Stage.params <$> stepStages p) (Unfolds x p.1) := by
  rw [stepStages, map_bind]
  refine (prepared_yields p.1).bind fun params _ => ?_
  intro s hs
  have hsize : s.registry.size + 1 = x.skills.length + 1 := by rw [Registry.size, hs.1]
  have hrun : (List.map Stage.params <$> (do
      let depth := (← get).registry.size + 1
      stages false depth (.ofStep p.2) params) : Work (List Params)).run.run s =
      (List.map Stage.params <$> stages false (x.skills.length + 1) (.ofStep p.2)
        params).run.run s := by
    rw [← hsize]
    rfl
  rw [hrun]
  exact stages_yields s hs

/-- The steps of a request come to stages with some parameters exactly if they unfold to these. -/
theorem exists_steps_iff {ss : List Step} {s : Session} (hs : s.Over x) {leaves : List Params} :
    (∃ all, ((steps false 0 ss).run s).1.2 = .ok all ∧ all.map (·.params) = leaves) ↔
      Spreads (Unfolds x) ss leaves := by
  have hyields := yields_flatten (l := ss.zipIdx) fun p _ => stepStages_yields (x := x) p
  obtain ⟨-, hanswer⟩ := hyields s hs
  have hrun := congrArg Prod.fst (steps_run 0 ss s)
  dsimp only at hrun
  have hanswer := hanswer leaves
  rw [run_map, ← hrun, map_eq_ok, spreads_zipIdx] at hanswer
  exact hanswer

theorem leaves_succ_congr {d d' : Nat} {leaves : List Params}
    (h : ∀ call ∈ params.skill.calls, ∀ inner, Prepares x (callStep params call) inner →
      ∀ part, Leaves x d inner part ↔ Leaves x d' inner part) :
    Leaves x (d + 1) params leaves ↔ Leaves x (d' + 1) params leaves := by
  cases hp : params.skill.isPipeline with
  | false => rw [leaves_leaf hp, leaves_leaf hp]
  | true =>
    rw [leaves_pipeline hp, leaves_pipeline hp]
    exact Spreads.congr fun call hcall part => exists_congr fun inner =>
      and_congr_right fun hprepares => h call hcall inner hprepares part

/-- What a skill comes to does not depend on how much room there is for calls, as long as it is
enough. -/
theorem leaves_congr {n d d' : Nat} {leaves : List Params}
    (h : ∀ call ∈ params.skill.calls, x.Within n call.skill) (hd : n < d) (hd' : n < d') :
    Leaves x d params leaves ↔ Leaves x d' params leaves := by
  induction n generalizing d d' params leaves with
  | zero =>
    obtain ⟨e, rfl⟩ : ∃ e, d = e + 1 := ⟨d - 1, by omega⟩
    obtain ⟨e', rfl⟩ : ∃ e', d' = e' + 1 := ⟨d' - 1, by omega⟩
    exact leaves_succ_congr fun call hcall => (h call hcall).elim
  | succ n ih =>
    obtain ⟨e, rfl⟩ : ∃ e, d = e + 1 := ⟨d - 1, by omega⟩
    obtain ⟨e', rfl⟩ : ∃ e', d' = e' + 1 := ⟨d' - 1, by omega⟩
    refine leaves_succ_congr fun call hcall inner hprepares part => ?_
    obtain ⟨skill, hget, hbelow⟩ := h call hcall
    obtain rfl : skill = inner.skill := Option.some.inj (hget.symm.trans hprepares.get?_eq)
    exact ih hbelow (by omega) (by omega)

/-- A step of a sub-pipeline unfolds to what its calls unfold to, one after the other. -/
theorem unfolds_pipeline {outer : Step} {skill : Skill} {calls : List Call} {leaves : List Params}
    (hget : x.get? outer.skill = some skill) (hs : skill.strategy = .pipeline calls)
    (hparams : (Params.normalize skill outer.params).result = .ok params) :
    Unfolds x outer leaves ↔ Spreads (Unfolds x) (calls.map (callStep params)) leaves := by
  obtain ⟨rfl, -⟩ := Params.normalize_settled hparams
  have hpipeline : params.skill.isPipeline = true := by rw [Skill.isPipeline, hs]
  have hcalls : params.skill.calls = calls := by rw [Skill.calls, hs]
  have hfounded := Index.founded_iff hget
  rw [hcalls] at hfounded
  rw [Spreads.map]
  -- A call has the room of one call less than a step of its own, which is still enough.
  have hroom (call : Call) (part : List Params) :
      (∃ inner, Prepares x (callStep params call) inner ∧
        Leaves x x.skills.length inner part) ↔ Unfolds x (callStep params call) part := by
    refine exists_congr fun inner => and_congr_right fun hprepares => ?_
    obtain ⟨n, hn⟩ : ∃ n, x.skills.length = n + 1 := by
      have hmem := Index.mem_of_get? hget
      exact ⟨x.skills.length - 1, by have := List.length_pos_of_mem hmem; omega⟩
    have hwithin := hprepares.1.within
    rw [hn] at hwithin ⊢
    obtain ⟨found, hfound, hbelow⟩ := hwithin
    obtain rfl : found = inner.skill := Option.some.inj (hfound.symm.trans hprepares.get?_eq)
    exact leaves_congr hbelow (by omega) (by omega)
  constructor
  · rintro ⟨prepared, ⟨-, found, hfound, hprepared⟩, hleaves⟩
    obtain rfl : params.skill = found := Option.some.inj (hget.symm.trans hfound)
    obtain rfl : params = prepared := Except.ok.inj (hparams.symm.trans hprepared)
    rw [leaves_pipeline hpipeline, hcalls] at hleaves
    exact (Spreads.congr fun call _ => hroom call).mp hleaves
  · intro hspreads
    refine ⟨params, ⟨hfounded.mpr fun call hcall => ?_, params.skill, hget, hparams⟩, ?_⟩
    · obtain ⟨part, inner, hprepares, -⟩ := hspreads.exists_part hcall
      exact hprepares.1
    · rw [leaves_pipeline hpipeline, hcalls]
      exact (Spreads.congr fun call _ => hroom call).mpr hspreads

theorem spreads_inlined {outer : Step} {skill : Skill} {calls : List Call} {pre post : List Step}
    {leaves : List Params} (hget : x.get? outer.skill = some skill)
    (hs : skill.strategy = .pipeline calls)
    (hparams : (Params.normalize skill outer.params).result = .ok params) :
    Spreads (Unfolds x) (pre ++ [outer] ++ post) leaves ↔
      Spreads (Unfolds x) (pre ++ calls.map (callStep params) ++ post) leaves := by
  simp only [Spreads.append, Spreads.singleton, unfolds_pipeline hget hs hparams]

end Expansion

theorem Compiler.exists_stages_iff {session : Session} (hsound : session.registry.Sound)
    (request : Request) {leaves : List Params} :
    (∃ all, stages request session = .ok all ∧ all.map (·.params) = leaves) ↔
      Spreads (Expansion.Unfolds session.registry.index) request.steps leaves := by
  have hover : (session.note [started request.steps]).Over session.registry.index := ⟨rfl, hsound⟩
  exact Expansion.exists_steps_iff hover

end SkillPipeline
