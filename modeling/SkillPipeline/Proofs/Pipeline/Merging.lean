import SkillPipeline.Proofs.Effect.Table
import SkillPipeline.Proofs.Graph.Closure
import SkillPipeline.Proofs.Pipeline.Plan

namespace SkillPipeline

open Merger Outcome

namespace Contribution

/-- The operation that adds the filters of a contribution. -/
def filtersOp (c : Contribution) (id : String) : Op :=
  match c.fragment? with
  | some f => .fragment id f
  | none => .chains c.videoFilters c.audioFilters

/-- What a contribution asks of the merger on behalf of a stage. -/
def operations (c : Contribution) (id : String) : List Op :=
  c.filtersOp id :: c.audioSource?.toList.map .replaceAudio

/-- Whether a contribution brings audio that went through filters. -/
def bringsAudio (c : Contribution) : Bool :=
  match c.fragment? with
  | some f => f.audio?.isSome
  | none => c.audioFilters.any fun f => !f.isEmpty

end Contribution

namespace Assembly

variable {p p' : Progress} {s : Stage} {c : Contribution}

theorem addFilters_eq_ok :
    addFilters s p c = .ok p' ↔
      (c.fragment?.isSome = true → c.hasFilters = false) ∧
        ∃ m, (p.merger.apply (c.filtersOp s.id)).map (·.1) = .ok m ∧
          { p with merger := m, producedAudio := p.producedAudio || c.bringsAudio } = p' := by
  rw [addFilters, Contribution.filtersOp, Contribution.bringsAudio]
  cases c.fragment? with
  | some f =>
    simp only [apply_fragment]
    cases hc : c.hasFilters with
    | true => simp [bind, Except.bind]
    | false =>
      simp only [Bool.false_eq_true, ↓reduceIte, bind_eq_ok, pure_eq_ok, implies_true, true_and]
  | none =>
    simp only [apply_chains, bind_eq_ok, pure_eq_ok, Option.isSome_none, Bool.false_eq_true,
      false_implies, true_and]

theorem replaceAudio_eq_ok (h : replaceAudio s p c = .ok p') :
    p.merger.run (c.audioSource?.toList.map .replaceAudio) = .ok p'.merger ∧
      p'.outputFlags = p.outputFlags ∧ p'.maps? = p.maps? ∧
        p'.audioReplaced = (p.audioReplaced || c.audioSource?.isSome) := by
  rw [replaceAudio] at h
  cases hc : c.audioSource? with
  | none =>
    rw [hc] at h
    cases h
    exact ⟨rfl, rfl, rfl, by simp⟩
  | some index =>
    simp only [hc, bind_eq_ok, pure_eq_ok] at h
    obtain ⟨⟨m, kept⟩, hm, rfl⟩ := h
    refine ⟨run_cons_eq_ok.mpr ⟨m, ?_, rfl⟩, rfl, rfl, by simp⟩
    rw [apply_replaceAudio, hm]
    rfl

theorem exists_replaceAudio {m : Merger}
    (h : p.merger.run (c.audioSource?.toList.map .replaceAudio) = .ok m) :
    ∃ p', replaceAudio s p c = .ok p' := by
  rw [replaceAudio]
  cases hc : c.audioSource? with
  | none => exact ⟨p, rfl⟩
  | some index =>
    rw [hc] at h
    obtain ⟨u, hu, -⟩ := run_cons_eq_ok.mp h
    rw [apply_replaceAudio] at hu
    obtain ⟨⟨m', kept⟩, hm, -⟩ := map_eq_ok.mp hu
    exact ⟨_, bind_eq_ok.mpr ⟨(m', kept), hm, rfl⟩⟩

theorem replaceMaps_eq :
    (replaceMaps s p c).merger = p.merger ∧ (replaceMaps s p c).outputFlags = p.outputFlags ∧
      (replaceMaps s p c).audioReplaced = p.audioReplaced ∧
        (replaceMaps s p c).maps? = (c.maps?.map (·, s.skill.name)).or p.maps? := by
  rw [replaceMaps]
  cases c.maps? <;> exact ⟨rfl, rfl, rfl, rfl⟩

/-- What a stage leaves of its contribution besides warnings. -/
structure Takes (s : Stage) (c : Contribution) (p p' : Progress) : Prop where
  run : p.merger.run (c.operations s.id) = .ok p'.merger
  outputFlags : p'.outputFlags = p.outputFlags ++ c.outputFlags
  maps : p'.maps? = (c.maps?.map (·, s.skill.name)).or p.maps?
  audioReplaced : p'.audioReplaced = (p.audioReplaced || c.audioSource?.isSome)

theorem takes_of_add (h : add p s c = .ok p') : Takes s c p p' := by
  simp only [add, bind_eq_ok, pure_eq_ok] at h
  obtain ⟨q, hq, u, hu, rfl⟩ := h
  obtain ⟨-, m, hm, rfl⟩ := addFilters_eq_ok.mp hq
  obtain ⟨hrun, hflags, hmaps, hreplaced⟩ := replaceAudio_eq_ok hu
  obtain ⟨hmerger', hflags', hreplaced', hmaps'⟩ := replaceMaps_eq (s := s) (c := c)
    (p := { u with
      inputFlags := u.inputFlags ++ c.inputFlags, outputFlags := u.outputFlags ++ c.outputFlags })
  refine ⟨run_cons_eq_ok.mpr ⟨m, hm, ?_⟩, ?_, ?_, ?_⟩
  · rw [hmerger', ← hrun]
  · rw [hflags', hflags]
  · rw [hmaps', hmaps]
  · rw [hreplaced', hreplaced]

theorem exists_add {m : Merger} (halone : c.fragment?.isSome = true → c.hasFilters = false)
    (hrun : p.merger.run (c.operations s.id) = .ok m) : ∃ p', add p s c = .ok p' := by
  obtain ⟨u, hu, hrest⟩ := run_cons_eq_ok.mp hrun
  obtain ⟨q, hq, rfl⟩ : ∃ q, addFilters s p c = .ok q ∧ q.merger = u :=
    ⟨_, addFilters_eq_ok.mpr ⟨halone, u, hu, rfl⟩, rfl⟩
  obtain ⟨q', hq'⟩ := exists_replaceAudio hrest
  simp only [add, bind_eq_ok, pure_eq_ok]
  exact ⟨_, q, hq, q', hq', rfl⟩

end Assembly

namespace Contribution

variable {c : Contribution} {own : List Nat} {inputs : Nat}

/-- The operations of a sound contribution are sound, if the inputs of its stage are there. -/
theorem Sound.operations (h : c.Sound own) (hown : ∀ index ∈ own, index < inputs) (id : String) :
    ∀ op ∈ c.operations id, op.Sound inputs := by
  intro op hop
  obtain rfl | hop := List.mem_cons.mp hop
  · rw [filtersOp]
    cases hf : c.fragment? with
    | none => trivial
    | some f =>
      obtain ⟨hgraph, hnodes⟩ := Option.filter_eq_some_iff.mp hf
      have hsound := h.fragment f hgraph (by simpa using hnodes)
      exact ⟨hsound.wellFormed, hsound.ordered, fun index hindex =>
        List.mem_range.mpr (hown index (hsound.owned index hindex))⟩
  · obtain ⟨index, hindex, rfl⟩ := List.mem_map.mp hop
    exact hown index (h.audioSource index (Option.mem_toList.mp hindex))

theorem steps_operations (id : String) :
    ((c.operations id).filterMap Op.step?).Sublist [id] := by
  have hreplace : (c.audioSource?.toList.map Op.replaceAudio).filterMap Op.step? = [] := by
    cases c.audioSource? <;> rfl
  rw [operations, filterMap_cons_toList, hreplace, List.append_nil, filtersOp]
  cases c.fragment? with
  | none => exact List.nil_sublist [id]
  | some f => exact List.Sublist.refl [id]

theorem Sound.fragment_alone (h : c.Sound own) (hsome : c.fragment?.isSome = true) :
    c.hasFilters = false := by
  obtain ⟨f, hf⟩ := Option.isSome_iff_exists.mp hsome
  obtain ⟨hgraph, -⟩ := Option.filter_eq_some_iff.mp hf
  exact h.alone (Option.isSome_iff_exists.mpr ⟨f, hgraph⟩)

end Contribution

namespace Assembly

variable {table : HandlerTable} {view : Stage → HandlerContext} {stages : List Stage}
  {p p' : Progress} {s : Stage} {c : Contribution} {inputs : Nat} {ids : List String}

/-- What the stages contribute, up to the first that does not. -/
def contributions (table : HandlerTable) (view : Stage → HandlerContext) (stages : List Stage) :
    Except Fault (List Contribution) :=
  stages.mapM fun s => (contribution table (view s) s).2

/-- What stages ask of the merger, one after another. -/
def operations (stages : List Stage) (cs : List Contribution) : List Op :=
  (stages.zipWith (fun s c => c.operations s.id) cs).flatten

/-- What stages leave of their contributions, all together. -/
structure Collects (stages : List Stage) (cs : List Contribution) (p p' : Progress) : Prop where
  run : p.merger.run (operations stages cs) = .ok p'.merger
  outputFlags : p'.outputFlags = p.outputFlags ++ cs.flatMap (·.outputFlags)
  audioReplaced : p'.audioReplaced = (p.audioReplaced || cs.any (·.audioSource?.isSome))

theorem Takes.collects {rest : List Stage} {cs : List Contribution} {q : Progress}
    (h : Takes s c p q) (hrest : Collects rest cs q p') : Collects (s :: rest) (c :: cs) p p' where
  run := by
    change p.merger.run (c.operations s.id ++ operations rest cs) = .ok p'.merger
    rw [Merger.run, List.foldlM_append]
    exact bind_eq_ok.mpr ⟨q.merger, h.run, hrest.run⟩
  outputFlags := by
    rw [hrest.outputFlags, h.outputFlags, List.flatMap_cons, List.append_assoc]
  audioReplaced := by
    rw [hrest.audioReplaced, h.audioReplaced, List.any_cons, Bool.or_assoc]

theorem exists_contributions (h : stages.foldlM (advance table view) p = .ok p') :
    ∃ cs, contributions table view stages = .ok cs ∧ Collects stages cs p p' := by
  induction stages generalizing p with
  | nil =>
    obtain rfl := pure_eq_ok.mp h
    exact ⟨[], rfl, rfl, by simp, by simp⟩
  | cons s rest ih =>
    obtain ⟨q, hq, hrest⟩ := foldlM_cons_eq_ok.mp h
    obtain ⟨c, hc, hadd⟩ := bind_eq_ok.mp hq
    obtain ⟨cs, hcs, hcollects⟩ := ih hrest
    refine ⟨c :: cs, ?_, (takes_of_add hadd).collects hcollects⟩
    rw [contributions] at hcs
    rw [contributions, List.mapM_cons, hc, hcs]
    rfl

/-- A merger that has served the stages with these identifiers, and is ready for others. -/
structure Progress.Sound (p : Progress) (inputs : Nat) (ids : List String) : Prop where
  fit : p.merger.Fit ids
  closed : p.merger.Closed inputs
  labels : p.merger.LabelsInGraph
  mode : p.merger.mode ≠ .finalized
  maps : ∀ targets skill, p.maps? = some (targets, skill) → Contribution.Usual targets

theorem sound_start (h : 0 < inputs) : ({} : Progress).Sound inputs [] :=
  ⟨fit_start, closed_start h, labelsInGraph_start, by decide, fun _ _ hmaps => nomatch hmaps⟩

/-- A contribution whose extra inputs are there. -/
def Fits (inputs : Nat) (c : Contribution) : Prop :=
  ∃ own, c.Sound own ∧ ∀ index ∈ own, index < inputs

theorem Progress.Sound.exists_add (h : p.Sound inputs ids) (hc : Fits inputs c)
    (hids : (ids ++ [s.id]).Pairwise Apart) :
    ∃ p', add p s c = .ok p' ∧ p'.Sound inputs (ids ++ [s.id]) := by
  obtain ⟨own, hsound, hown⟩ := hc
  have hops := hsound.operations hown s.id
  have hopen (op : Op) (hop : op ∈ c.operations s.id) : op.Open := (hops op hop).wellFormed.open
  have hsteps := (Contribution.steps_operations (c := c) s.id).append_left ids
  obtain ⟨m, hrun, hfit, hmode⟩ := h.fit.exists_run h.mode (fun op hop => (hops op hop).wellFormed)
    (hids.sublist hsteps)
  obtain ⟨p', hp'⟩ := Assembly.exists_add hsound.fragment_alone hrun
  have htakes := takes_of_add hp'
  obtain rfl : p'.merger = m := Except.ok.inj (htakes.run.symm.trans hrun)
  refine ⟨p', hp', hfit.mono fun _ hstep => hsteps.subset hstep,
    h.closed.run h.fit.linear.single hops hrun, h.labels.run h.fit.linear.single hopen hrun, hmode,
    fun targets skill hmaps => ?_⟩
  rw [htakes.maps] at hmaps
  obtain hnew | ⟨-, hold⟩ := Option.or_eq_some_iff.mp hmaps
  · obtain ⟨asked, hasked, heq⟩ := Option.map_eq_some_iff.mp hnew
    obtain ⟨rfl, -⟩ := Prod.mk.inj heq
    exact hsound.maps asked hasked
  · exact h.maps targets skill hold

/-- Stages whose contributions fit keep the merger sound, and only a contribution that there is not
stops them. -/
theorem advance_cases (hfits : ∀ s ∈ stages, ∀ c, (contribution table (view s) s).2 = .ok c →
      Fits inputs c) (h : p.Sound inputs ids)
    (hids : (ids ++ stages.map (·.id)).Pairwise Apart) :
    (∃ cs p', contributions table view stages = .ok cs ∧
        stages.foldlM (advance table view) p = .ok p' ∧
          p'.Sound inputs (ids ++ stages.map (·.id))) ∨
      ∃ f, contributions table view stages = .error f ∧
        stages.foldlM (advance table view) p = .error f := by
  -- On the stages; the identifiers that have been served grow with each.
  induction stages generalizing p ids with
  | nil => exact .inl ⟨[], p, rfl, rfl, by simpa using h⟩
  | cons s rest ih =>
    rw [contributions, List.mapM_cons, List.foldlM_cons, advance]
    cases hc : (contribution table (view s) s).2 with
    | error f => exact .inr ⟨f, rfl, rfl⟩
    | ok c =>
      rw [List.map_cons, List.append_cons] at hids ⊢
      have hfirst : (ids ++ [s.id]).Pairwise Apart := (List.pairwise_append.mp hids).1
      obtain ⟨q, hq, hsound⟩ := h.exists_add (hfits s List.mem_cons_self c hc) hfirst
      have hbind : ((.ok c : Except Fault Contribution) >>= add p s) = .ok q := hq
      rw [hbind]
      obtain ⟨cs, p', hcs, hrun, hdone⟩ | ⟨f, hcs, hrun⟩ :=
        ih (fun s hs => hfits s (List.mem_cons_of_mem _ hs)) hsound hids
      · rw [contributions] at hcs
        exact .inl ⟨c :: cs, p', by rw [hcs]; rfl, hrun, hdone⟩
      · rw [contributions] at hcs
        exact .inr ⟨f, by rw [hcs]; rfl, hrun⟩

end Assembly

end SkillPipeline
