import Mathlib.Data.List.Pairwise
import SkillPipeline.Proofs.Effect.Acceptance
import SkillPipeline.Proofs.Pipeline.ClosedGraph
import SkillPipeline.Proofs.Pipeline.Readiness

namespace SkillPipeline

open Outcome Effect HandlerTable

/-- The handler of the stage takes every picture which the other stages leave over. -/
def Stage.takesRest (s : Stage) : Bool :=
  match s.skill.strategy with
  | .handler name => sequences.contains name
  | _ => false

theorem Stage.exists_claimsAs {s : Stage} {h : Handler}
    (hs : s.handler? .builtin = .ok (some h)) :
    ∃ name, s.skill.strategy = .handler name ∧ ClaimsAs name h := by
  obtain ⟨name, hname, hentry⟩ := s.exists_named hs
  exact ⟨name, hname, builtin_claimsAs (name, h) hentry⟩

namespace Reservation

variable {s : Stage} {stages : List Stage} {found : List Claimant}
  {view : List Nat → HandlerContext}

/-- What a sequence claims while it sees some inputs as owned. -/
def leftOver (ctx : HandlerContext) : List Nat := (ctx.freeExtras visualKinds).map (·.index)

/-- A claimant with a built-in handler comes last if it takes what is left over. -/
structure Claimant.Usual (c : Claimant) : Prop where
  last : c.last = c.stage.takesRest
  rest : c.last = true → c.reserve = claimRest

theorem claimant?_eq_ok {c? : Option Claimant} (h : claimant? .builtin s = .ok c?) :
    (c? = none ∧ s.takesRest = false) ∨ ∃ c, c? = some c ∧ c.stage = s ∧ c.Usual := by
  simp only [claimant?, bind_eq_ok, pure_eq_ok] at h
  obtain ⟨h?, hhandler, rfl⟩ := h
  cases h? with
  | none =>
    refine .inl ⟨rfl, ?_⟩
    rw [Stage.handler?] at hhandler
    rw [Stage.takesRest]
    cases hstrategy : s.skill.strategy with
    | handler name =>
      simp only [hstrategy] at hhandler
      split at hhandler <;> cases hhandler
    | template text target => rfl
    | pipeline calls => rfl
  | some h =>
    obtain ⟨name, hname, hclaims⟩ := s.exists_claimsAs hhandler
    -- A handler claims by its name, so it takes what is left over if it is that of a sequence.
    have hrest : s.takesRest = true ↔ name ∈ sequences := by simp [Stage.takesRest, hname]
    cases hreserve : h.reserve? with
    | none =>
      refine .inl ⟨by simp [hreserve], eq_false_of_ne_true fun htrue => ?_⟩
      cases hreserve.symm.trans (hclaims.rest (hrest.mp htrue))
    | some claim =>
      refine .inr ⟨⟨s, claim, h.reservesLast⟩, by simp [hreserve], rfl, ?_, fun hlast => ?_⟩
      · exact Bool.eq_iff_iff.mpr (hclaims.last.trans hrest.symm)
      · exact Option.some.inj (hreserve.symm.trans (hclaims.rest (hclaims.last.mp hlast)))

/-- The stages that claim something are among all in the same order, and all sequences do. -/
theorem claimants_stages (h : claimants .builtin stages = .ok found) :
    (found.map (·.stage)).Sublist stages ∧
      (found.map (·.stage)).filter (·.takesRest) = stages.filter (·.takesRest) ∧
        ∀ c ∈ found, c.Usual := by
  simp only [claimants, bind_eq_ok, pure_eq_ok, mapM_eq_ok] at h
  obtain ⟨all, hall, rfl⟩ := h
  induction hall with
  | nil => exact ⟨.slnil, rfl, by simp⟩
  | @cons s c? stages all hfirst hrest ih =>
    obtain ⟨hsublist, hfilter, husual⟩ := ih
    obtain ⟨rfl, hnot⟩ | ⟨c, rfl, rfl, hc⟩ := claimant?_eq_ok hfirst
    · rw [List.filterMap_cons_none (f := id) rfl]
      exact ⟨hsublist.cons s, by rw [hfilter, List.filter_cons_of_neg (by simp [hnot])], husual⟩
    · rw [List.filterMap_cons_some (f := id) rfl, List.map_cons]
      refine ⟨hsublist.cons_cons c.stage, ?_, List.forall_mem_cons.mpr ⟨hc, husual⟩⟩
      rw [List.filter_cons, List.filter_cons, hfilter]

end Reservation

/-- Reservations in their two phases: first those of stages that are no sequences, and then every
sequence has what is left over by those. -/
structure Reservations.Phased (view : List Nat → HandlerContext) (stages : List Stage)
    (first r : Reservations) : Prop where
  keys : (first.map (·.1)).Sublist ((stages.filter (!·.takesRest)).map (·.id))
  split : r = first ++ (stages.filter (·.takesRest)).map fun s =>
    (s.id, Reservation.leftOver (view first.all))
  nodup : r.all.Nodup

open Reservation Reservations

variable {stages : List Stage} {view : List Nat → HandlerContext} {first r : Reservations}

theorem reserve_phased (h : reserve .builtin view stages = .ok r) :
    ∃ first, Phased view stages first r := by
  obtain ⟨found, first, last, hfound, rfl, hfirst, hlast, hnodup⟩ := reserve_phases h
  obtain ⟨hsublist, hfilter, husual⟩ := claimants_stages hfound
  have hstages (q : Bool → Bool) : (found.filter (q ·.last)).map (·.stage) =
      (found.map (·.stage)).filter (q ·.takesRest) := by
    rw [List.filter_map]
    exact congrArg _ (List.filter_congr fun c hc => congrArg q (husual c hc).last)
  refine ⟨first, ?_, ?_, hnodup⟩
  · have hkeys : first.map (·.1) = ((found.filter (!·.last)).map (·.stage)).map (·.id) := by
      rw [List.map_map]
      exact map_eq_of_forall₂ hfirst fun c entry hrecord => hrecord.choose_spec.1
    rw [hkeys, hstages (!·)]
    exact (hsublist.filter _).map _
  · have hentries : last = (found.filter (·.last)).map fun c =>
        (c.stage.id, leftOver (view first.all)) := by
      rw [← List.map_id last]
      refine map_eq_of_forall₂ (forall₂_mem hlast) fun c entry hentry => ?_
      obtain ⟨hc, -, hid, hclaimed⟩ := hentry
      obtain ⟨hmem, hcomes⟩ := List.mem_filter.mp hc
      rw [(husual c hmem).rest hcomes] at hclaimed
      exact Prod.ext hid (Except.ok.inj hclaimed).symm
    rw [hentries, ← hfilter, ← hstages (·), List.map_map]
    rfl

namespace Reservations

variable {entry other : String × List Nat} {s t : Stage} {index : Nat}

/-- The inputs of an entry are owned by the stage with its identifier, if there is one entry for
each. -/
theorem ownedBy_of_mem (hkeys : (r.map (·.1)).Nodup) (h : entry ∈ r) :
    r.ownedBy entry.1 = entry.2 := by
  obtain ⟨before, after, rfl⟩ := List.append_of_mem h
  have hbefore : ∀ e ∈ before, (entry.1 != e.1) = true := by
    intro e he
    rw [List.map_append, List.map_cons] at hkeys
    have hdisjoint := List.disjoint_of_nodup_append hkeys
    have hne : entry.1 ≠ e.1 := fun heq =>
      hdisjoint (List.mem_map_of_mem he) (heq ▸ List.mem_cons_self)
    simpa using hne
  have hlookup : (before ++ entry :: after).lookup entry.1 = some entry.2 :=
    List.lookup_eq_some_iff.mpr ⟨before, after, rfl, hbefore⟩
  rw [ownedBy, hlookup, Option.getD_some]

theorem disjoint_of_mem (hnodup : r.all.Nodup) (h : entry ∈ r) (h' : other ∈ r)
    (hne : entry ≠ other) : entry.2.Disjoint other.2 := by
  obtain ⟨-, hpairs⟩ := List.nodup_flatMap.mp hnodup
  have hsymm : Std.Symm (Function.onFun List.Disjoint fun e : String × List Nat => e.2) :=
    ⟨fun _ _ hdisjoint _ hb ha => hdisjoint ha hb⟩
  exact hpairs.forall h h' hne

namespace Phased

theorem nodup_keys (h : Phased view stages first r) (hids : (stages.map (·.id)).Nodup) :
    (r.map (·.1)).Nodup := by
  have hsequences : ((stages.filter (·.takesRest)).map fun s =>
      (s.id, leftOver (view first.all))).map (·.1) = (stages.filter (·.takesRest)).map (·.id) := by
    rw [List.map_map]
    rfl
  have hsublist : (r.map (·.1)).Sublist
      ((stages.filter (!·.takesRest) ++ stages.filter (·.takesRest)).map (·.id)) := by
    rw [h.split, List.map_append, List.map_append, hsequences]
    exact h.keys.append_right _
  have hperm : (stages.filter (!·.takesRest) ++ stages.filter (·.takesRest)).Perm stages :=
    List.perm_append_comm.trans (List.filter_append_perm _ _)
  exact hsublist.nodup ((hperm.map _).nodup_iff.mpr hids)

theorem mem_first (h : Phased view stages first r) (hids : (stages.map (·.id)).Nodup) :
    index ∈ first.all ↔ ∃ t ∈ stages, t.takesRest = false ∧ index ∈ r.ownedBy t.id := by
  constructor
  · intro hindex
    obtain ⟨entry, hentry, hclaimed⟩ := List.mem_flatMap.mp hindex
    obtain ⟨t, ht, hid⟩ := List.mem_map.mp (h.keys.subset (List.mem_map_of_mem hentry))
    obtain ⟨hmem, hfirst⟩ := List.mem_filter.mp ht
    refine ⟨t, hmem, by simpa using hfirst, ?_⟩
    have hr : entry ∈ r := h.split ▸ List.mem_append_left _ hentry
    rw [hid, ownedBy_of_mem (h.nodup_keys hids) hr]
    exact hclaimed
  · rintro ⟨t, ht, hfirst, hindex⟩
    obtain ⟨entry, hentry, hid, hclaimed⟩ := exists_of_mem_ownedBy hindex
    rw [h.split] at hentry
    obtain hentry | hentry := List.mem_append.mp hentry
    · exact List.mem_flatMap.mpr ⟨entry, hentry, hclaimed⟩
    · -- An entry of a sequence is of another stage, since that one is none.
      obtain ⟨s, hs, rfl⟩ := List.mem_map.mp hentry
      obtain ⟨hmem, hsequence⟩ := List.mem_filter.mp hs
      obtain rfl : s = t := List.inj_on_of_nodup_map hids hmem ht hid
      cases hfirst.symm.trans hsequence

end Phased

def elsewhere (r : Reservations) (stages : List Stage) (s : Stage) : List Nat :=
  (stages.filter (·.id != s.id)).flatMap fun t => r.ownedBy t.id

theorem mem_elsewhere :
    index ∈ r.elsewhere stages s ↔ ∃ t ∈ stages, t.id ≠ s.id ∧ index ∈ r.ownedBy t.id := by
  simp [elsewhere, and_assoc]

/-- If there is one sequence, what is reserved first is what all other stages own. -/
theorem Phased.mem_first_iff_elsewhere (h : Phased view stages first r)
    (hids : (stages.map (·.id)).Nodup) (hone : stages.filter (·.takesRest) = [s]) :
    index ∈ first.all ↔ index ∈ r.elsewhere stages s := by
  rw [h.mem_first hids, mem_elsewhere]
  obtain ⟨hs, hsequence⟩ : s ∈ stages ∧ s.takesRest = true :=
    List.mem_filter.mp (hone ▸ List.mem_singleton_self s)
  constructor
  · rintro ⟨t, ht, hfirst, hindex⟩
    refine ⟨t, ht, fun hid => ?_, hindex⟩
    obtain rfl : t = s := List.inj_on_of_nodup_map hids ht hs hid
    cases hfirst.symm.trans hsequence
  · rintro ⟨t, ht, hid, hindex⟩
    refine ⟨t, ht, eq_false_of_ne_true fun hsecond => hid ?_, hindex⟩
    have hmem : t ∈ stages.filter (·.takesRest) := List.mem_filter.mpr ⟨ht, hsecond⟩
    rw [hone] at hmem
    rw [List.mem_singleton.mp hmem]

end Reservations

namespace Compiler

open Assembly

variable {c : Compiler} {ctx : Context} {s : Stage}

/-- The pictures among the extra inputs that no other stage owns, in order. -/
def unclaimed (ctx : Context) (stages : List Stage) (r : Reservations) (s : Stage) :
    List ExtraInput :=
  ctx.extras.filter fun e =>
    visualKinds.contains e.kind && !(r.elsewhere stages s).contains e.index

/-- Every stage has its extra inputs for itself, gets by with them, and a sequence has the pictures
that are left over. -/
structure Exclusive (c : Compiler) (ctx : Context) (stages : List Stage) (r : Reservations) :
    Prop where
  disjoint : stages.Pairwise fun s t => (r.ownedBy s.id).Disjoint (r.ownedBy t.id)
  accepted : ∀ s ∈ stages, ∀ index ∈ r.ownedBy s.id, ∃ name, s.skill.strategy = .handler name ∧
    ∃ e ∈ ctx.extras, e.index = index ∧ e.kind ∈ acceptedKinds name
  pads : ∀ s ∈ stages, ∀ a f, (contribution c.handlers (c.view ctx r s) s).2 = .ok a →
    a.graph? = some f → ∀ node ∈ f.nodes, ∀ index medium,
      .input index medium ∈ node.inputs → index ∈ r.ownedBy s.id
  audioSource : ∀ s ∈ stages, ∀ a index,
    (contribution c.handlers (c.view ctx r s) s).2 = .ok a →
      a.audioSource? = some index → index ∈ r.ownedBy s.id
  furnished : ∀ s ∈ stages, ∀ skill, (contribution c.handlers (c.view ctx r s) s).2 ≠
    .error (.invariant (.noReservedInput skill))
  sequence : ∀ s, stages.filter (·.takesRest) = [s] →
    r.ownedBy s.id = (unclaimed ctx stages r s).map (·.index)
  sequences : 2 ≤ (stages.filter (·.takesRest)).length → ∀ e ∈ ctx.extras, e.kind ∈ visualKinds →
    ∃ t ∈ stages, t.takesRest = false ∧ e.index ∈ r.ownedBy t.id

/-- A stage claims inputs only if it has a handler, and of kinds that its handler accepts. -/
theorem owned_accepted (hhandlers : c.handlers = .builtin) (hids : (stages.map (·.id)).Nodup)
    (hr : c.reservations ctx stages = .ok r) (hs : s ∈ stages) {index : Nat}
    (hindex : index ∈ r.ownedBy s.id) : ∃ name, s.skill.strategy = .handler name ∧
      ∃ e ∈ ctx.extras, e.index = index ∧ e.kind ∈ acceptedKinds name := by
  obtain ⟨entry, hentry, hid, hclaimed⟩ := exists_of_mem_ownedBy hindex
  rw [reservations, hhandlers] at hr
  obtain ⟨owner, howner, hsame, claim, ⟨h, hhandler, hreserve⟩, taken, hclaim⟩ :=
    (reserve_eq_ok hr).1 entry hentry
  obtain rfl : owner = s := List.inj_on_of_nodup_map hids howner hs (hsame.trans hid)
  obtain ⟨name, hname, hclaims⟩ := owner.exists_claimsAs hhandler
  exact ⟨name, hname, hclaims.accepts claim hreserve _ _ _ hclaim index hclaimed⟩

theorem contribution_furnished (hhandlers : c.handlers = .builtin)
    (hids : (stages.map (·.id)).Nodup) (hr : c.reservations ctx stages = .ok r) (hs : s ∈ stages)
    {skill : String} : (contribution c.handlers (c.view ctx r s) s).2 ≠
      .error (.invariant (.noReservedInput skill)) := by
  intro hf
  rw [hhandlers, contribution] at hf
  -- A template needs no input, and a handler whose stage owns one misses none.
  split at hf
  · next text target _ =>
    have hmeets := Params.meets_renderTemplate (r := ⟨[], s.params, c.view ctx r s⟩)
      (p := s.params) text target
    cases (hmeets.of_eq_error hf).1
  · cases hf
  · split at hf
    · next f hhandler =>
      rw [Stage.handler?] at hhandler
      split at hhandler
      · split at hhandler <;> cases hhandler
        cases hf
      · cases hhandler
    · cases hf
    · next h hhandler =>
      obtain ⟨name, hentry⟩ := s.exists_entry hhandler
      obtain ⟨needs, hkeeps⟩ := builtin_keeps (name, h) hentry
      obtain ⟨hcompile, -⟩ | ⟨e, -, heq⟩ := guarded_eq_error hf
      · obtain ⟨hneed, hmissing⟩ := (hkeeps.compiles _ _).of_eq_error hcompile
        exact hmissing (met_ownInput hhandlers hids hr hs hhandler hkeeps hneed)
      · cases heq

theorem pads_owned (hhandlers : c.handlers = .builtin) {a : Contribution} {f : Fragment}
    (ha : (contribution c.handlers (c.view ctx r s) s).2 = .ok a) (hf : a.graph? = some f)
    {node : GraphNode} (hnode : node ∈ f.nodes) {index : Nat} {medium : Medium}
    (hpad : .input index medium ∈ node.inputs) : index ∈ r.ownedBy s.id := by
  rw [hhandlers] at ha
  have hsound := contribution_sound builtin_keeps ha
  refine (hsound.fragment f hf (List.ne_nil_of_mem hnode)).owned index ?_
  have hmem : Pad.input index medium ∈ f.pads := List.mem_flatMap.mpr ⟨node, hnode, hpad⟩
  exact List.mem_filterMap.mpr ⟨_, hmem, rfl⟩

theorem sequence_owns (hids : (stages.map (·.id)).Nodup)
    (h : Phased (fun taken => ctx.handlerView c.files taken []) stages first r)
    (hone : stages.filter (·.takesRest) = [s]) :
    r.ownedBy s.id = (unclaimed ctx stages r s).map (·.index) := by
  have hentry : (s.id, leftOver (ctx.handlerView c.files first.all [])) ∈ r := by
    rw [h.split, hone]
    exact List.mem_append_right _ (List.mem_singleton_self _)
  rw [ownedBy_of_mem (h.nodup_keys hids) hentry]
  refine congrArg _ (List.filter_congr fun e _ => ?_)
  have hfirst : first.all.contains e.index = (r.elsewhere stages s).contains e.index := by
    rw [Bool.eq_iff_iff, List.contains_iff_mem, List.contains_iff_mem]
    exact h.mem_first_iff_elsewhere hids hone
  rw [← hfirst, Bool.and_comm]
  rfl

theorem leftOver_eq_nil (h : Phased view stages first r)
    (htwo : 2 ≤ (stages.filter (·.takesRest)).length) : leftOver (view first.all) = [] := by
  have hnodup := h.nodup
  rw [h.split] at hnodup
  rcases hsequences : stages.filter (·.takesRest) with _ | ⟨s, _ | ⟨t, rest⟩⟩
  · simp [hsequences] at htwo
  · simp [hsequences] at htwo
  · rw [hsequences, all, List.flatMap_append, List.map_cons, List.map_cons, List.flatMap_cons,
      List.flatMap_cons] at hnodup
    have hdisjoint := List.disjoint_of_nodup_append hnodup.of_append_right
    refine List.eq_nil_iff_forall_not_mem.mpr fun index hindex => ?_
    exact hdisjoint hindex (List.mem_append_left _ hindex)

/-- Extra inputs are owned exclusively, whatever the skills and the extra inputs are. -/
theorem reservations_exclusive (hhandlers : c.handlers = .builtin) {steps : List Step}
    {session : Session} (hstages : ((Expansion.steps false 0 steps).run session).1.2 = .ok stages)
    (hr : c.reservations ctx stages = .ok r) : c.Exclusive ctx stages r := by
  have hids := Expansion.steps_nodup_ids hstages
  have hreserve := hr
  rw [reservations, hhandlers] at hreserve
  obtain ⟨first, hphased⟩ := reserve_phased hreserve
  refine ⟨?_, fun s hs index => owned_accepted hhandlers hids hr hs,
    fun s _ a f ha hf node hnode index medium => pads_owned hhandlers ha hf hnode, ?_,
    fun s hs skill => contribution_furnished hhandlers hids hr hs,
    fun s hone => sequence_owns hids hphased hone, fun htwo e he hkind => ?_⟩
  · refine (List.pairwise_map.mp hids).imp fun {s t} hne index hs ht => ?_
    obtain ⟨entry, hentry, hid, hindex⟩ := exists_of_mem_ownedBy hs
    obtain ⟨other, hother, hid', hindex'⟩ := exists_of_mem_ownedBy ht
    have hapart : entry ≠ other := fun heq => hne (hid.symm.trans (heq ▸ hid'))
    exact disjoint_of_mem hphased.nodup hentry hother hapart hindex hindex'
  · intro s hs a index ha hsource
    rw [hhandlers] at ha
    exact (contribution_sound builtin_keeps ha).audioSource index hsource
  · -- What the other stages leave over is nothing, so this picture is theirs.
    refine (hphased.mem_first hids).mp (by_contra fun hfree => ?_)
    have hleft : e.index ∈ leftOver (ctx.handlerView c.files first.all []) :=
      List.mem_map_of_mem (HandlerContext.mem_freeExtras.mpr ⟨he, hfree, hkind⟩)
    rw [leftOver_eq_nil hphased htwo] at hleft
    cases hleft

/-- A sequence, and a step after it that wants one picture. -/
def reelSession : Session := { registry := .ofSkills [
  { name := "reel", category := .multiInput, strategy := .handler "concat" },
  { name := "ghost", category := .multiInput, strategy := .handler "blend" }] }

/-- Two pictures with a sound between them. -/
def reelContext : Context where
  input := "/in.mp4"
  output := "/out.mp4"
  extras := [⟨1, "/logo.png", .image, none⟩, ⟨2, "/song.mp3", .audio, none⟩,
    ⟨3, "/clip.mp4", .video, none⟩]
  duration? := none
  fps := 25
  width := 640
  height := 360
  hasAudio := true
  textInputs := []
  stillDuration := 4
  overwrite := true

theorem reservations_exclusive_reel : ∃ stages,
    ((Expansion.steps false 0 [⟨"reel", []⟩, ⟨"ghost", []⟩]).run reelSession).1.2 = .ok stages ∧
      mirrorCompiler.reservations reelContext stages = .ok [("s2", [1]), ("s1", [3])] ∧
        mirrorCompiler.Exclusive reelContext stages [("s2", [1]), ("s1", [3])] := by
  have hstages : ((Expansion.steps false 0 [⟨"reel", []⟩, ⟨"ghost", []⟩]).run reelSession).1.2 =
    .ok _ := rfl
  exact ⟨_, hstages, rfl, reservations_exclusive rfl hstages rfl⟩

end Compiler

end SkillPipeline
