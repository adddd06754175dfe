import SkillPipeline.Proofs.Catalogue.Guarantees
import SkillPipeline.Proofs.Pipeline.Plan
import SkillPipeline.Proofs.Pipeline.Expansion
import SkillPipeline.Proofs.Pipeline.Ownership
import SkillPipeline.Proofs.Pipeline.Rendering

namespace SkillPipeline

open Outcome

/-- Where no need fails, an excuse is that the fault is one of the request, or what it says. -/
theorem Reliance.Excuses.cases {r : Reliance} {f : Fault} (h : r.Excuses f) (hmet : ¬ r.Failed) :
    f.Blameless ∨ (∃ n, f = .invariant (.notFinite n) ∧ n.isFinite = false) ∨
      (∃ m, f = .invariant (.notText m.kindName) ∧ r.params.InheritsColor m) ∨
        ∃ path e, f = .exception (.system e) ∧ r.ctx.files.lookUp path = .error e := by
  cases f with
  | invariant cause =>
    cases cause with
    | notFinite n => exact .inr (.inl ⟨n, rfl, h.resolve_right hmet⟩)
    | notText kind =>
      obtain ⟨m, hm, rfl⟩ := h.resolve_right hmet
      exact .inr (.inr (.inl ⟨m, rfl, hm⟩))
    | noReservedInput skill => exact absurd ⟨.ownInput, h⟩ hmet
    | _ => exact absurd h hmet
  | exception e =>
    obtain ⟨path, e, hlook, rfl⟩ := h
    exact .inr (.inr (.inr ⟨path, e, rfl, hlook⟩))
  | _ => exact .inl ⟨_, rfl, nofun⟩

/-- A template that cannot be filled is a fault of the request, or has a number that is not
finite. -/
theorem Params.renderTemplate_error {p : Params} {template : String} {target : Target} {f : Fault}
    (ctx : HandlerContext) (h : p.renderTemplate template target = .error f) :
    f.Blameless ∨ ∃ n, f = .invariant (.notFinite n) ∧ n.isFinite = false := by
  -- A template neither looks up a colour nor looks at a file, so it meets what others give it, too.
  let files : FileSystem := { workingDir := "/", home := "/", nodes := [] }
  have hmeets := meets_renderTemplate (r := ⟨[], ⟨p.skill, []⟩, { ctx with files }⟩) (p := p)
    template target
  obtain hblameless | hfinite | ⟨m, -, v, hv, -⟩ | ⟨path, e, -, hlook⟩ :=
    (hmeets.of_eq_error h).cases fun ⟨_, hneed, _⟩ => nomatch hneed
  · exact .inl hblameless
  · exact .inr hfinite
  · cases hv
  · cases (FileSystem.lookUp_eq_error.mp hlook).1

/-- What a stage breaks down over. An exception in its handler counts as a fault of the stage. -/
inductive Stage.Breaks (s : Stage) (files : FileSystem) : Fault → Prop
  | notFinite {n : Float} (h : n.isFinite = false) : Breaks s files (.invariant (.notFinite n))
  | notText {m : Inherited} (h : s.params.InheritsColor m) :
      Breaks s files (.invariant (.notText m.kindName))
  | refused {path : String} {e : SystemFailure} (h : files.lookUp path = .error e) :
      Breaks s files (.invariant (.handlerFailed s.skill.name e.message))

/-- A prepared stage of a built-in skill that is no sub-pipeline. -/
def Stage.Ready (s : Stage) : Prop :=
  s.params.Ready (· ∈ Catalogue.builtin) ∧ s.skill.isPipeline = false

namespace Stage

variable {s : Stage} {h : Handler} {f : Fault}

/-- A stage that is done by a handler has one, whose needs are met but for an input of its own. -/
theorem Ready.exists_handler (hs : s.Ready) {name : String}
    (hname : s.skill.strategy = .handler name) :
    ∃ h needs, s.handler? .builtin = .ok (some h) ∧ h.Keeps needs ∧
      ∀ need ∈ Handler.claimNeeds needs, ∀ ctx, need.Met s.params ctx := by
  obtain ⟨h, needs, hfind, hkeeps, hneeds⟩ := Skill.exists_handler hs.1.2 hname
  refine ⟨h, needs, ?_, hkeeps, fun need hneed ctx => hs.1.1.met (hneeds need hneed)⟩
  simp only [handler?, hname, hfind]

theorem Ready.handler?_cases (hs : s.Ready) :
    s.handler? .builtin = .ok none ∨
      ∃ h needs, s.handler? .builtin = .ok (some h) ∧ h.Keeps needs ∧
        ∀ need ∈ Handler.claimNeeds needs, ∀ ctx, need.Met s.params ctx := by
  cases hname : s.skill.strategy with
  | template text target => exact .inl (by simp only [handler?, hname])
  | pipeline calls => exact .inl (by simp only [handler?, hname])
  | handler name => exact .inr (hs.exists_handler hname)

theorem Ready.handler?_ne_error (hs : s.Ready) : s.handler? .builtin ≠ .error f := by
  obtain hnone | ⟨h, needs, hsome, -⟩ := hs.handler?_cases
  · rw [hnone]
    exact nofun
  · rw [hsome]
    exact nofun

/-- The handler of a stage has needs, which are met but for an input of the stage's own. -/
theorem Ready.exists_needs (hs : s.Ready) (hhandler : s.handler? .builtin = .ok (some h)) :
    ∃ needs, h.Keeps needs ∧
      ∀ need ∈ Handler.claimNeeds needs, ∀ ctx, need.Met s.params ctx := by
  obtain hnone | ⟨h', needs, hsome, hkeeps⟩ := hs.handler?_cases
  · cases hnone.symm.trans hhandler
  · cases hsome.symm.trans hhandler
    exact ⟨needs, hkeeps⟩

theorem Ready.claim_blameless (hs : s.Ready)
    {claim : Params → HandlerContext → Except Fault (List Nat)} {ctx : HandlerContext}
    (hreserves : Reservation.Reserves .builtin s claim) (hf : claim s.params ctx = .error f) :
    f.Blameless := by
  obtain ⟨h, hhandler, hreserve⟩ := hreserves
  obtain ⟨needs, hkeeps, hmet⟩ := hs.exists_needs hhandler
  have hclaims := hkeeps.claims claim hreserve
  have hfailed : ¬ Reliance.Failed ⟨Handler.claimNeeds needs, s.params, ctx⟩ :=
    fun ⟨need, hneed, hnot⟩ => hnot (hmet need hneed ctx)
  have houtward := hclaims.wordless s.params ctx f hf
  obtain hblameless | ⟨n, rfl, -⟩ | ⟨m, rfl, -⟩ | ⟨path, e, rfl, -⟩ :=
    ((hclaims.meets s.params ctx).of_eq_error hf).cases hfailed
  · exact hblameless
  · exact absurd (.notFinite n) houtward
  · exact absurd (.notText _) houtward
  · exact absurd (.exception _) houtward

end Stage

namespace Compiler

variable {c : Compiler} {ctx : Context} {stages : List Stage} {r : Reservations} {s : Stage}
  {f : Fault}

theorem reservations_blameless (hhandlers : c.handlers = .builtin)
    (hready : ∀ s ∈ stages, s.Ready) (hf : c.reservations ctx stages = .error f) :
    f.Blameless := by
  rw [reservations, hhandlers] at hf
  obtain hblameless | ⟨s, hs, hhandler⟩ | ⟨s, hs, claim, hreserves, taken, hclaim⟩ :=
    reserve_error hf
  · exact hblameless
  · exact absurd hhandler (hready s hs).handler?_ne_error
  · exact (hready s hs).claim_blameless hreserves hclaim

theorem met_ownInput (hhandlers : c.handlers = .builtin) (hnodup : (stages.map (·.id)).Nodup)
    (hr : c.reservations ctx stages = .ok r) (hs : s ∈ stages) {h : Handler} {needs : List Need}
    (hhandler : s.handler? .builtin = .ok (some h)) (hkeeps : h.Keeps needs)
    (hneed : .ownInput ∈ needs) : Need.ownInput.Met s.params (c.view ctx r s) := by
  rw [reservations, hhandlers] at hr
  obtain ⟨claim, hclaim⟩ := Option.isSome_iff_exists.mp (hkeeps.owns hneed)
  obtain ⟨entry, hentry, hid⟩ := (reserve_eq_ok hr).2 s hs claim ⟨h, hhandler, hclaim⟩
  obtain ⟨claimed, hclaimed⟩ : ∃ claimed, r.lookup s.id = some claimed :=
    Option.isSome_iff_exists.mp
      (List.lookup_isSome_iff.mpr ⟨entry, hentry, beq_iff_eq.mpr hid.symm⟩)
  -- The entry that is found is one of a stage with this identifier, and there is only one.
  obtain ⟨before, after, hsplit, -⟩ := List.lookup_eq_some_iff.mp hclaimed
  have hmem : (s.id, claimed) ∈ r := hsplit ▸ List.mem_append_right _ List.mem_cons_self
  obtain ⟨owner, howner, hsame, other, ⟨h', hhandler', hother⟩, taken, htaken⟩ :=
    (reserve_eq_ok hr).1 _ hmem
  obtain rfl : owner = s := List.inj_on_of_nodup_map hnodup howner hs hsame
  obtain rfl : h = h' := Option.some.inj (Except.ok.inj (hhandler.symm.trans hhandler'))
  obtain rfl : claim = other := Option.some.inj (hclaim.symm.trans hother)
  obtain ⟨hthere, hsome⟩ := ((hkeeps.claims claim hclaim).meets _ _).of_eq_ok htaken
  cases claimed with
  | nil => exact absurd rfl (hsome hneed)
  | cons index rest =>
    obtain ⟨e, he, rfl⟩ := hthere index List.mem_cons_self
    have hown : (c.view ctx r owner).ownInputs = e.index :: rest := by
      rw [view, Context.handlerView, Reservations.ownedBy, hclaimed, Option.getD_some]
    rw [Need.Met, hown]
    exact List.find?_isSome.mpr ⟨e, he, beq_self_eq_true e.index⟩

theorem contribution_error (hhandlers : c.handlers = .builtin) (hready : ∀ s ∈ stages, s.Ready)
    (hnodup : (stages.map (·.id)).Nodup) (hr : c.reservations ctx stages = .ok r) (hs : s ∈ stages)
    (hf : (Assembly.contribution c.handlers (c.view ctx r s) s).2 = .error f) :
    f.Blameless ∨ s.Breaks c.files f := by
  have hsready := hready s hs
  rw [hhandlers, Assembly.contribution] at hf
  cases hname : s.skill.strategy with
  | pipeline calls => simp [Stage.Ready, Skill.isPipeline, hname] at hsready
  | template text target =>
    simp only [hname] at hf
    obtain hblameless | ⟨n, rfl, hn⟩ := Params.renderTemplate_error (c.view ctx r s) hf
    · exact .inl hblameless
    · exact .inr (.notFinite hn)
  | handler name =>
    -- An input of its own the stage has reserved, and other needs its parameters meet.
    obtain ⟨h, needs, hhandler, hkeeps, hmet⟩ := hsready.exists_handler hname
    simp only [hname, hhandler] at hf
    have hfailed : ¬Reliance.Failed ⟨needs, s.params, c.view ctx r s⟩ := by
      rintro ⟨need, hneed, hnot⟩
      by_cases hown : need = .ownInput
      · subst hown
        exact hnot (met_ownInput hhandlers hnodup hr hs hhandler hkeeps hneed)
      · exact hnot (hmet need (List.mem_filter.mpr ⟨hneed, decide_eq_true hown⟩) _)
    obtain ⟨hcompile, hno⟩ | ⟨e, hcompile, rfl⟩ := Assembly.guarded_eq_error hf
    · obtain hblameless | ⟨n, rfl, hn⟩ | ⟨m, rfl, hm⟩ | ⟨path, e, rfl, -⟩ :=
        ((hkeeps.compiles _ _).of_eq_error hcompile).cases hfailed
      · exact .inl hblameless
      · exact .inr (.notFinite hn)
      · exact .inr (.notText hm)
      · exact absurd rfl (hno _)
    · obtain ⟨path, e, hlook, rfl⟩ := (hkeeps.compiles _ _).of_eq_error hcompile
      exact .inr (.refused hlook)

end Compiler

end SkillPipeline
