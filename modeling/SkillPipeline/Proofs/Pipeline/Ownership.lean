import SkillPipeline.Pipeline.Reservation
import SkillPipeline.Proofs.Effect.Contract
import SkillPipeline.Proofs.Outcome
import SkillPipeline.Proofs.Work

namespace SkillPipeline

open Outcome

theorem HandlerTable.mem_of_find? {table : HandlerTable} {name : String} {h : Handler}
    (hfind : table.find? name = some h) : (name, h) ∈ table := by
  obtain ⟨before, after, rfl, -⟩ := List.lookup_eq_some_iff.mp hfind
  exact List.mem_append_right _ List.mem_cons_self

theorem Stage.exists_named {table : HandlerTable} {s : Stage} {h : Handler}
    (hs : s.handler? table = .ok (some h)) :
    ∃ name, s.skill.strategy = .handler name ∧ (name, h) ∈ table := by
  rw [Stage.handler?] at hs
  split at hs
  · next name hname =>
    split at hs
    · next hfind =>
      rw [Except.ok.injEq, Option.some.injEq] at hs
      exact ⟨name, hname, hs ▸ HandlerTable.mem_of_find? hfind⟩
    · cases hs
  · cases hs

theorem Stage.exists_entry {table : HandlerTable} {s : Stage} {h : Handler}
    (hs : s.handler? table = .ok (some h)) : ∃ name, (name, h) ∈ table := by
  obtain ⟨name, -, hentry⟩ := s.exists_named hs
  exact ⟨name, hentry⟩

namespace Reservation

variable {table : HandlerTable} {view : List Nat → HandlerContext} {stages : List Stage}

/-- The stage has a handler that claims inputs in this way. -/
def Reserves (table : HandlerTable) (s : Stage)
    (claim : Params → HandlerContext → Except Fault (List Nat)) : Prop :=
  ∃ h, s.handler? table = .ok (some h) ∧ h.reserve? = some claim

theorem claimants_eq_ok {found : List Claimant} (h : claimants table stages = .ok found) :
    (∀ c ∈ found, c.stage ∈ stages ∧ Reserves table c.stage c.reserve) ∧
      ∀ s ∈ stages, ∀ claim, Reserves table s claim → ∃ c ∈ found, c.stage = s := by
  have hclaimant (s : Stage) (c? : Option Claimant) (hs : claimant? table s = .ok c?) :
      ∃ h?, s.handler? table = .ok h? ∧
        (h?.bind fun h => h.reserve?.map fun reserve => ⟨s, reserve, h.reservesLast⟩) = c? := by
    simpa only [claimant?, bind_eq_ok, pure_eq_ok] using hs
  simp only [claimants, bind_eq_ok, pure_eq_ok, mapM_eq_ok] at h
  obtain ⟨all, hall, rfl⟩ := h
  constructor
  · intro c hc
    obtain ⟨c?, hmem, rfl⟩ := List.mem_filterMap.mp hc
    obtain ⟨s, hs, hclaim⟩ := exists_of_mem_right hall hmem
    obtain ⟨h?, hhandler, hbind⟩ := hclaimant s _ hclaim
    obtain ⟨h, rfl, hmap⟩ := Option.bind_eq_some_iff.mp hbind
    obtain ⟨reserve, hreserve, rfl⟩ := Option.map_eq_some_iff.mp hmap
    exact ⟨hs, h, hhandler, hreserve⟩
  · intro s hs claim ⟨h, hhandler, hreserve⟩
    obtain ⟨c?, hmem, hclaim⟩ := exists_of_mem_left hall hs
    obtain ⟨h?, hsame, hbind⟩ := hclaimant s c? hclaim
    obtain rfl : some h = h? := Except.ok.inj (hhandler.symm.trans hsame)
    rw [Option.bind_some, hreserve, Option.map_some] at hbind
    exact ⟨⟨s, claim, h.reservesLast⟩, List.mem_filterMap.mpr ⟨c?, hmem, hbind.symm⟩, rfl⟩

/-- An entry of the reservations is what a claimant claims that sees the inputs in `taken` as
owned. -/
def Claimed (view : List Nat → HandlerContext) (taken : List Nat) (c : Claimant)
    (entry : String × List Nat) : Prop :=
  entry.1 = c.stage.id ∧ c.reserve c.stage.params (view taken) = .ok entry.2

/-- An entry of the reservations is what a claimant has claimed, whatever it saw as taken. -/
def Records (view : List Nat → HandlerContext) (c : Claimant) (entry : String × List Nat) : Prop :=
  ∃ taken, Claimed view taken c entry

/-- Each input that has an owner was reserved, and once only. -/
structure Progress.Tidy (p : Progress) : Prop where
  owned : p.owners.map (·.1) = Reservations.all p.reservations
  nodup : (Reservations.all p.reservations).Nodup

theorem tidy_start : Progress.Tidy {} := ⟨rfl, .nil⟩

theorem own_eq_ok {skill : String} {owners owners' : List (Nat × String)} {index : Nat}
    (h : own skill owners index = .ok owners') :
    index ∉ owners.map (·.1) ∧ owners' = owners ++ [(index, skill)] := by
  unfold own at h
  split at h
  · cases h
  · next hfree =>
    refine ⟨fun hmem => ?_, (Except.ok.inj h).symm⟩
    obtain ⟨owner, howner, rfl⟩ := List.mem_map.mp hmem
    exact absurd (List.lookup_eq_none_iff.mp hfree owner howner) (by simp)

theorem owns_eq_ok {skill : String} {claimed : List Nat} {owners owners' : List (Nat × String)}
    (h : claimed.foldlM (own skill) owners = .ok owners') (hnodup : (owners.map (·.1)).Nodup) :
    owners'.map (·.1) = owners.map (·.1) ++ claimed ∧ (owners'.map (·.1)).Nodup := by
  -- On the inputs that are claimed: none of them has an owner when its turn comes.
  induction claimed generalizing owners with
  | nil =>
    obtain rfl := pure_eq_ok.mp h
    exact ⟨(List.append_nil _).symm, hnodup⟩
  | cons index rest ih =>
    obtain ⟨u, hu, h⟩ := foldlM_cons_eq_ok.mp h
    obtain ⟨hfree, rfl⟩ := own_eq_ok hu
    have hkeys : (owners ++ [(index, skill)]).map (·.1) = owners.map (·.1) ++ [index] := by simp
    have hnodup : ((owners ++ [(index, skill)]).map (·.1)).Nodup := by
      rw [hkeys, List.nodup_append_comm, List.singleton_append]
      exact List.nodup_cons.mpr ⟨hfree, hnodup⟩
    obtain ⟨howners, hfinal⟩ := ih h hnodup
    exact ⟨by rw [howners, hkeys, List.append_assoc, List.singleton_append], hfinal⟩

theorem claim_eq_ok {taken : List Nat} {p p' : Progress} {c : Claimant}
    (h : claim view taken p c = .ok p') (hp : p.Tidy) :
    ∃ entry, Claimed view taken c entry ∧ p'.reservations = p.reservations ++ [entry] ∧
      p'.Tidy := by
  simp only [claim, bind_eq_ok, pure_eq_ok] at h
  obtain ⟨claimed, hclaimed, owners, howners, rfl⟩ := h
  obtain ⟨hkeys, hnodup⟩ := owns_eq_ok howners (by rw [hp.owned]; exact hp.nodup)
  have hall : owners.map (·.1) =
      Reservations.all (p.reservations ++ [(c.stage.id, claimed)]) := by
    rw [hkeys, hp.owned, Reservations.all, Reservations.all, List.flatMap_append,
      List.flatMap_singleton]
  exact ⟨(c.stage.id, claimed), ⟨rfl, hclaimed⟩, rfl, hall, hall ▸ hnodup⟩

theorem claims_eq_ok {taken : Progress → List Nat} {p p' : Progress} {cs : List Claimant}
    {R : Claimant → String × List Nat → Prop}
    (hR : ∀ p c entry, Claimed view (taken p) c entry → R c entry)
    (h : cs.foldlM (fun p c => claim view (taken p) p c) p = .ok p') (hp : p.Tidy) :
    ∃ entries, List.Forall₂ R cs entries ∧ p'.reservations = p.reservations ++ entries ∧
      p'.Tidy := by
  -- On the claimants: each appends one entry.
  induction cs generalizing p with
  | nil =>
    obtain rfl := pure_eq_ok.mp h
    exact ⟨[], .nil, (List.append_nil _).symm, hp⟩
  | cons c rest ih =>
    obtain ⟨u, hu, h⟩ := foldlM_cons_eq_ok.mp h
    obtain ⟨entry, hentry, hreservations, htidy⟩ := claim_eq_ok hu hp
    obtain ⟨entries, hentries, hrest, hfinal⟩ := ih h htidy
    refine ⟨entry :: entries, .cons (hR p c entry hentry) hentries, ?_, hfinal⟩
    rw [hrest, hreservations, List.append_assoc, List.singleton_append]

theorem own_blameless {skill : String} {owners : List (Nat × String)} {index : Nat} {f : Fault}
    (h : own skill owners index = .error f) : f.Blameless := by
  rw [own] at h
  split at h
  · cases h
    exact ⟨_, rfl, nofun⟩
  · cases h

theorem claim_error {taken : List Nat} {p : Progress} {c : Claimant} {f : Fault}
    (h : claim view taken p c = .error f) :
    f.Blameless ∨ c.reserve c.stage.params (view taken) = .error f := by
  obtain hclaim | ⟨claimed, -, hrest⟩ := bind_eq_error.mp h
  · exact .inr hclaim
  · obtain howners | ⟨owners, -, hpure⟩ := bind_eq_error.mp hrest
    · obtain ⟨index, -, t, ht⟩ := exists_of_foldlM_error howners
      exact .inl (own_blameless ht)
    · cases hpure

theorem claimants_error {f : Fault} (h : claimants table stages = .error f) :
    ∃ s ∈ stages, s.handler? table = .error f := by
  obtain hmap | ⟨found, -, hpure⟩ := bind_eq_error.mp h
  · obtain ⟨s, hs, hclaimant⟩ := exists_of_mapM_error hmap
    obtain hhandler | ⟨h?, -, hpure⟩ := bind_eq_error.mp hclaimant
    · exact ⟨s, hs, hhandler⟩
    · cases hpure
  · cases hpure

end Reservation

open Reservation

variable {table : HandlerTable} {view : List Nat → HandlerContext} {stages : List Stage}
  {r : Reservations}

/-- The reservations are those of the claimants that come first, one after the other, and then those
of the claimants that come last, all of which see the inputs of the first as owned. -/
theorem reserve_phases (h : reserve table view stages = .ok r) :
    ∃ found first last, claimants table stages = .ok found ∧ r = first ++ last ∧
      List.Forall₂ (Records view) (found.filter (!·.last)) first ∧
        List.Forall₂ (Claimed view (Reservations.all first)) (found.filter (·.last)) last ∧
          r.all.Nodup := by
  simp only [reserve, bind_eq_ok, pure_eq_ok] at h
  obtain ⟨found, hfound, specific, hspecific, done, hdone, rfl⟩ := h
  obtain ⟨first, hfirst, hreservations, hkeys, hnodup⟩ :=
    claims_eq_ok (R := Records view) (fun p c entry hentry => ⟨p.owners.map (·.1), hentry⟩)
      hspecific tidy_start
  obtain ⟨last, hlast, hall, htidy⟩ :=
    claims_eq_ok (fun p c entry hentry => hentry) hdone ⟨hkeys, hnodup⟩
  rw [List.nil_append] at hreservations
  rw [hreservations] at hall hkeys
  rw [hkeys] at hlast
  exact ⟨found, first, last, hfound, hall, hfirst, hlast, htidy.nodup⟩

/-- Each entry is what some stage claims, and each stage that claims something has one. -/
theorem reserve_eq_ok (h : reserve table view stages = .ok r) :
    (∀ entry ∈ r, ∃ s ∈ stages, s.id = entry.1 ∧ ∃ claim, Reserves table s claim ∧
        ∃ taken, claim s.params (view taken) = .ok entry.2) ∧
      ∀ s ∈ stages, ∀ claim, Reserves table s claim → ∃ entry ∈ r, entry.1 = s.id := by
  obtain ⟨found, first, last, hfound, rfl, hfirst, hlast, -⟩ := reserve_phases h
  obtain ⟨hsound, hcomplete⟩ := claimants_eq_ok hfound
  constructor
  · intro entry hentry
    have hrecord : ∃ c ∈ found, Records view c entry := by
      obtain hmem | hmem := List.mem_append.mp hentry
      · obtain ⟨c, hc, hrecord⟩ := exists_of_mem_right hfirst hmem
        exact ⟨c, (List.mem_filter.mp hc).1, hrecord⟩
      · obtain ⟨c, hc, hclaimed⟩ := exists_of_mem_right hlast hmem
        exact ⟨c, (List.mem_filter.mp hc).1, _, hclaimed⟩
    obtain ⟨c, hc, taken, hid, hclaimed⟩ := hrecord
    exact ⟨c.stage, (hsound c hc).1, hid.symm, c.reserve, (hsound c hc).2, taken, hclaimed⟩
  · intro s hs claim hreserves
    obtain ⟨c, hc, rfl⟩ := hcomplete s hs claim hreserves
    -- A claimant is either among those that come first or among those that come last.
    cases hl : c.last with
    | false =>
      obtain ⟨entry, hmem, taken, hid, -⟩ := exists_of_mem_left hfirst
        (List.mem_filter.mpr ⟨hc, by rw [hl]; rfl⟩)
      exact ⟨entry, List.mem_append_left _ hmem, hid⟩
    | true =>
      obtain ⟨entry, hmem, hid, -⟩ := exists_of_mem_left hlast (List.mem_filter.mpr ⟨hc, hl⟩)
      exact ⟨entry, List.mem_append_right _ hmem, hid⟩

/-- If reserving fails, either an input is taken, or a stage has no handler or cannot claim what it
wants. -/
theorem reserve_error {f : Fault} (h : reserve table view stages = .error f) :
    f.Blameless ∨ (∃ s ∈ stages, s.handler? table = .error f) ∨
      ∃ s ∈ stages, ∃ claim, Reserves table s claim ∧
        ∃ taken, claim s.params (view taken) = .error f := by
  obtain hfound | ⟨found, hfound, h⟩ := bind_eq_error.mp h
  · exact .inr (.inl (claimants_error hfound))
  · -- Whoever comes first or last, the fault is that of some claimant.
    have hclaim (c : Claimant) (hc : c ∈ found) (taken : List Nat) (p : Progress)
        (hfault : claim view taken p c = .error f) : f.Blameless ∨
          ∃ s ∈ stages, ∃ claim, Reserves table s claim ∧
            ∃ taken, claim s.params (view taken) = .error f := by
      obtain hblameless | hreserve := claim_error hfault
      · exact .inl hblameless
      · obtain ⟨hstage, hreserves⟩ := (claimants_eq_ok hfound).1 c hc
        exact .inr ⟨c.stage, hstage, c.reserve, hreserves, taken, hreserve⟩
    have hcases : f.Blameless ∨ ∃ s ∈ stages, ∃ claim, Reserves table s claim ∧
        ∃ taken, claim s.params (view taken) = .error f := by
      obtain hspecific | ⟨specific, -, h⟩ := bind_eq_error.mp h
      · obtain ⟨c, hc, p, hfault⟩ := exists_of_foldlM_error hspecific
        exact hclaim c (List.mem_filter.mp hc).1 _ p hfault
      · obtain hlast | ⟨done, -, hpure⟩ := bind_eq_error.mp h
        · obtain ⟨c, hc, p, hfault⟩ := exists_of_foldlM_error hlast
          exact hclaim c (List.mem_filter.mp hc).1 _ p hfault
        · cases hpure
    exact hcases.imp_right .inr

theorem Reservations.exists_of_mem_ownedBy {id : String} {index : Nat} (h : index ∈ r.ownedBy id) :
    ∃ entry ∈ r, entry.1 = id ∧ index ∈ entry.2 := by
  rw [Reservations.ownedBy] at h
  cases hl : r.lookup id with
  | none => simp [hl] at h
  | some claimed =>
    obtain ⟨before, after, rfl, -⟩ := List.lookup_eq_some_iff.mp hl
    rw [hl, Option.getD_some] at h
    exact ⟨(id, claimed), List.mem_append_right _ List.mem_cons_self, rfl, h⟩

theorem Reservations.nodup_ownedBy (h : reserve table view stages = .ok r) (id : String) :
    (r.ownedBy id).Nodup := by
  obtain ⟨-, -, -, -, -, -, -, hall⟩ := reserve_phases h
  rw [Reservations.ownedBy]
  cases hl : r.lookup id with
  | none => exact .nil
  | some claimed =>
    obtain ⟨before, after, rfl, -⟩ := List.lookup_eq_some_iff.mp hl
    exact (List.nodup_flatMap.mp hall).1 (id, claimed)
      (List.mem_append_right _ List.mem_cons_self)

end SkillPipeline
