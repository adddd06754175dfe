import SkillPipeline.Effect.Table
import SkillPipeline.Proofs.Effect.Overlay
import SkillPipeline.Proofs.Outcome

namespace SkillPipeline

open Outcome Effect

/-- A way of claiming inputs that claims only inputs of these kinds, and only such as are there. -/
def Handler.Accepts (kinds : List MediaKind)
    (claim : Params → HandlerContext → Except Fault (List Nat)) : Prop :=
  ∀ p ctx claimed, claim p ctx = .ok claimed →
    ∀ index ∈ claimed, ∃ e ∈ ctx.extras, e.index = index ∧ e.kind ∈ kinds

open Handler

namespace HandlerContext

variable {ctx : HandlerContext} {kinds : List MediaKind} {skill : String} {e : ExtraInput}

theorem mem_freeExtras : e ∈ ctx.freeExtras kinds ↔
    e ∈ ctx.extras ∧ e.index ∉ ctx.reservedByOthers ∧ e.kind ∈ kinds := by
  simp [freeExtras]

theorem claimExtra_accepts {requested? : Option Float} {index : Nat}
    (h : ctx.claimExtra skill kinds requested? = .ok index) :
    ∃ e ∈ ctx.extras, e.index = index ∧ e.kind ∈ kinds := by
  unfold claimExtra at h
  split at h
  · split at h
    · next e he =>
      obtain ⟨hfound, hkind⟩ := Option.filter_eq_some_iff.mp he
      exact ⟨e, List.mem_of_find?_eq_some hfound, Except.ok.inj h,
        List.contains_iff_mem.mp hkind⟩
    · cases h
  · split at h
    · next e rest hfree =>
      obtain ⟨hmem, -, hkind⟩ := mem_freeExtras.mp (hfree ▸ List.mem_cons_self : e ∈ _)
      exact ⟨e, hmem, Except.ok.inj h, hkind⟩
    · cases h

theorem claimExtras_accepts {count : Float} {claimed : List Nat}
    (h : ctx.claimExtras skill kinds count = .ok claimed) :
    ∀ index ∈ claimed, ∃ e ∈ ctx.extras, e.index = index ∧ e.kind ∈ kinds := by
  have hstills : ∀ e ∈ if kinds.contains .image then ctx.freeExtras [.image] else [],
      e ∈ ctx.extras ∧ e.kind ∈ kinds := by
    intro e he
    split at he
    · next himage =>
      obtain ⟨hmem, -, hkind⟩ := mem_freeExtras.mp he
      rw [List.mem_singleton.mp hkind]
      exact ⟨hmem, List.contains_iff_mem.mp himage⟩
    · cases he
  have hothers : ∀ e ∈ ctx.freeExtras (kinds.filter (· != .image)),
      e ∈ ctx.extras ∧ e.kind ∈ kinds := by
    intro e he
    obtain ⟨hmem, -, hkind⟩ := mem_freeExtras.mp he
    exact ⟨hmem, (List.mem_filter.mp hkind).1⟩
  -- Still images come first, then the free inputs of the other kinds.
  rw [claimExtras] at h
  generalize (if kinds.contains .image then ctx.freeExtras [.image] else []) = stills at hstills h
  split at h
  · cases h
  · cases h
    intro index hindex
    obtain ⟨e, he, rfl⟩ := List.mem_map.mp hindex
    obtain hstill | hother := List.mem_append.mp (mem_of_mem_takeCount he)
    · exact ⟨e, (hstills e hstill).1, rfl, (hstills e hstill).2⟩
    · exact ⟨e, (hothers e hother).1, rfl, (hothers e hother).2⟩

end HandlerContext

open HandlerContext

theorem accepts_singleton {kinds : List MediaKind} {ctx : HandlerContext} {skill : String}
    {requested? : Option Float} {claimed : List Nat}
    (h : (do return [← ctx.claimExtra skill kinds requested?]) = (.ok claimed : Except Fault _)) :
    ∀ index ∈ claimed, ∃ e ∈ ctx.extras, e.index = index ∧ e.kind ∈ kinds := by
  obtain ⟨found, hfound, hclaimed⟩ := bind_eq_ok.mp h
  obtain rfl := pure_eq_ok.mp hclaimed
  intro index hindex
  rw [List.mem_singleton.mp hindex]
  exact claimExtra_accepts hfound

theorem claimSound_accepts (skill : String) : Accepts audioKinds (claimSound skill) := by
  intro p ctx claimed h
  obtain ⟨requested?, -, h⟩ := bind_eq_ok.mp h
  exact accepts_singleton h

theorem claimLayer_accepts : Accepts visualKinds claimLayer := by
  intro p ctx claimed h
  obtain ⟨requested?, -, h⟩ := bind_eq_ok.mp h
  exact accepts_singleton h

theorem claimOverlays_accepts (skill : String) : Accepts visualKinds (claimOverlays skill) := by
  intro p ctx claimed h
  obtain ⟨requested?, -, h⟩ := bind_eq_ok.mp h
  cases requested? with
  | some n => exact accepts_singleton h
  | none =>
    obtain ⟨count, -, h⟩ := bind_eq_ok.mp h
    exact claimExtras_accepts h

theorem claimPicture_accepts : Accepts visualKinds claimPicture := by
  intro p ctx claimed h
  obtain ⟨requested?, -, h⟩ := bind_eq_ok.mp h
  cases requested? with
  | some n => exact accepts_singleton h
  | none =>
    dsimp only at h
    split at h
    · next e rest hfree =>
      obtain rfl := pure_eq_ok.mp h
      obtain ⟨hmem, -, hkind⟩ := mem_freeExtras.mp (hfree ▸ List.mem_cons_self : e ∈ _)
      intro index hindex
      rw [List.mem_singleton.mp hindex]
      exact ⟨e, hmem, rfl, List.mem_cons.mpr (.inl (List.mem_singleton.mp hkind))⟩
    · exact accepts_singleton h

theorem claimRest_accepts : Accepts visualKinds claimRest := by
  intro p ctx claimed h
  cases h
  intro index hindex
  obtain ⟨e, he, rfl⟩ := List.mem_map.mp hindex
  obtain ⟨hmem, -, hkind⟩ := mem_freeExtras.mp he
  exact ⟨e, hmem, rfl, hkind⟩

namespace HandlerTable

/-- The handlers that work with the audio of an extra input. -/
def audioJoins : List String := ["replace_audio", "audio_crossfade", "mix_audio"]

/-- The handlers that take every picture which the other steps leave over. -/
def sequences : List String := ["concat", "xfade", "grid", "slideshow", "split_screen"]

/-- The kinds of extra input that a built-in handler accepts, if it accepts any. -/
def acceptedKinds (name : String) : List MediaKind :=
  if name ∈ audioJoins then audioKinds else visualKinds

structure ClaimsAs (name : String) (h : Handler) : Prop where
  accepts : ∀ claim, h.reserve? = some claim → Accepts (acceptedKinds name) claim
  last : h.reservesLast = true ↔ name ∈ sequences
  rest : name ∈ sequences → h.reserve? = some claimRest

theorem claimsAs_none {name : String} {h : Handler} (hnone : h.reserve?.isNone = true)
    (hfirst : h.reservesLast = false) (hname : name ∉ sequences) : ClaimsAs name h := by
  refine ⟨fun claim hclaim => ?_, by simp [hfirst, hname], fun hmem => absurd hmem hname⟩
  rw [hclaim] at hnone
  cases hnone

theorem claimsAs_of_first {name : String} {h : Handler}
    {claim : Params → HandlerContext → Except Fault (List Nat)}
    (hclaim : h.reserve? = some claim) (haccepts : Accepts (acceptedKinds name) claim)
    (hfirst : h.reservesLast = false) (hname : name ∉ sequences) : ClaimsAs name h := by
  refine ⟨fun other hother => ?_, by simp [hfirst, hname], fun hmem => absurd hmem hname⟩
  obtain rfl := Option.some.inj (hclaim.symm.trans hother)
  exact haccepts

theorem claimsAs_sequence {name : String}
    {compile : Params → HandlerContext → Except Fault Contribution} (hname : name ∈ sequences)
    (hkinds : acceptedKinds name = visualKinds) : ClaimsAs name (sequenceHandler compile) := by
  refine ⟨fun claim hclaim => ?_, by simp [sequenceHandler, hname], fun _ => rfl⟩
  obtain rfl : claimRest = claim := Option.some.inj hclaim
  rw [hkinds]
  exact claimRest_accepts

def claimless (table : HandlerTable) : Bool :=
  table.all fun entry => entry.2.reserve?.isNone && !entry.2.reservesLast &&
    !sequences.contains entry.1

theorem claimsAs_of_claimless {table : HandlerTable} (h : table.claimless = true) :
    ∀ entry ∈ table, ClaimsAs entry.1 entry.2 := by
  intro entry hentry
  have hall := List.all_eq_true.mp h entry hentry
  simp only [Bool.and_eq_true, Bool.not_eq_true'] at hall
  obtain ⟨⟨hnone, hfirst⟩, hname⟩ := hall
  exact claimsAs_none hnone hfirst (by simpa using hname)

theorem audio_claimsAs : ∀ entry ∈ audio, ClaimsAs entry.1 entry.2 := by
  have hsplit : audio = audio.take 5 ++ audio.drop 5 := rfl
  rw [hsplit, List.forall_mem_append]
  have hjoin {name : String} {h : Handler} (hname : name ∈ audioJoins)
      (hclaim : h.reserve? = some (claimSound name)) (hfirst : h.reservesLast = false)
      (hother : name ∉ sequences) : ClaimsAs name h := by
    refine claimsAs_of_first hclaim ?_ hfirst hother
    rw [acceptedKinds, if_pos hname]
    exact claimSound_accepts name
  refine ⟨claimsAs_of_claimless (by decide), ?_⟩
  simp only [audio, List.drop_succ_cons, List.drop_zero, List.forall_mem_cons]
  exact ⟨hjoin (by decide) rfl rfl (by decide), hjoin (by decide) rfl rfl (by decide),
    hjoin (by decide) rfl rfl (by decide), List.forall_mem_nil _⟩

theorem multiInput_claimsAs : ∀ entry ∈ multiInput, ClaimsAs entry.1 entry.2 := by
  simp only [multiInput, List.forall_mem_cons]
  exact ⟨claimsAs_sequence (by decide) rfl, claimsAs_sequence (by decide) rfl,
    claimsAs_sequence (by decide) rfl, claimsAs_sequence (by decide) rfl,
    claimsAs_of_first rfl (claimOverlays_accepts _) rfl (by decide),
    claimsAs_of_first rfl (claimOverlays_accepts _) rfl (by decide),
    claimsAs_sequence (by decide) rfl,
    claimsAs_of_first rfl claimPicture_accepts rfl (by decide),
    claimsAs_of_first rfl claimLayer_accepts rfl (by decide), List.forall_mem_nil _⟩

/-- The built-in handlers claim inputs of the kinds that they accept, and the sequences, and no
others, claim what is left over. -/
theorem builtin_claimsAs : ∀ entry ∈ builtin, ClaimsAs entry.1 entry.2 := by
  simp only [builtin, List.forall_mem_append]
  exact ⟨⟨⟨⟨⟨⟨claimsAs_of_claimless (by decide), claimsAs_of_claimless (by decide)⟩,
    claimsAs_of_claimless (by decide)⟩, audio_claimsAs⟩, claimsAs_of_claimless (by decide)⟩,
    claimsAs_of_claimless (by decide)⟩, multiInput_claimsAs⟩

end HandlerTable

end SkillPipeline
