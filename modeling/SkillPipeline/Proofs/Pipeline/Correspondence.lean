import SkillPipeline.Proofs.Graph.Matching
import SkillPipeline.Proofs.Pipeline.Mapping
import SkillPipeline.Proofs.Pipeline.Plan

namespace SkillPipeline

open Outcome Merger

namespace Matching

variable {M : Matching}

theorem Prefixes.eq_iff {a a' b b' : String} (ha : M.Prefixes a a') (hb : M.Prefixes b b') :
    a = b ↔ a' = b' := by
  have hname (c d : String) : qualified c "" = qualified d "" ↔ c = d := by
    rw [qualified, qualified, String.append_left_inj, String.append_left_inj]
  rw [← hname a b, ← hname a' b']
  exact M.label_iff (ha "" M.named_empty) (hb "" M.named_empty)

/-- Stages of one skill whose labels match and which reserve the same inputs. -/
structure Stages (M : Matching) (table : HandlerTable) (s s' : Stage) : Prop where
  prefixes : M.Prefixes s.id s'.id
  skill : s.skill = s'.skill
  reserves : ∀ h reserve view, s.handler? table = .ok (some h) → h.reserve? = some reserve →
    reserve s.params view = reserve s'.params view

/-- Inputs that stages have reserved, in the order of the stages. -/
def Entries (M : Matching) : Reservations → Reservations → Prop :=
  List.Forall₂ fun e e' => M.Prefixes e.1 e'.1 ∧ e.2 = e'.2

structure Claimants (M : Matching) (c c' : Reservation.Claimant) : Prop where
  prefixes : M.Prefixes c.stage.id c'.stage.id
  skill : c.stage.skill = c'.stage.skill
  reserves : ∀ view, c.reserve c.stage.params view = c'.reserve c'.stage.params view
  last : c.last = c'.last

section Reservations

variable {table : HandlerTable} {view : List Nat → HandlerContext} {stages stages' : List Stage}

theorem Stages.handler?_eq {s s' : Stage} (h : M.Stages table s s') :
    s.handler? table = s'.handler? table := by
  rw [Stage.handler?, Stage.handler?, h.skill]

theorem Stages.claimant? {s s' : Stage} (h : M.Stages table s s') :
    Agree (Option.Rel M.Claimants) (Reservation.claimant? table s)
      (Reservation.claimant? table s') := by
  rw [Reservation.claimant?, Reservation.claimant?, ← h.handler?_eq]
  cases hhandler : s.handler? table with
  | error f => exact .error
  | ok handler? =>
    cases handler? with
    | none => exact .ok .none
    | some handler =>
      cases hreserve : handler.reserve? with
      | none => exact .ok (by rw [Option.bind_some, Option.bind_some, hreserve]; exact .none)
      | some reserve =>
        refine .ok ?_
        rw [Option.bind_some, Option.bind_some, hreserve]
        exact .some ⟨h.prefixes, h.skill, fun v => h.reserves handler reserve v hhandler hreserve,
          rfl⟩

theorem agree_claimants (h : List.Forall₂ (M.Stages table) stages stages') :
    Agree (List.Forall₂ M.Claimants) (Reservation.claimants table stages)
      (Reservation.claimants table stages') := by
  refine (agree_mapM h fun s s' hs => hs.claimant?).bind fun found found' hfound => .ok ?_
  induction hfound with
  | nil => exact .nil
  | cons hfirst hrest ih =>
    cases hfirst with
    | none => exact ih
    | some hc => exact .cons hc ih

/-- What has been reserved so far, by stages that match. -/
structure Reserved (M : Matching) (p p' : Reservation.Progress) : Prop where
  owners : p.owners = p'.owners
  reservations : M.Entries p.reservations p'.reservations

theorem Reserved.claim {p p' : Reservation.Progress} {c c' : Reservation.Claimant}
    {taken : List Nat} (h : M.Reserved p p') (hc : M.Claimants c c') :
    Agree M.Reserved (Reservation.claim view taken p c) (Reservation.claim view taken p' c') := by
  rw [Reservation.claim, Reservation.claim, hc.reserves, hc.skill, h.owners]
  cases c'.reserve c'.stage.params (view taken) with
  | error f => exact .error
  | ok claimed =>
    simp only [bind, Except.bind]
    cases claimed.foldlM (Reservation.own c'.stage.skill.name) p'.owners with
    | error f => exact .error
    | ok owners =>
      exact .ok ⟨rfl, List.rel_append h.reservations (.cons ⟨hc.prefixes, rfl⟩ .nil)⟩

theorem agree_reserve (h : List.Forall₂ (M.Stages table) stages stages') :
    Agree M.Entries (reserve table view stages) (reserve table view stages') := by
  have hlast (c c' : Reservation.Claimant) (hc : M.Claimants c c') : c.last = c'.last := hc.last
  have hspecific (c c' : Reservation.Claimant) (hc : M.Claimants c c') :
      (!c.last) = !c'.last := by rw [hc.last]
  refine (agree_claimants h).bind fun found found' hfound => ?_
  have hstart : M.Reserved {} {} := ⟨rfl, .nil⟩
  refine (agree_foldlM (forall₂_filter hfound hspecific) hstart fun p p' c c' hp hc => ?_).bind
    fun p p' hp => ?_
  · rw [hp.owners]
    exact hp.claim hc
  · rw [hp.owners]
    refine (agree_foldlM (forall₂_filter hfound hlast) hp fun q q' c c' hq hc => hq.claim hc).bind
      fun q q' hq => ?_
    exact .ok hq.reservations

theorem Entries.ownedBy_eq {r r' : Reservations} (h : M.Entries r r') {id id' : String}
    (hid : M.Prefixes id id') : r.ownedBy id = r'.ownedBy id' := by
  rw [Reservations.ownedBy, Reservations.ownedBy]
  induction h with
  | nil => rfl
  | @cons e e' r r' hentry hrest ih =>
    obtain ⟨name, owned⟩ := e
    obtain ⟨name', owned'⟩ := e'
    obtain ⟨hname, rfl⟩ := hentry
    have hsame : (id == name) = (id' == name') := by
      rw [Bool.eq_iff_iff, beq_iff_eq, beq_iff_eq]
      exact hid.eq_iff hname
    rw [List.lookup_cons, List.lookup_cons, hsame]
    split
    · rfl
    · exact ih

theorem Entries.view_eq {c : Compiler} {ctx : Context} {r r' : Reservations} (h : M.Entries r r')
    {s s' : Stage} (hs : M.Prefixes s.id s'.id) : c.view ctx r s = c.view ctx r' s' := by
  have hall : r.all = r'.all := by
    rw [Reservations.all, Reservations.all]
    clear hs
    induction h with
    | nil => rfl
    | cons hentry hrest ih => rw [List.flatMap_cons, List.flatMap_cons, hentry.2, ih]
  rw [Compiler.view, Compiler.view, Reservations.ownedByOthers, Reservations.ownedByOthers, hall,
    h.ownedBy_eq hs]

end Reservations

structure Contributions (M : Matching) (c c' : Contribution) : Prop where
  video : List.Forall₂ M.text c.videoFilters c'.videoFilters
  audio : List.Forall₂ M.text c.audioFilters c'.audioFilters
  outputFlags : c.outputFlags = c'.outputFlags
  inputFlags : c.inputFlags = c'.inputFlags
  graph : Option.Rel M.Fragments c.graph? c'.graph?
  maps : c.maps? = c'.maps?
  audioSource : c.audioSource? = c'.audioSource?

structure Progresses (M : Matching) (p p' : Assembly.Progress) : Prop where
  merger : M.Mergers p.merger p'.merger
  inputFlags : p.inputFlags = p'.inputFlags
  outputFlags : p.outputFlags = p'.outputFlags
  warnings : p.warnings = p'.warnings
  maps : p.maps? = p'.maps?
  producedAudio : p.producedAudio = p'.producedAudio
  audioReplaced : p.audioReplaced = p'.audioReplaced

theorem any_nonempty_eq {l l' : List FilterText} (h : List.Forall₂ M.text l l') :
    l.any (fun f => !f.isEmpty) = l'.any fun f => !f.isEmpty := by
  induction h with
  | nil => rfl
  | cons hfirst hrest ih => rw [List.any_cons, List.any_cons, M.isEmpty_eq hfirst, ih]

namespace Contributions

variable {c c' : Contribution}

theorem hasFilters_eq (h : M.Contributions c c') : c.hasFilters = c'.hasFilters := by
  rw [Contribution.hasFilters, Contribution.hasFilters, any_nonempty_eq h.video,
    any_nonempty_eq h.audio]

theorem fragment? (h : M.Contributions c c') : Option.Rel M.Fragments c.fragment? c'.fragment? := by
  obtain ⟨-, -, -, -, hgraph, -, -⟩ := h
  rw [Contribution.fragment?, Contribution.fragment?]
  generalize c.graph? = g, c'.graph? = g' at hgraph
  cases hgraph with
  | none => exact .none
  | some hf =>
    rw [Option.filter_some, Option.filter_some, isEmpty_eq_of_forall₂ hf.nodes]
    split
    · exact .some hf
    · exact .none

end Contributions

namespace Progresses

open Assembly

variable {p p' : Assembly.Progress} {c c' : Contribution} {s s' : Stage}

theorem start : M.Progresses {} {} := ⟨.start, rfl, rfl, rfl, rfl, rfl, rfl⟩

theorem addFilters (h : M.Progresses p p') (hc : M.Contributions c c')
    (hs : M.Prefixes s.id s'.id) :
    Agree M.Progresses (Assembly.addFilters s p c) (Assembly.addFilters s' p' c') := by
  have hfragment := hc.fragment?
  rw [Assembly.addFilters, Assembly.addFilters]
  generalize c.fragment? = f?, c'.fragment? = f?' at hfragment
  cases hfragment with
  | none =>
    refine (h.merger.addChains hc.video hc.audio).bind fun m m' hm => ?_
    refine .ok { h with merger := hm, producedAudio := ?_ }
    rw [h.producedAudio, any_nonempty_eq hc.audio]
  | some hf =>
    dsimp only
    rw [hc.hasFilters_eq]
    cases c'.hasFilters with
    | true => exact .error
    | false =>
      refine (h.merger.addFragment hs hf).bind fun m m' hm => ?_
      refine .ok { h with merger := hm, producedAudio := ?_ }
      rw [h.producedAudio, hf.audio]

theorem replaceAudio (h : M.Progresses p p') (hc : M.Contributions c c')
    (hs : s.skill = s'.skill) :
    Agree M.Progresses (Assembly.replaceAudio s p c) (Assembly.replaceAudio s' p' c') := by
  rw [Assembly.replaceAudio, Assembly.replaceAudio, hc.audioSource]
  cases c'.audioSource? with
  | none => exact .ok h
  | some index =>
    refine (h.merger.replaceAudioSource index).bind fun q q' hq => ?_
    refine .ok { h with merger := hq.1, warnings := ?_, audioReplaced := rfl }
    rw [hq.2, h.warnings, hs]

theorem replaceMaps (h : M.Progresses p p') (hc : M.Contributions c c') (hs : s.skill = s'.skill) :
    M.Progresses (Assembly.replaceMaps s p c) (Assembly.replaceMaps s' p' c') := by
  rw [Assembly.replaceMaps, Assembly.replaceMaps, hc.maps, hs, h.maps]
  cases c'.maps? with
  | none => exact h
  | some maps => exact { h with maps := rfl, warnings := by rw [h.warnings] }

theorem add (h : M.Progresses p p') (hc : M.Contributions c c') (hs : M.Prefixes s.id s'.id)
    (hskill : s.skill = s'.skill) :
    Agree M.Progresses (Assembly.add p s c) (Assembly.add p' s' c') := by
  refine (h.addFilters hc hs).bind fun q q' hq => ?_
  refine (hq.replaceAudio hc hskill).bind fun r r' hr => ?_
  refine .ok (Progresses.replaceMaps ?_ hc hskill)
  exact { hr with
    inputFlags := by rw [hr.inputFlags, hc.inputFlags]
    outputFlags := by rw [hr.outputFlags, hc.outputFlags] }

end Progresses

inductive Mappings (M : Matching) : Mapping → Mapping → Prop
  | stream {r r' : StreamRef} (h : M.Refs r r') : Mappings M (.stream r) (.stream r')
  | optional (index : Nat) (medium : Medium) :
      Mappings M (.optional index medium) (.optional index medium)
  | subtitle (index : Nat) (track : Float) :
      Mappings M (.subtitle index track) (.subtitle index track)

structure Assemblies (M : Matching) (a a' : Assembly) : Prop where
  inputFlags : a.inputFlags = a'.inputFlags
  outputFlags : a.outputFlags = a'.outputFlags
  merged : M.Results a.merged a'.merged
  maps : List.Forall₂ M.Mappings a.maps a'.maps
  keepAudio : a.keepAudio = a'.keepAudio
  warnings : a.warnings = a'.warnings

theorem Mappings.cases_label {a a' : Mapping} (h : M.Mappings a a') :
    (∃ name name', a = .stream (.label name) ∧ a' = .stream (.label name') ∧
      M.label name name') ∨ a = a' ∧ a.label? = none := by
  cases h with
  | stream hr =>
    cases hr with
    | stream index medium => exact .inr ⟨rfl, rfl⟩
    | label hlabel => exact .inl ⟨_, _, rfl, rfl, hlabel⟩
  | optional index medium => exact .inr ⟨rfl, rfl⟩
  | subtitle index track => exact .inr ⟨rfl, rfl⟩

theorem text_label_ne {name : String} {b : Mapping} (hb : b.label? = none) :
    (Mapping.stream (.label name)).text ≠ b.text := by
  intro heq
  have hsome := Mapping.label?_eq_some_iff.mpr heq.symm
  rw [hb] at hsome
  cases hsome

theorem Mappings.text_eq_iff {a a' b b' : Mapping} (ha : M.Mappings a a') (hb : M.Mappings b b') :
    a.text = b.text ↔ a'.text = b'.text := by
  have hlabels (name other : String) : (Mapping.stream (.label name)).text =
      (Mapping.stream (.label other)).text ↔ name = other := by
    rw [Mapping.text, Mapping.text, Mapping.mapText_inj, StreamRef.label.injEq]
  obtain ⟨x, x', rfl, rfl, hx⟩ | ⟨rfl, hnone⟩ := ha.cases_label
  · obtain ⟨y, y', rfl, rfl, hy⟩ | ⟨rfl, hnone⟩ := hb.cases_label
    · rw [hlabels, hlabels]
      exact M.label_iff hx hy
    · exact iff_of_false (text_label_ne hnone) (text_label_ne hnone)
  · obtain ⟨y, y', rfl, rfl, hy⟩ | ⟨rfl, -⟩ := hb.cases_label
    · exact iff_of_false (text_label_ne hnone).symm (text_label_ne hnone).symm
    · exact Iff.rfl

theorem contains_text_eq {maps maps' : List Mapping} (h : List.Forall₂ M.Mappings maps maps')
    {a a' : Mapping} (ha : M.Mappings a a') :
    (maps.map Mapping.text).contains a.text = (maps'.map Mapping.text).contains a'.text := by
  induction h with
  | nil => rfl
  | cons hfirst hrest ih =>
    rw [List.map_cons, List.map_cons, List.contains_cons, List.contains_cons, ih]
    congr 1
    rw [Bool.eq_iff_iff, beq_iff_eq, beq_iff_eq]
    exact ha.text_eq_iff hfirst

theorem allDistinct_eq {maps maps' : List Mapping} (h : List.Forall₂ M.Mappings maps maps') :
    Assembly.checkMappings.allDistinct (maps.map Mapping.text) =
      Assembly.checkMappings.allDistinct (maps'.map Mapping.text) := by
  induction h with
  | nil => rfl
  | cons hfirst hrest ih =>
    rw [List.map_cons, List.map_cons, Assembly.checkMappings.allDistinct,
      Assembly.checkMappings.allDistinct, contains_text_eq hrest hfirst, ih]

namespace Results

variable {r r' : Merged}

theorem unmapped? (h : M.Results r r') {maps maps' : List Mapping}
    (hmaps : List.Forall₂ M.Mappings maps maps') :
    Option.Rel M.label (Assembly.unmapped? r (maps.map Mapping.text))
      (Assembly.unmapped? r' (maps'.map Mapping.text)) := by
  have hends : List.Forall₂ M.Refs [r.video, r.audio] [r'.video, r'.audio] :=
    .cons h.video (.cons h.audio .nil)
  have hleft := forall₂_filter hends
    (p := fun ref => ref.label?.isSome && !(maps.map Mapping.text).contains ref.mapText)
    (q := fun ref => ref.label?.isSome && !(maps'.map Mapping.text).contains ref.mapText)
    fun ref ref' href => by
      rw [href.isSome_eq]
      exact congrArg (fun b => ref'.label?.isSome && !b) (contains_text_eq hmaps (.stream href))
  rw [Assembly.unmapped?, Assembly.unmapped?]
  generalize List.filter _ [r.video, r.audio] = l, List.filter _ [r'.video, r'.audio] = l' at hleft
  induction hleft with
  | nil => exact .none
  | cons hfirst hrest ih =>
    cases hfirst with
    | stream index medium => exact ih
    | label hlabel => exact .some hlabel

theorem ofTarget (h : M.Results r r') (target : MapTarget) :
    M.Mappings (Mapping.ofTarget r target) (Mapping.ofTarget r' target) := by
  cases target with
  | main medium =>
    cases medium with
    | video => exact .stream h.video
    | audio => exact .stream h.audio
  | input index medium optional =>
    cases optional with
    | false => exact .stream (.stream index medium)
    | true => exact .optional index medium
  | subtitle index track => exact .subtitle index track

theorem defaults (h : M.Results r r') (keepAudio : Bool) :
    List.Forall₂ M.Mappings (Mapping.defaults r keepAudio) (Mapping.defaults r' keepAudio) := by
  obtain ⟨-, hgraphMode, hvideo, haudio⟩ := h
  rw [Mapping.defaults, Mapping.defaults, hgraphMode]
  split
  · exact .nil
  · split
    · exact .cons (.stream hvideo) .nil
    · generalize r.audio = a, r'.audio = a' at haudio
      cases haudio with
      | stream index medium => exact .cons (.stream hvideo) (.cons (.optional 0 .audio) .nil)
      | label hlabel => exact .cons (.stream hvideo) (.cons (.stream (.label hlabel)) .nil)

theorem checkMappings (h : M.Results r r') {maps maps' : List Mapping}
    (hmaps : List.Forall₂ M.Mappings maps maps') (p p' : Assembly.Progress) :
    Agree (fun _ _ => True) (Assembly.checkMappings p r (maps.map Mapping.text))
      (Assembly.checkMappings p' r' (maps'.map Mapping.text)) := by
  have hunmapped := h.unmapped? hmaps
  rw [Assembly.checkMappings, Assembly.checkMappings, allDistinct_eq hmaps]
  split
  · exact .error
  · generalize Assembly.unmapped? r (maps.map Mapping.text) = u,
      Assembly.unmapped? r' (maps'.map Mapping.text) = u' at hunmapped
    cases hunmapped with
    | none => exact .ok trivial
    | some hlabel => exact .error

end Results

namespace Progresses

open Assembly

variable {p p' : Assembly.Progress} {ctx : Context}

theorem mappings (h : M.Progresses p p') {r r' : Merged} (hr : M.Results r r') (keepAudio : Bool) :
    List.Forall₂ M.Mappings (Assembly.mappings p r keepAudio)
      (Assembly.mappings p' r' keepAudio) := by
  rw [Assembly.mappings, Assembly.mappings, h.maps]
  split
  · exact hr.defaults keepAudio
  · rw [List.forall₂_map_left_iff, List.forall₂_map_right_iff]
    exact List.forall₂_same.mpr fun target _ => hr.ofTarget target

theorem conclude (h : M.Progresses p p') :
    Agree M.Assemblies (Assembly.conclude p ctx) (Assembly.conclude p' ctx) := by
  have hkeep : p.keepsAudio ctx = p'.keepsAudio ctx := by
    rw [Assembly.Progress.keepsAudio, Assembly.Progress.keepsAudio, h.audioReplaced, h.outputFlags]
  have hwarnings : p.allWarnings ctx = p'.allWarnings ctx := by
    rw [Assembly.Progress.allWarnings, Assembly.Progress.allWarnings, hkeep, h.warnings,
      h.outputFlags, discardReason?, discardReason?, h.producedAudio]
  rw [Assembly.conclude, Assembly.conclude, hkeep, hwarnings]
  refine (h.merger.finalize (p'.keepsAudio ctx)).bind fun q q' hq => ?_
  have hmaps := h.mappings hq (p'.keepsAudio ctx)
  refine (hq.checkMappings hmaps p p').bind fun _ _ _ => ?_
  exact .ok ⟨by rw [h.inputFlags], by rw [h.outputFlags], hq, hmaps, rfl, rfl⟩

end Progresses

end Matching

end SkillPipeline
