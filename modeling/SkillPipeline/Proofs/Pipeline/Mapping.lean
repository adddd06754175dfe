import Mathlib.Data.List.Nodup
import SkillPipeline.Proofs.Effect.Contract
import SkillPipeline.Proofs.Graph.Closure
import SkillPipeline.Proofs.Outcome
import SkillPipeline.Proofs.Pipeline.Plan

namespace SkillPipeline

open Outcome

def Merged.finals (merged : Merged) : List String :=
  [merged.video, merged.audio].filterMap StreamRef.label?

/-- Final streams as a finished merger gives them: the labels are distinct and those of a graph,
each stream of an input has its medium, and audio that is not kept is none of the graph. -/
structure Merged.Tidy (merged : Merged) (inputs : Nat) (keepAudio : Bool) : Prop where
  distinct : merged.finals.Nodup
  video : merged.video.Fits inputs .video
  audio : merged.audio.Fits inputs .audio
  graph : merged.graphMode = false → merged.finals = []
  silent : keepAudio = false → merged.audio.label? = none

namespace Mapping

def label? : Mapping → Option String
  | .stream ref => ref.label?
  | _ => none

theorem toString_append_ne (n : Nat) (rest name : String) :
    toString n ++ rest ≠ (StreamRef.label name).mapText := by
  intro h
  have hlist := congrArg String.toList h
  rw [StreamRef.mapText, String.toList_append, String.toList_append, String.toList_append,
    Merger.toList_toString] at hlist
  cases hdigits : Nat.toDigits 10 n with
  | nil => exact Nat.toDigits_ne_nil hdigits
  | cons c others =>
    have hdigit : c.isDigit = true :=
      Nat.isDigit_of_mem_toDigits (by decide) (by decide) (hdigits ▸ List.mem_cons_self)
    rw [hdigits] at hlist
    have hc : c = '[' := (List.cons.inj hlist).1
    rw [hc] at hdigit
    exact absurd hdigit (by decide)

theorem mapText_inj {ref other : StreamRef} : ref.mapText = other.mapText ↔ ref = other := by
  refine ⟨fun h => ?_, fun h => h ▸ rfl⟩
  have hstream (index : Nat) (medium : Medium) : (StreamRef.stream index medium).mapText =
      toString index ++ (":" ++ medium.letter) := String.append_assoc ..
  -- Labels stand in brackets, streams begin with a number.
  cases ref with
  | label name =>
    cases other with
    | label name' =>
      rw [StreamRef.mapText, StreamRef.mapText, String.append_left_inj,
        String.append_right_inj] at h
      rw [h]
    | stream index medium =>
      rw [hstream] at h
      exact absurd h.symm (toString_append_ne index _ name)
  | stream index medium =>
    cases other with
    | label name =>
      rw [hstream] at h
      exact absurd h (toString_append_ne index _ name)
    | stream index' medium' =>
      have hlist := congrArg String.toList h
      simp only [hstream, String.toList_append] at hlist
      obtain ⟨hindex, hletter⟩ :=
        List.append_inj' hlist (by cases medium <;> cases medium' <;> rfl)
      obtain rfl : index = index' := Merger.toString_inj.mp (String.toList_inj.mp hindex)
      have hmedium : medium = medium' := by
        revert hletter
        cases medium <;> cases medium' <;> decide
      rw [hmedium]

theorem mapText_ne_optional (ref : StreamRef) (index : Nat) (medium : Medium) :
    ref.mapText ≠ (Mapping.optional index medium).text := by
  have hlast (front : String) (c : Char) :
      (front ++ String.singleton c).toList.getLast? = some c := by
    rw [String.toList_append, String.toList_singleton, List.getLast?_concat]
  intro h
  have hmark : ref.mapText.toList.getLast? = some '?' := by
    rw [h]
    exact hlast _ '?'
  cases ref with
  | label name => exact absurd ((hlast _ ']').symm.trans hmark) (by decide)
  | stream other kind =>
    cases kind with
    | video => exact absurd ((hlast _ 'v').symm.trans hmark) (by decide)
    | audio => exact absurd ((hlast _ 'a').symm.trans hmark) (by decide)

theorem label?_eq_some_iff {mapping : Mapping} {name : String} :
    mapping.label? = some name ↔ mapping.text = (StreamRef.label name).mapText := by
  cases mapping with
  | stream ref =>
    cases ref with
    | label other =>
      simp only [label?, StreamRef.label?, text, StreamRef.mapText, Option.some.injEq]
      rw [String.append_left_inj, String.append_right_inj]
    | stream index medium =>
      have htext : (Mapping.stream (.stream index medium)).text =
          toString index ++ (":" ++ medium.letter) := String.append_assoc ..
      refine iff_of_false (fun h => ?_) (htext ▸ toString_append_ne index _ name)
      cases h
  | optional index medium =>
    have htext : (Mapping.optional index medium).text =
        toString index ++ (":" ++ (medium.letter ++ "?")) := by
      rw [text, StreamRef.spec, String.append_assoc, String.append_assoc]
    refine iff_of_false (fun h => ?_) (htext ▸ toString_append_ne index _ name)
    cases h
  | subtitle index track =>
    have htext : (Mapping.subtitle index track).text =
        toString index ++ (":s:" ++ Number.text track) := String.append_assoc ..
    refine iff_of_false (fun h => ?_) (htext ▸ toString_append_ne index _ name)
    cases h

theorem nodup_labels {maps : List Mapping} (h : (maps.map text).Nodup) :
    (maps.filterMap label?).Nodup := by
  refine (List.Nodup.of_map text h).filterMap fun a b name ha hb => ?_
  have hstream (mapping : Mapping) (hm : mapping.label? = some name) :
      mapping = .stream (.label name) := by
    cases mapping with
    | stream ref =>
      cases ref with
      | label other => rw [Option.some.inj hm]
      | stream index medium => cases hm
    | optional index medium => cases hm
    | subtitle index track => cases hm
  exact (hstream a ha).trans (hstream b hb).symm

theorem mem_labels {maps : List Mapping} {name : String} :
    name ∈ maps.filterMap label? ↔ (StreamRef.label name).mapText ∈ maps.map text := by
  simp only [List.mem_filterMap, List.mem_map, label?_eq_some_iff]

variable {merged : Merged} {name : String}

theorem mem_finals_video (h : merged.video.label? = some name) : name ∈ merged.finals :=
  List.mem_filterMap.mpr ⟨merged.video, List.mem_cons_self, h⟩

theorem mem_finals_audio (h : merged.audio.label? = some name) : name ∈ merged.finals :=
  List.mem_filterMap.mpr ⟨merged.audio, List.mem_cons_of_mem _ List.mem_cons_self, h⟩

theorem mem_finals_of_target {target : MapTarget}
    (h : (ofTarget merged target).label? = some name) : name ∈ merged.finals := by
  cases target with
  | main medium =>
    cases medium with
    | video => exact mem_finals_video h
    | audio => exact mem_finals_audio h
  | input index medium optional => cases optional <;> cases h
  | subtitle index track => cases h

theorem mem_finals_of_default {keepAudio : Bool} {mapping : Mapping}
    (hmem : mapping ∈ defaults merged keepAudio) (h : mapping.label? = some name) :
    name ∈ merged.finals := by
  rw [defaults] at hmem
  split at hmem
  · cases hmem
  · split at hmem
    · rw [List.mem_singleton.mp hmem] at h
      exact mem_finals_video h
    · split at hmem
      · next other haudio =>
        obtain rfl | rfl := List.mem_pair.mp hmem
        · exact mem_finals_video h
        · exact mem_finals_audio (haudio.symm ▸ h)
      · obtain rfl | rfl := List.mem_pair.mp hmem
        · exact mem_finals_video h
        · cases h

end Mapping

namespace Assembly

variable {p : Progress} {merged : Merged} {keepAudio : Bool}

theorem allDistinct_iff {texts : List String} :
    checkMappings.allDistinct texts = true ↔ texts.Nodup := by
  induction texts with
  | nil => simp [checkMappings.allDistinct]
  | cons text rest ih => simp [checkMappings.allDistinct, ih]

theorem mem_finals_of_mappings {name : String}
    (h : name ∈ (mappings p merged keepAudio).filterMap Mapping.label?) : name ∈ merged.finals := by
  obtain ⟨mapping, hmem, hlabel⟩ := List.mem_filterMap.mp h
  rw [mappings] at hmem
  split at hmem
  · exact Mapping.mem_finals_of_default hmem hlabel
  · obtain ⟨target, -, rfl⟩ := List.mem_map.mp hmem
    exact Mapping.mem_finals_of_target hlabel

theorem unmapped?_eq_none {texts : List String} :
    unmapped? merged texts = none ↔
      ∀ name ∈ merged.finals, (StreamRef.label name).mapText ∈ texts := by
  rw [unmapped?, List.findSome?_eq_none_iff]
  constructor
  · intro h name hname
    obtain ⟨ref, href, hlabel⟩ := List.mem_filterMap.mp hname
    cases ref with
    | stream index medium => cases hlabel
    | label other =>
      obtain rfl : other = name := Option.some.inj hlabel
      by_contra hnot
      have hunmapped := h (.label other) (List.mem_filter.mpr ⟨href, by
        simpa [StreamRef.label?] using hnot⟩)
      cases hunmapped
  · intro h ref href
    obtain ⟨hmem, hunmapped⟩ := List.mem_filter.mp href
    cases ref with
    | stream index medium => rfl
    | label name =>
      have hmapped := h name (List.mem_filterMap.mpr ⟨_, hmem, rfl⟩)
      simp [hmapped] at hunmapped

theorem checkMappings_eq_ok {texts : List String} :
    checkMappings p merged texts = .ok () ↔
      texts.Nodup ∧ ∀ name ∈ merged.finals, (StreamRef.label name).mapText ∈ texts := by
  rw [checkMappings, ← allDistinct_iff, ← unmapped?_eq_none]
  cases checkMappings.allDistinct texts with
  | false => simp
  | true => cases unmapped? merged texts <;> simp

variable {inputs : Nat} {texts : List String}

/-- Where no mapping names a final label, the first of them is the one that is missing. -/
theorem unmapped?_of_disjoint
    (h : ∀ name ∈ merged.finals, (StreamRef.label name).mapText ∉ texts) :
    unmapped? merged texts = merged.finals.head? := by
  rw [Merged.finals] at h
  rw [unmapped?, Merged.finals, List.head?_filterMap]
  generalize [merged.video, merged.audio] = refs at h
  induction refs with
  | nil => rfl
  | cons ref rest ih =>
    cases ref with
    | stream index medium => exact ih h
    | label name =>
      have hnot : (StreamRef.label name).mapText ∉ texts := h name List.mem_cons_self
      rw [List.filter_cons_of_pos (by simpa [StreamRef.label?] using hnot)]
      rfl

theorem covered (hvideo : merged.video.mapText ∈ texts)
    (haudio : merged.audio.label?.isSome = true → merged.audio.mapText ∈ texts) :
    ∀ name ∈ merged.finals, (StreamRef.label name).mapText ∈ texts := by
  intro name hname
  obtain ⟨ref, href, hlabel⟩ := List.mem_filterMap.mp hname
  have heq : ref = .label name := by
    cases ref with
    | label other => rw [Option.some.inj hlabel]
    | stream index medium => cases hlabel
  rw [← heq]
  obtain rfl | rfl := List.mem_pair.mp href
  · exact hvideo
  · exact haudio (by rw [hlabel]; rfl)

theorem video_ne_audio (h : merged.Tidy inputs keepAudio) :
    merged.video.mapText ≠ merged.audio.mapText := by
  rw [Ne, Mapping.mapText_inj]
  intro heq
  have hdistinct := h.distinct
  have hvideo := h.video
  have haudio := h.audio
  rw [Merged.finals, heq] at hdistinct
  rw [heq] at hvideo
  cases hstream : merged.audio with
  | label name => simp [hstream, StreamRef.label?] at hdistinct
  | stream index medium =>
    rw [hstream] at hvideo haudio
    exact absurd (hvideo.2.symm.trans haudio.2) (by decide)

theorem checkMappings_video (h : merged.audio.label? = none) :
    checkMappings p merged [merged.video.mapText] = .ok () :=
  checkMappings_eq_ok.mpr ⟨List.nodup_singleton _,
    covered List.mem_cons_self fun haudio => by simp [h] at haudio⟩

theorem checkMappings_both (h : merged.Tidy inputs keepAudio) :
    checkMappings p merged [merged.video.mapText, merged.audio.mapText] = .ok () :=
  checkMappings_eq_ok.mpr ⟨by simp [video_ne_audio h],
    covered List.mem_cons_self fun _ => List.mem_cons_of_mem _ List.mem_cons_self⟩

theorem checkMappings_defaults (h : merged.Tidy inputs keepAudio) :
    checkMappings p merged ((Mapping.defaults merged keepAudio).map Mapping.text) = .ok () := by
  rw [Mapping.defaults]
  cases hgraph : merged.graphMode with
  | false => exact checkMappings_eq_ok.mpr ⟨.nil, by simp [h.graph hgraph]⟩
  | true =>
    cases keepAudio with
    | false => exact checkMappings_video (h.silent rfl)
    | true =>
      cases haudio : merged.audio with
      | label name =>
        have hboth := checkMappings_both (p := p) h
        rw [haudio] at hboth
        exact hboth
      | stream index medium =>
        have hne := Mapping.mapText_ne_optional merged.video 0 .audio
        refine checkMappings_eq_ok.mpr
          ⟨List.nodup_cons.mpr ⟨mt List.mem_singleton.mp hne, List.nodup_singleton _⟩, ?_⟩
        exact covered List.mem_cons_self fun hlabel => by simp [haudio, StreamRef.label?] at hlabel

theorem checkMappings_mains (h : merged.Tidy inputs keepAudio) {skill : String}
    (hmaps : p.maps? = some ([.main .video, .main .audio], skill)) :
    checkMappings p merged ((mappings p merged keepAudio).map Mapping.text) = .ok () := by
  rw [mappings, hmaps]
  cases keepAudio with
  | false => exact checkMappings_video (h.silent rfl)
  | true => exact checkMappings_both h

/-- Where a step asks for a subtitle track alone, the first final label is missing. -/
theorem checkMappings_subtitle {index : Nat} {track : Float} {skill : String}
    (hmaps : p.maps? = some ([.subtitle index track], skill)) :
    checkMappings p merged ((mappings p merged keepAudio).map Mapping.text) =
      match merged.finals.head? with
      | some label => .error (.invariant (.outputUnmapped label (some skill)))
      | none => .ok () := by
  have htexts : (mappings p merged keepAudio).map Mapping.text =
      [(Mapping.subtitle index track).text] := by
    rw [mappings, hmaps]
    cases keepAudio <;> rfl
  have hunmapped : unmapped? merged [(Mapping.subtitle index track).text] =
      merged.finals.head? := by
    refine unmapped?_of_disjoint fun name _ hmem => ?_
    have hlabel := Mapping.label?_eq_some_iff.mpr (List.mem_singleton.mp hmem).symm
    cases hlabel
  have hdistinct : checkMappings.allDistinct [(Mapping.subtitle index track).text] = true :=
    allDistinct_iff.mpr (List.nodup_singleton _)
  rw [htexts, checkMappings, hunmapped, hdistinct, hmaps]
  rfl

/-- Of the mappings that steps ask for, only a subtitle track alone can leave out a final label. -/
theorem checkMappings_error (h : merged.Tidy inputs keepAudio)
    (husual : ∀ targets skill, p.maps? = some (targets, skill) → Contribution.Usual targets)
    {f : Fault} :
    checkMappings p merged ((mappings p merged keepAudio).map Mapping.text) = .error f ↔
      ∃ track skill label, p.maps? = some ([.subtitle 0 track], skill) ∧
        merged.finals.head? = some label ∧
          f = .invariant (.outputUnmapped label (some skill)) := by
  cases hmaps : p.maps? with
  | none =>
    rw [mappings, hmaps]
    simp [checkMappings_defaults h]
  | some wish =>
    obtain ⟨targets, skill⟩ := wish
    -- Steps ask for the main streams, which leaves out no label, or for one subtitle track.
    obtain rfl | ⟨track, rfl⟩ := (husual targets skill hmaps).cases
    · rw [checkMappings_mains h hmaps]
      simp
    · rw [checkMappings_subtitle hmaps]
      cases hfirst : merged.finals.head? with
      | none => simp
      | some label =>
        constructor
        · intro hf
          exact ⟨track, skill, label, rfl, rfl, (Except.error.inj hf).symm⟩
        · rintro ⟨track', skill', label', hsame, hlabel, rfl⟩
          obtain ⟨-, rfl⟩ := Prod.mk.inj (Option.some.inj hsame)
          rw [Option.some.inj hlabel]

end Assembly

end SkillPipeline
