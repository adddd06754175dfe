import SkillPipeline.Pipeline.Rendering
import SkillPipeline.Proofs.Effect.Contract

namespace SkillPipeline

open Reliance

variable {r : Reliance}

namespace Template

theorem meets_fillTextM {value : String → Except Fault String} {segments : List Segment}
    (h : ∀ name, r.Meets (value name) fun _ => True) :
    r.Meets (fillTextM value segments) fun _ => True := by
  induction segments with
  | nil => trivial
  | cons segment rest ih =>
    cases segment with
    | literal c =>
      rw [fillTextM, meets_bind]
      exact ih.mono fun _ _ => trivial
    | hole name =>
      rw [fillTextM, meets_bind]
      refine (h name).mono fun _ _ => ?_
      rw [meets_bind]
      exact ih.mono fun _ _ => trivial

theorem meets_fill {values : String → Option FilterText.Part} {segments : List Segment}
    (h : ∀ name ∈ segments.filterMap Segment.name?, (values name).isSome = true) :
    r.Meets (fill values segments) fun _ => True := by
  induction segments with
  | nil => trivial
  | cons segment rest ih =>
    cases segment with
    | literal c =>
      rw [fill, meets_bind]
      exact (ih h).mono fun _ _ => trivial
    | hole name =>
      obtain ⟨part, hpart⟩ := Option.isSome_iff_exists.mp (h name List.mem_cons_self)
      have hrest := ih fun other hother => h other (List.mem_cons_of_mem name hother)
      simp only [fill, hpart, meets_bind]
      exact (meets_ofPart part).mono fun _ _ => hrest.mono fun _ _ => trivial

end Template

namespace Params

variable {p : Params}

theorem meets_filterPart (name : String) : r.Meets (p.filterPart name) fun _ => True := by
  rw [filterPart]
  split
  · trivial
  · trivial
  · trivial
  · split
    · rw [meets_map]
      exact meets_of_forall (meets_decimal _) fun _ => trivial
    · trivial
  · trivial

theorem meets_optionText (name : String) : r.Meets (p.optionText name) fun _ => True := by
  rw [optionText]
  split
  · trivial
  · trivial
  · trivial
  · rw [meets_map]
    exact meets_number _ _
  · trivial

theorem meets_renderOptions (template : String) :
    r.Meets (p.renderOptions template) fun _ => True := by
  refine meets_mapM_true fun word _ => ?_
  rw [meets_map]
  exact Template.meets_fillTextM meets_optionText

theorem meets_renderFilter (template : String) :
    r.Meets (p.renderFilter template) fun _ => True := by
  have hvalues : r.Meets ((Template.holes template).mapM fun name => do
      return (name, ← p.filterPart name)) fun values =>
        values.map Prod.fst = (Template.holes template).map id :=
    meets_mapM fun name _ => by
      rw [meets_bind]
      exact (meets_filterPart name).mono fun _ _ => rfl
  rw [renderFilter, meets_bind]
  refine hvalues.mono fun values hnames => Template.meets_fill fun name hname => ?_
  rw [List.map_id] at hnames
  have hmem : name ∈ values.map Prod.fst := hnames ▸ hname
  obtain ⟨value, hvalue, rfl⟩ := List.mem_map.mp hmem
  exact List.lookup_isSome_iff.mpr ⟨value, hvalue, beq_self_eq_true value.1⟩

theorem meets_renderTemplate (template : String) (target : Target) :
    r.Meets (p.renderTemplate template target) Contribution.Plain := by
  cases target with
  | output =>
    rw [renderTemplate, meets_map]
    exact meets_of_forall (meets_renderOptions template) fun _ => Contribution.plain_flags _
  | audio =>
    rw [renderTemplate, meets_bind]
    exact meets_of_forall (meets_renderFilter template) fun _ => Contribution.plain_audio _
  | video =>
    rw [renderTemplate, meets_bind]
    exact meets_of_forall (meets_renderFilter template) fun _ => Contribution.plain_video _

end Params

end SkillPipeline
