import SkillPipeline.Catalogue.Builtin
import SkillPipeline.Effect.Table
import SkillPipeline.Pipeline.Rendering
import SkillPipeline.Proofs.Legibility.Lettering
import SkillPipeline.Proofs.Legibility.MultiInput
import SkillPipeline.Proofs.Legibility.Spatial
import SkillPipeline.Proofs.Legibility.Temporal
import SkillPipeline.Proofs.Legibility.Visual

namespace SkillPipeline

open Outcome SkillPipeline.Filter

namespace Template

/-- Where a reader stands after a template, if every hole meets it outside quotes. -/
def after? : Reading → List Segment → Option Reading
  | r, [] => some r
  | r, .literal c :: rest => after? (r.next c) rest
  | r, .hole _ :: rest => if r = .outside then after? r rest else none

theorem after_fill {values : String → Option FilterText.Part} {segments : List Segment}
    {r r' : Reading} (hafter : after? r segments = some r')
    (hvalues : ∀ name part, values name = some part →
      Gives FilterText.Closed (FilterText.ofPart part)) :
    Gives (fun t => r.after t.chars = r') (fill values segments) := by
  -- On the segments: a hole is met outside quotes, and its value leaves the reader there.
  induction segments generalizing r with
  | nil => exact gives_ok (Option.some.inj hafter)
  | cons segment rest ih =>
    cases segment with
    | literal c =>
      refine (ih hafter).bind fun tail htail => gives_ok ?_
      rw [FilterText.chars_append, FilterText.chars_wording, String.toList_singleton]
      exact htail
    | hole name =>
      rw [after?] at hafter
      split at hafter
      · next hr =>
        subst hr
        rw [fill]
        split
        · exact gives_error
        · next part hpart =>
          refine (hvalues name part hpart).bind fun head hhead => (ih hafter).bind
            fun tail htail => gives_ok ?_
          rw [FilterText.chars_append, Reading.after_append, hhead]
          exact htail
      · cases hafter

end Template

namespace Params

variable {p : Params} {template : String}

theorem closed_filterPart (name : String) :
    Gives (fun part => Gives FilterText.Closed (FilterText.ofPart part)) (p.filterPart name) := by
  have hnumber {n : Float} {form : NumberForm} :
      Gives FilterText.Closed (FilterText.number n form) := fun t ht =>
    (neutral_of_inert (FilterText.inert_number ht)).after_eq
  have hpart {n : Float} : Gives FilterText.Closed (FilterText.ofPart (numberPart name n)) := by
    rw [numberPart]
    split
    · exact hnumber
    · exact gives_ok (FilterText.closed_wording rfl rfl)
  rw [filterPart]
  split
  · exact gives_error
  · exact gives_error
  · exact gives_ok hpart
  · split
    · exact hnumber.map fun t ht => gives_ok ht
    · exact gives_ok hpart
  · exact gives_ok (gives_ok (FilterText.closed_escaped _))

theorem closed_renderFilter
    (h : Template.after? .outside (Template.segments template) = some .outside) :
    Gives FilterText.Closed (p.renderFilter template) := by
  have hentry (name : String) :
      Gives (fun entry : String × FilterText.Part =>
        Gives FilterText.Closed (FilterText.ofPart entry.2))
        (do return (name, ← p.filterPart name)) :=
    (closed_filterPart name).bind fun part hpart => gives_ok hpart
  refine (gives_mapM fun name _ => hentry name).bind fun values hvalues => ?_
  refine Template.after_fill h fun name part hpart => ?_
  obtain ⟨before, after, heq, -⟩ := List.lookup_eq_some_iff.mp hpart
  exact hvalues (name, part) (heq ▸ List.mem_append_right _ List.mem_cons_self)

theorem renderTemplate_legible {target : Target} (h : target ≠ .output →
    Template.after? .outside (Template.segments template) = some .outside) :
    Gives Contribution.Legible (p.renderTemplate template target) := by
  cases target with
  | output =>
    intro c hc
    obtain ⟨tokens, -, rfl⟩ := map_eq_ok.mp hc
    exact Contribution.legible_flags
  | video =>
    exact (closed_renderFilter (h (by decide))).bind fun t ht =>
      gives_ok (Contribution.legible_video (List.forall_mem_singleton.mpr ht))
  | audio =>
    exact (closed_renderFilter (h (by decide))).bind fun t ht =>
      gives_ok (Contribution.legible_filters (by simp) (List.forall_mem_singleton.mpr ht))

end Params

theorem HandlerTable.builtin_reads : ∀ entry ∈ HandlerTable.builtin,
    Handler.Reads (Handler.freeTexts entry.1) entry.2.compile := by
  have hlegible {table : HandlerTable} (h : ∀ entry ∈ table, Handler.Legible entry.2.compile)
      (hfree : ∀ entry ∈ table, Handler.freeTexts entry.1 = []) :
      ∀ entry ∈ table, Handler.Reads (Handler.freeTexts entry.1) entry.2.compile := by
    intro entry hentry
    rw [hfree entry hentry]
    exact (h entry hentry).reads
  simp only [builtin, List.forall_mem_append]
  exact ⟨⟨⟨⟨⟨⟨hlegible Effect.temporal_legible (by decide), Effect.spatial_reads⟩,
    Effect.visual_reads⟩, hlegible Effect.audio_legible (by decide)⟩,
    hlegible Effect.encoding_legible (by decide)⟩, Effect.lettering_reads⟩,
    hlegible Effect.multiInput_legible (by decide)⟩

theorem HandlerTable.freeTexts_of_reserve : ∀ entry ∈ HandlerTable.builtin,
    entry.2.reserve?.isSome = true → Handler.freeTexts entry.1 = [] := by
  decide

namespace Skill

/-- How freely a text of the skill may change. What is typed keeps its length, and what is sung the
number of its words. -/
def freedom (skill : Skill) (name : String) : Freedom :=
  if skill.name = "typewriter_text" ∧ name = "text" then .length
  else if skill.name = "karaoke_text" ∧ name = "text" then .words
  else .any

/-- The parameters of text type, unless the skill is about the encoding. -/
def freeTexts (skill : Skill) : List (String × Freedom) :=
  if skill.category = .encoding then []
  else (skill.parameters.filter (·.type = .string)).map fun spec =>
    (spec.name, skill.freedom spec.name)

/-- Whether the texts that are free are those that the strategy of the skill leaves so, and its
template is closed if it has one. -/
def leavesFree (skill : Skill) : Bool :=
  match skill.strategy with
  | .template text target => skill.freeTexts.isEmpty && (target = .output ||
      Template.after? .outside (Template.segments text) = some .outside)
  | .pipeline _ => skill.freeTexts.isEmpty
  | .handler name => skill.freeTexts.all (Handler.freeTexts name).contains

/-- Whether only texts have the names of the texts that are free. -/
def namesTexts (skill : Skill) : Bool :=
  skill.parameters.all fun spec =>
    spec.type = .string || !(skill.freeTexts.map Prod.fst).contains spec.name

theorem type_of_freeTexts {skill : Skill} (h : skill.namesTexts = true) {spec : ParameterSpec}
    (hspec : spec ∈ skill.parameters) {freedom : Freedom}
    (hfree : (spec.name, freedom) ∈ skill.freeTexts) : spec.type = .string := by
  have hnames := List.all_eq_true.mp h spec hspec
  rw [Bool.or_eq_true, decide_eq_true_eq] at hnames
  refine hnames.resolve_right fun hother => ?_
  have hname : (skill.freeTexts.map Prod.fst).contains spec.name = true :=
    List.contains_iff_mem.mpr (List.mem_map_of_mem (f := Prod.fst) hfree)
  rw [hname] at hother
  cases hother

section LeavesFree

variable {skill : Skill} (h : skill.leavesFree = true)

include h

theorem freeTexts_subset {name : String} (hs : skill.strategy = .handler name) :
    skill.freeTexts ⊆ Handler.freeTexts name := by
  rw [leavesFree, hs, List.all_eq_true] at h
  exact fun entry hentry => List.contains_iff_mem.mp (h entry hentry)

theorem freeTexts_of_pipeline {calls : List Call} (hs : skill.strategy = .pipeline calls) :
    skill.freeTexts = [] := by
  rw [leavesFree, hs] at h
  exact List.isEmpty_iff.mp h

theorem freeTexts_of_template {text : String} {target : Target}
    (hs : skill.strategy = .template text target) : skill.freeTexts = [] ∧
      (target ≠ .output →
        Template.after? .outside (Template.segments text) = some .outside) := by
  simp only [leavesFree, hs, Bool.and_eq_true, Bool.or_eq_true, decide_eq_true_eq] at h
  exact ⟨List.isEmpty_iff.mp h.1, h.2.resolve_left⟩

end LeavesFree

end Skill

set_option maxRecDepth 100000 in
theorem Catalogue.builtin_leavesFree : Catalogue.builtin.all (·.leavesFree) = true := by
  decide +kernel

set_option maxRecDepth 100000 in
theorem Catalogue.builtin_namesTexts : Catalogue.builtin.all (·.namesTexts) = true := by
  decide +kernel

theorem Catalogue.leavesFree_of_mem {skill : Skill} (h : skill ∈ Catalogue.builtin) :
    skill.leavesFree = true := List.all_eq_true.mp builtin_leavesFree skill h

end SkillPipeline
