import SkillPipeline.Effect.Handler
import SkillPipeline.Proofs.Graph.Legibility
import SkillPipeline.Proofs.Legibility.Freedom
import SkillPipeline.Proofs.Pipeline.Correspondence

namespace SkillPipeline

open Outcome SkillPipeline.Filter

/-- The filter is closed, and the labels mean nothing to a reader. -/
structure GraphNode.Legible (n : GraphNode) : Prop where
  filter : n.filter.Closed
  outputs : ∀ name ∈ n.outputs, Neutral name.toList

def Fragment.Legible (f : Fragment) : Prop := ∀ n ∈ f.nodes, n.Legible

structure Contribution.Legible (c : Contribution) : Prop where
  video : ∀ t ∈ c.videoFilters, t.Closed
  audio : ∀ t ∈ c.audioFilters, t.Closed
  graph : ∀ f, c.graph? = some f → f.Legible

def Handler.Legible (compile : Params → HandlerContext → Except Fault Contribution) : Prop :=
  ∀ p ctx, Gives Contribution.Legible (compile p ctx)

theorem Fragment.Legible.fragments {f : Fragment} (h : f.Legible) (ρ : Renaming) :
    ρ.reading.Fragments f f where
  nodes := List.forall₂_same.mpr fun n hn => ⟨rfl, (h n hn).filter.alike, rfl⟩
  video := rfl
  audio := rfl
  named name hname := by
    obtain ⟨n, hn, hname⟩ := List.mem_flatMap.mp hname
    exact (h n hn).outputs name hname

theorem Contribution.Legible.contributions {c : Contribution} (h : c.Legible) (ρ : Renaming) :
    ρ.reading.Contributions c c where
  video := List.forall₂_same.mpr fun t ht => (h.video t ht).alike
  audio := List.forall₂_same.mpr fun t ht => (h.audio t ht).alike
  outputFlags := rfl
  inputFlags := rfl
  graph := by
    cases hgraph : c.graph? with
    | none => exact .none
    | some f => exact .some ((h.graph f hgraph).fragments ρ)
  maps := rfl
  audioSource := rfl

namespace FilterText

variable {ps us : List Part} {p q : Params} {name other : String} {t u : FilterText}
  {r r' : Reading}

theorem inert_paramDecimal (h : p.decimal name = .ok t) : t.Inert := by
  obtain ⟨n, -, hn⟩ := bind_eq_ok.mp h
  exact inert_number hn

theorem readAlike_paramText (ht : p.text name = .ok t) (hu : q.text other = .ok u) :
    ReadAlike .outside t.chars u.chars .outside := by
  obtain ⟨raw, -, rfl⟩ := map_eq_ok.mp ht
  obtain ⟨raw', -, rfl⟩ := map_eq_ok.mp hu
  exact readAlike_escaped raw raw'

namespace Parallel

theorem number [Fact (r ≠ .pending)] {m n : Float} {form form' : NumberForm}
    (ht : FilterText.number m form = .ok t) (hu : FilterText.number n form' = .ok u)
    (rest : Parallel r ps us r') : Parallel r (.sub t :: ps) (.sub u :: us) r' :=
  .inert (inert_number ht) (inert_number hu) rest

theorem decimal [Fact (r ≠ .pending)] (ht : p.decimal name = .ok t)
    (hu : q.decimal other = .ok u) (rest : Parallel r ps us r') :
    Parallel r (.sub t :: ps) (.sub u :: us) r' :=
  .inert (inert_paramDecimal ht) (inert_paramDecimal hu) rest

theorem text (ht : p.text name = .ok t) (hu : q.text other = .ok u)
    (rest : Parallel .outside ps us r') :
    Parallel .outside (.sub t :: ps) (.sub u :: us) r' :=
  .sub (readAlike_paramText ht hu) rest

theorem kept (ht : r.after t.chars = r) (rest : Parallel r ps us r') :
    Parallel r (.sub t :: ps) (.sub t :: us) r' :=
  .sub (readAlike_refl ht) rest

end Parallel

theorem readAlike_ofParts (ht : ofParts ps = .ok t) (hu : ofParts us = .ok u)
    (h : Parallel r ps us r') : ReadAlike r t.chars u.chars r' := h.readAlike ht hu

theorem gives_ofParts (h : Parallel r ps ps r') :
    Gives (fun t => r.after t.chars = r') (ofParts ps) :=
  fun _ ht => (h.readAlike ht ht).left

end FilterText

namespace Contribution

variable {ps : List FilterText.Part} {outputFlags inputFlags : List String}

theorem legible_flags {maps? : Option (List MapTarget)} {audioSource? : Option Nat} :
    Legible ⟨[], [], outputFlags, inputFlags, none, maps?, audioSource?⟩ :=
  ⟨by simp, by simp, by simp⟩

theorem legible_filters {video audio : List FilterText} (hvideo : ∀ t ∈ video, t.Closed)
    (haudio : ∀ t ∈ audio, t.Closed) :
    Legible ⟨video, audio, outputFlags, inputFlags, none, none, none⟩ :=
  ⟨hvideo, haudio, by simp⟩

theorem legible_video {l : List FilterText} (h : ∀ t ∈ l, t.Closed) :
    Legible ⟨l, [], outputFlags, inputFlags, none, none, none⟩ := legible_filters h (by simp)

theorem legible_graph {f : Fragment} (h : f.Legible) :
    Legible ⟨[], [], outputFlags, inputFlags, some f, none, none⟩ := by
  refine ⟨by simp, by simp, fun g hg => ?_⟩
  obtain rfl : f = g := Option.some.inj hg
  exact h

theorem legible_videoOf (h : FilterText.Parallel .outside ps ps .outside) :
    Gives Legible (videoOf ps) :=
  (FilterText.gives_ofParts h).bind fun _ ht =>
    gives_ok (legible_video (List.forall_mem_singleton.mpr ht))

theorem legible_audioOf (h : FilterText.Parallel .outside ps ps .outside) :
    Gives Legible (audioOf ps) :=
  (FilterText.gives_ofParts h).bind fun _ ht =>
    gives_ok (legible_filters (by simp) (List.forall_mem_singleton.mpr ht))

end Contribution

theorem GraphNode.legible_mk {inputs : List Pad} {filter : FilterText} {outputs : List String}
    (h : filter.Closed) (hnamed : ∀ name ∈ outputs, Neutral name.toList) :
    GraphNode.Legible ⟨inputs, filter, outputs⟩ := ⟨h, hnamed⟩

theorem GraphNode.gives_of {inputs : List Pad} {ps : List FilterText.Part}
    {outputs : List String} (h : FilterText.Parallel .outside ps ps .outside)
    (hnamed : ∀ name ∈ outputs, Neutral name.toList) :
    Gives GraphNode.Legible (GraphNode.of inputs ps outputs) :=
  (FilterText.gives_ofParts h).bind fun _ ht => gives_ok ⟨ht, hnamed⟩

namespace Handler

/-- Where only these texts differ, the handler contributes what is read alike. -/
def Reads (free : List (String × Freedom))
    (compile : Params → HandlerContext → Except Fault Contribution) : Prop :=
  ∀ (ρ : Renaming) p q ctx, Params.Vary free p q →
    Linked ρ.reading.Contributions (compile p ctx) (compile q ctx)

def freeTexts : (name : String) → List (String × Freedom)
  | "crop" => [("width", .any), ("height", .any), ("x", .any), ("y", .any)]
  | "pad" => [("width", .any), ("height", .any), ("x", .any), ("y", .any)]
  | "aspect" => [("ratio", .any)]
  | "selective_color" => [("color_range", .any)]
  | "lut_apply" => [("path", .any)]
  | "datamosh" => [("mode", .any)]
  | "text_overlay" => [("text", .any), ("font", .any)]
  | "lower_third" => [("text", .any), ("subtext", .any)]
  | "scrolling_text" => [("text", .any)]
  | "typewriter_text" => [("text", .length), ("font", .any)]
  | "burn_subtitles" => [("path", .any), ("fontcolor", .any)]
  | "animated_text" => [("text", .any)]
  | "ticker" => [("text", .any)]
  | "bounce_text" => [("text", .any)]
  | "fade_text" => [("text", .any)]
  | "karaoke_text" => [("text", .words)]
  | _ => []

theorem Legible.reads {compile : Params → HandlerContext → Except Fault Contribution}
    (h : Legible compile) : Reads [] compile := by
  intro ρ p q ctx hvary
  obtain rfl := hvary.eq_of_nil
  exact Gives.linked fun c hc => (h p ctx c hc).contributions ρ

end Handler

section Linked

variable {ρ : Renaming} {s : String} {ps us : List FilterText.Part}

theorem Contribution.contributions_video {l l' : List FilterText}
    {outputFlags inputFlags : List String}
    (h : List.Forall₂ FilterText.Alike l l') :
    ρ.reading.Contributions ⟨l, [], outputFlags, inputFlags, none, none, none⟩
      ⟨l', [], outputFlags, inputFlags, none, none, none⟩ :=
  ⟨h, .nil, rfl, rfl, .none, rfl, rfl⟩

theorem Contribution.contributions_graph {f f' : Fragment} {outputFlags inputFlags : List String}
    (h : ρ.reading.Fragments f f') :
    ρ.reading.Contributions ⟨[], [], outputFlags, inputFlags, some f, none, none⟩
      ⟨[], [], outputFlags, inputFlags, some f', none, none⟩ :=
  ⟨.nil, .nil, rfl, rfl, .some h, rfl, rfl⟩

theorem FilterText.linked_ofParts
    (h : FilterText.Parallel .outside (.lit s :: ps) (.lit s :: us) .outside)
    (hs : s ≠ "") :
    Linked FilterText.Alike (FilterText.ofParts (.lit s :: ps))
      (FilterText.ofParts (.lit s :: us)) :=
  fun _ _ ht hu => h.alike hs ht hu

theorem Contribution.linked_videoOf
    (h : FilterText.Parallel .outside (.lit s :: ps) (.lit s :: us) .outside)
    (hs : s ≠ "") :
    Linked ρ.reading.Contributions (videoOf (.lit s :: ps)) (videoOf (.lit s :: us)) :=
  (FilterText.linked_ofParts h hs).bind fun _ _ ht =>
    linked_ok (contributions_video (.cons ht .nil))

end Linked

end SkillPipeline
