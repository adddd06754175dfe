import SkillPipeline.Proofs.Graph.WellFormed
import SkillPipeline.Proofs.Pipeline.Expansion
import SkillPipeline.Proofs.Effect.Table
import SkillPipeline.Proofs.Graph.Linearity

namespace SkillPipeline.Expansion

open Merger

/-- All labels of the stages begin with one name, and those of different stages never meet. -/
structure Below (root : String) (stages : List Stage) : Prop where
  within : ∀ stage ∈ stages, ∀ label, ∃ rest, qualified stage.id label = qualified root rest
  apart : stages.Pairwise fun a b => Apart a.id b.id

theorem below_leaf {id : String} {params : Params} {depth : Nat} :
    Below id [⟨id, params, depth⟩] := by
  refine ⟨fun stage hstage label => ?_, List.pairwise_singleton ..⟩
  rw [List.mem_singleton.mp hstage]
  exact ⟨label, rfl⟩

theorem Below.apart_of_ne {base : String} {i j : Nat} {l l' : List Stage}
    (h : Below (base ++ toString i) l) (h' : Below (base ++ toString j) l') (hne : i ≠ j) :
    ∀ a ∈ l, ∀ b ∈ l', Apart a.id b.id := by
  intro a ha b hb x y heq
  obtain ⟨rest, hrest⟩ := h.within a ha x
  obtain ⟨rest', hrest'⟩ := h'.within b hb y
  exact hne (number_eq_of_qualified_eq (hrest.symm.trans (heq.trans hrest')))

theorem exists_number_of_mem {α : Type} {base : String} {l : List α} {k : Nat}
    {inner : List (List Stage)} {stages : List Stage}
    (h : List.Forall₂ (fun p stages => Below (base ++ toString (p.2 + 1)) stages) (l.zipIdx k)
      inner) (hmem : stages ∈ inner) : ∃ i, k ≤ i ∧ Below (base ++ toString (i + 1)) stages := by
  induction l generalizing k inner with
  | nil =>
    cases h
    cases hmem
  | cons a rest ih =>
    rw [List.zipIdx_cons] at h
    obtain ⟨first, others, hfirst, hothers, rfl⟩ := List.forall₂_cons_left_iff.mp h
    obtain rfl | hmem := List.mem_cons.mp hmem
    · exact ⟨k, Nat.le_refl k, hfirst⟩
    · obtain ⟨i, hi, hbelow⟩ := ih hothers hmem
      exact ⟨i, Nat.le_of_succ_le hi, hbelow⟩

theorem pairwise_apart_of_numbered {α : Type} {base : String} {l : List α} {k : Nat}
    {inner : List (List Stage)}
    (h : List.Forall₂ (fun p stages => Below (base ++ toString (p.2 + 1)) stages) (l.zipIdx k)
      inner) : inner.flatten.Pairwise fun a b => Apart a.id b.id := by
  induction l generalizing k inner with
  | nil =>
    cases h
    exact .nil
  | cons a rest ih =>
    rw [List.zipIdx_cons] at h
    obtain ⟨first, others, hfirst, hothers, rfl⟩ := List.forall₂_cons_left_iff.mp h
    rw [List.flatten_cons, List.pairwise_append]
    refine ⟨hfirst.apart, ih hothers, fun a ha b hb => ?_⟩
    obtain ⟨stages, hstages, hb⟩ := List.mem_flatten.mp hb
    obtain ⟨i, hi, hbelow⟩ := exists_number_of_mem hothers hstages
    exact hfirst.apart_of_ne hbelow (by omega) a ha b hb

theorem below_hereditary : Hereditary (fun _ => True) fun place => Below place.id := by
  refine ⟨fun place params _ _ => below_leaf, fun place caller calls inner hinner => ?_⟩
  have hnumbered : List.Forall₂
      (fun p stages => Below (place.id ++ "_" ++ toString (p.2 + 1)) stages)
      calls.zipIdx inner := hinner
  refine ⟨fun stage hstage label => ?_, pairwise_apart_of_numbered hnumbered⟩
  obtain ⟨stages, hstages, hstage⟩ := List.mem_flatten.mp hstage
  obtain ⟨i, -, hbelow⟩ := exists_number_of_mem hnumbered hstages
  obtain ⟨rest, hrest⟩ := hbelow.within stage hstage label
  refine ⟨toString (i + 1) ++ "_" ++ rest, hrest.trans ?_⟩
  simp only [qualified, String.append_assoc]

/-- Labels of two stages of an expanded pipeline never meet. -/
theorem steps_apart {ss : List Step} {session : Session} {all : List Stage}
    (h : ((steps false 0 ss).run session).1.2 = .ok all) :
    all.Pairwise fun a b => Apart a.id b.id := by
  obtain ⟨inner, rfl, hinner⟩ := exists_trees below_hereditary (fun _ _ => trivial) h
  exact pairwise_apart_of_numbered hinner

theorem steps_nodup_ids {ss : List Step} {session : Session} {all : List Stage}
    (h : ((steps false 0 ss).run session).1.2 = .ok all) : (all.map (·.id)).Nodup := by
  refine List.pairwise_map.mpr ((steps_apart h).imp fun {a b} hapart heq => ?_)
  exact hapart "" "" (by rw [heq])

end SkillPipeline.Expansion

namespace SkillPipeline

open Merger

/-- Stages of an expanded pipeline with different identifiers have labels that never meet. -/
theorem Expansion.apart_of_ne {ss : List Step} {session : Session} {all : List Stage}
    (h : ((Expansion.steps false 0 ss).run session).1.2 = .ok all) {a b : Stage} (ha : a ∈ all)
    (hb : b ∈ all) (hne : a.id ≠ b.id) : Apart a.id b.id := by
  have hapart : all.Pairwise fun a b => a.id ≠ b.id → Apart a.id b.id := by
    refine (steps_apart h).imp ?_
    intro a b hab _
    exact hab
  have hflip : all.Pairwise (flip fun a b : Stage => a.id ≠ b.id → Apart a.id b.id) := by
    refine (steps_apart h).imp ?_
    intro a b hab _
    exact hab.symm
  exact hapart.forall_of_forall_of_flip (fun a _ hself => absurd rfl hself) hflip ha hb hne

/-- The stages of a pipeline, each of which contributes a fragment once at most, never meet in the
graph. -/
theorem Expansion.pairwise_apart {ss : List Step} {session : Session} {all : List Stage}
    (h : ((Expansion.steps false 0 ss).run session).1.2 = .ok all) {ids : List String}
    (hnodup : ids.Nodup) (hids : ∀ id ∈ ids, ∃ stage ∈ all, stage.id = id) :
    ids.Pairwise Apart := by
  refine hnodup.imp_of_mem fun {a b} ha hb hne => ?_
  obtain ⟨stage, hstage, rfl⟩ := hids a ha
  obtain ⟨other, hother, rfl⟩ := hids b hb
  exact apart_of_ne h hstage hother hne

/-- Operations with well-formed fragments under the identifiers of an expanded pipeline never make
the merger fail, and neither does its end, whether the audio is kept or not; and each fragment with
nodes that a built-in handler gives is well-formed, whatever its parameters and its context. -/
theorem merging_never_fails :
    (∀ (ss : List Step) (session : Session) (all : List Stage),
      ((Expansion.steps false 0 ss).run session).1.2 = .ok all →
      ∀ ops : List Op, (∀ op ∈ ops, op.WellFormed) → (ops.filterMap Op.step?).Nodup →
        (∀ id ∈ ops.filterMap Op.step?, ∃ stage ∈ all, stage.id = id) →
        ∀ keepAudio, ∃ m m' merged,
          ({} : Merger).run ops = .ok m ∧ m.finalize keepAudio = .ok (m', merged)) ∧
    (∀ name h, (name, h) ∈ HandlerTable.builtin → ∀ p ctx c f, h.compile p ctx = .ok c →
      c.graph? = some f → f.nodes ≠ [] → f.WellFormed) := by
  constructor
  · intro ss session all hall ops hops hnodup hids keepAudio
    exact exists_run_finalize hops (Expansion.pairwise_apart hall hnodup hids) keepAudio
  · intro name h hentry p ctx c f hc hf hnodes
    exact ((HandlerTable.builtin_sound hentry hc).fragment f hf hnodes).wellFormed

/-- A skill that shows one part of the picture and its mirror images. -/
def mirrorSkill : Skill where
  name := "mirror"
  category := .spatial
  parameters := [
    { name := "mode", type := .enum, default? := some (.text "horizontal"),
      choices? := some ["horizontal", "vertical", "quad"] }]
  strategy := .handler "mirror"

/-- Two mirrors, and the audio of another input between them. -/
def mirrorOps : List Op :=
  [.chains [.wording "hflip"] [],
    .fragment "s1" { nodes := Effect.mirrorNodes "quad", video? := some "out" }, .replaceAudio 1,
    .fragment "s2" { nodes := Effect.mirrorNodes "horizontal", video? := some "out" }]

theorem merging_never_fails_mirrors :
    (∃ m m' merged,
      ({} : Merger).run mirrorOps = .ok m ∧ m.finalize false = .ok (m', merged)) ∧
    Fragment.WellFormed { nodes := Effect.mirrorNodes "quad", video? := some "out" } := by
  let params (mode : String) : Params := ⟨mirrorSkill, [("mode", .text mode)]⟩
  have hops : ∀ op ∈ mirrorOps, op.WellFormed := by
    have hmirror (mode : String) : Fragment.WellFormed
        { nodes := Effect.mirrorNodes mode, video? := some "out" } :=
      have hsound : Fragment.Sound { nodes := Effect.mirrorNodes mode, video? := some "out" } [] :=
        (Effect.mirror_wired mode).sound_alone (Effect.mirror_indices mode)
      hsound.wellFormed
    simp only [mirrorOps, List.forall_mem_cons]
    exact ⟨trivial, hmirror "quad", trivial, hmirror "horizontal", List.forall_mem_nil _⟩
  constructor
  · exact merging_never_fails.1
      [⟨"mirror", [("mode", .string "quad")]⟩, ⟨"mirror", []⟩]
      { registry := .ofSkills [mirrorSkill] }
      [⟨"s1", params "quad", 0⟩, ⟨"s2", params "horizontal", 0⟩] rfl mirrorOps hops
      (by decide) (by simp [mirrorOps, Op.step?]) false
  · exact merging_never_fails.2 "mirror" { compile := Effect.mirror }
      (by simp [HandlerTable.builtin, Effect.spatial]) (params "quad")
      { primary := { path := "/in.mp4", fps := 25, width := 640, height := 360, hasAudio := true }
        stillDuration := 4, files := { workingDir := "/", home := "/", nodes := [] } } _ _ rfl rfl
      (by simp [Effect.mirrorNodes])

end SkillPipeline
