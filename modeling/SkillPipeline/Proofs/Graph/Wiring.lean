import Mathlib.Data.List.Induction
import Mathlib.Data.List.Perm.Basic
import SkillPipeline.Proofs.Graph.WellFormed

namespace SkillPipeline

/-- The input that a pad reads, if it is not a main stream. -/
def Pad.index? : Pad → Option Nat
  | .input index _ => some index
  | _ => none

def GraphNode.bare (node : GraphNode) : GraphNode := { node with filter := .empty }

@[simp] theorem GraphNode.bare_inputs (node : GraphNode) : node.bare.inputs = node.inputs := rfl

@[simp] theorem GraphNode.bare_outputs (node : GraphNode) : node.bare.outputs = node.outputs := rfl

theorem flatMap_zipIdx_fst {α β : Type} (l : List α) (g : α → List β) :
    l.zipIdx.flatMap (fun p => g p.1) = l.flatMap g := by
  have hmap : l.zipIdx.map Prod.fst = l := List.zipIdx_map_fst 0 l
  rw [← List.flatMap_map Prod.fst, hmap]

theorem map_zipIdx_snd {α β : Type} (l : List α) (g : Nat → β) :
    l.zipIdx.map (fun p => g p.2) = (List.range l.length).map g := by
  rw [← Function.comp_def g, ← List.map_map, List.zipIdx_map_snd, List.range_eq_range']

theorem flatMap_zipIdx_snd {α β : Type} (l : List α) (g : Nat → List β) :
    l.zipIdx.flatMap (fun p => g p.2) = (List.range l.length).flatMap g := by
  rw [List.flatMap_def, map_zipIdx_snd, List.flatMap_def]

namespace Fragment

def indices (f : Fragment) : List Nat := f.pads.filterMap Pad.index?

/-- A fragment whose labels are produced before they are read and whose labels are linear. -/
structure Wired (f : Fragment) : Prop where
  outputs_nodup : f.outputs.Nodup
  tally : f.outputs.Perm (f.labelsRead ++ f.finals)
  main : ∀ medium ∈ Medium.all,
    f.pads.count (.main medium) ≤ 1 ∧ (f.reads medium = true → f.replaces medium = true)
  ordered : f.Ordered

instance decidableOrderedFrom : (known : List String) → (nodes : List GraphNode) →
    Decidable (OrderedFrom known nodes)
  | _, [] => inferInstanceAs (Decidable True)
  | known, node :: rest =>
    have := decidableOrderedFrom (known ++ node.outputs) rest
    inferInstanceAs (Decidable (_ ∧ _))

instance (f : Fragment) : Decidable f.Wired :=
  have : Decidable f.Ordered := decidableOrderedFrom [] f.nodes
  decidable_of_iff
    (f.outputs.Nodup ∧ f.outputs.Perm (f.labelsRead ++ f.finals) ∧ (∀ medium ∈ Medium.all,
      f.pads.count (.main medium) ≤ 1 ∧ (f.reads medium = true → f.replaces medium = true)) ∧
        f.Ordered)
    ⟨fun ⟨hnodup, htally, hmain, hordered⟩ => ⟨hnodup, htally, hmain, hordered⟩,
      fun h => ⟨h.outputs_nodup, h.tally, h.main, h.ordered⟩⟩

/-- A fragment that the merger takes at any time, and that reads no extra inputs but its own. -/
structure Sound (f : Fragment) (own : List Nat) : Prop where
  wellFormed : f.WellFormed
  ordered : f.Ordered
  owned : ∀ index ∈ f.indices, index ∈ own

theorem mem_mediumAll (medium : Medium) : medium ∈ Medium.all := by
  cases medium <;> decide

theorem Wired.sound {f : Fragment} {own : List Nat} (h : f.Wired)
    (howned : ∀ index ∈ f.indices, index ∈ own) : f.Sound own :=
  ⟨.of_tally h.outputs_nodup h.tally (fun medium => (h.main medium (mem_mediumAll medium)).1)
    fun medium => (h.main medium (mem_mediumAll medium)).2, h.ordered, howned⟩

theorem Wired.sound_alone {f : Fragment} {own : List Nat} (h : f.Wired) (hnone : f.indices = []) :
    f.Sound own :=
  h.sound fun index hindex => by
    rw [hnone] at hindex
    cases hindex

def bare (f : Fragment) : Fragment := { f with nodes := f.nodes.map GraphNode.bare }

theorem pads_bare (f : Fragment) : f.bare.pads = f.pads := by
  simp [pads, bare, List.flatMap_map]

theorem outputs_bare (f : Fragment) : f.bare.outputs = f.outputs := by
  simp [outputs, bare, List.flatMap_map]

theorem labelsRead_bare (f : Fragment) : f.bare.labelsRead = f.labelsRead := by
  simp [labelsRead, bare, List.flatMap_map, GraphNode.reads]

theorem reads_bare (f : Fragment) (medium : Medium) : f.bare.reads medium = f.reads medium := by
  simp [reads, bare, List.any_map, Function.comp_def]

theorem orderedFrom_bare {known : List String} {nodes : List GraphNode} :
    OrderedFrom known (nodes.map GraphNode.bare) ↔ OrderedFrom known nodes := by
  induction nodes generalizing known with
  | nil => exact Iff.rfl
  | cons node rest ih => exact and_congr Iff.rfl ih

theorem wired_bare {f : Fragment} : f.bare.Wired ↔ f.Wired := by
  have hiff (g : Fragment) : g.Wired ↔ g.outputs.Nodup ∧
      g.outputs.Perm (g.labelsRead ++ g.finals) ∧ (∀ medium ∈ Medium.all,
        g.pads.count (.main medium) ≤ 1 ∧ (g.reads medium = true → g.replaces medium = true)) ∧
          OrderedFrom [] g.nodes :=
    ⟨fun h => ⟨h.outputs_nodup, h.tally, h.main, h.ordered⟩,
      fun ⟨hnodup, htally, hmain, hordered⟩ => ⟨hnodup, htally, hmain, hordered⟩⟩
  have hfinals : f.bare.finals = f.finals := rfl
  have hreplaces (medium : Medium) : f.bare.replaces medium = f.replaces medium := rfl
  rw [hiff, hiff, outputs_bare, labelsRead_bare, pads_bare, hfinals]
  simp only [reads_bare, hreplaces]
  rw [bare, orderedFrom_bare]

theorem indices_bare (f : Fragment) : f.bare.indices = f.indices := by
  rw [indices, pads_bare, indices]

theorem Sound.of_bare {f g : Fragment} {own : List Nat} (hg : g.Wired) (hfg : f.bare = g)
    (howned : ∀ index ∈ g.indices, index ∈ own) : f.Sound own := by
  subst hfg
  exact (wired_bare.mp hg).sound (indices_bare f ▸ howned)

theorem orderedFrom_append {known : List String} {first second : List GraphNode} :
    OrderedFrom known (first ++ second) ↔
      OrderedFrom known first ∧ OrderedFrom (known ++ first.flatMap (·.outputs)) second := by
  induction first generalizing known with
  | nil => simp [OrderedFrom]
  | cons node rest ih =>
    rw [List.cons_append, OrderedFrom, OrderedFrom, ih, List.flatMap_cons, List.append_assoc,
      and_assoc]

theorem orderedFrom_of_reads_nil {known : List String} {nodes : List GraphNode}
    (h : ∀ node ∈ nodes, node.reads = []) : OrderedFrom known nodes := by
  induction nodes generalizing known with
  | nil => trivial
  | cons node rest ih =>
    refine ⟨fun name hname => ?_, ih fun other hother => h other (List.mem_cons_of_mem node hother)⟩
    rw [h node List.mem_cons_self] at hname
    cases hname

/-- Numbered groups of nodes are in order if each of them is, after all before it. -/
theorem orderedFrom_flatMap_zipIdx {α : Type} {known : List String} {l : List α}
    {g : α × Nat → List GraphNode} (outs : Nat → List String)
    (houts : ∀ p, (g p).flatMap (·.outputs) = outs p.2)
    (h : ∀ p ∈ l.zipIdx, OrderedFrom (known ++ (List.range p.2).flatMap outs) (g p)) :
    OrderedFrom known (l.zipIdx.flatMap g) := by
  -- The last group comes after all others, so the list is taken apart at its end.
  induction l using List.reverseRecOn with
  | nil => trivial
  | append_singleton l a ih =>
    have hzip : (l ++ [a]).zipIdx = l.zipIdx ++ [(a, l.length)] := by
      simp [List.zipIdx_append]
    rw [hzip] at h ⊢
    rw [List.flatMap_append, List.flatMap_singleton, orderedFrom_append]
    refine ⟨ih fun p hp => h p (List.mem_append_left _ hp), ?_⟩
    have hlast := h (a, l.length) (List.mem_append_right _ (List.mem_singleton_self _))
    rw [← flatMap_zipIdx_snd l outs] at hlast
    simpa [List.flatMap_assoc, houts] using hlast

/-- Nodes that stand by themselves: they read what they produce, each label once, but for those at
the ends. -/
structure Woven (nodes : List GraphNode) (ends : List String) : Prop where
  nodup : (nodes.flatMap (·.outputs)).Nodup
  tally : (nodes.flatMap (·.outputs)).Perm (nodes.flatMap (·.reads) ++ ends)
  ordered : ∀ known, OrderedFrom known nodes

theorem Woven.append {first second : List GraphNode} {ends others : List String}
    (h : Woven first ends) (h' : Woven second others)
    (hapart : ∀ label ∈ first.flatMap (·.outputs), label ∉ second.flatMap (·.outputs)) :
    Woven (first ++ second) (ends ++ others) := by
  refine ⟨?_, ?_, fun known => orderedFrom_append.mpr ⟨h.ordered known, h'.ordered _⟩⟩
  · rw [List.flatMap_append]
    exact List.nodup_append'.mpr ⟨h.nodup, h'.nodup, fun label hl hl' => hapart label hl hl'⟩
  · rw [List.perm_iff_count]
    intro label
    have hcount := h.tally.count_eq label
    have hcount' := h'.tally.count_eq label
    simp only [List.flatMap_append, List.count_append] at hcount hcount' ⊢
    omega

theorem woven_fan {parts : List GraphNode} {join : GraphNode}
    (hfree : ∀ node ∈ parts, node.reads = [])
    (hjoin : join.inputs = (parts.flatMap (·.outputs)).map Pad.label)
    (hnodup : (parts.flatMap (·.outputs) ++ join.outputs).Nodup) :
    Woven (parts ++ [join]) join.outputs := by
  have hreads : join.reads = parts.flatMap (·.outputs) := by
    rw [GraphNode.reads, hjoin, List.filterMap_map]
    exact List.filterMap_some
  refine ⟨?_, ?_, fun known => ?_⟩
  · rw [List.flatMap_append, List.flatMap_singleton]
    exact hnodup
  · rw [List.flatMap_append, List.flatMap_append, List.flatMap_eq_nil_iff.mpr hfree,
      List.flatMap_singleton, List.flatMap_singleton, List.nil_append, hreads]
  · refine orderedFrom_append.mpr ⟨orderedFrom_of_reads_nil hfree, fun name hname => ?_, trivial⟩
    rw [hreads] at hname
    exact List.mem_append_right _ hname

/-- A fragment is wired if its nodes are woven, and it reads each main stream at most once and
replaces it then. -/
theorem Woven.wired {f : Fragment} (h : Woven f.nodes f.finals)
    (honce : ∀ medium, f.pads.count (.main medium) ≤ 1)
    (hreplaced : ∀ medium, .main medium ∈ f.pads → f.replaces medium = true) : f.Wired where
  outputs_nodup := h.nodup
  tally := h.tally
  main medium _ := ⟨honce medium, fun hread => hreplaced medium (by
    simpa [reads, pads] using hread)⟩
  ordered := h.ordered []

end Fragment

end SkillPipeline
