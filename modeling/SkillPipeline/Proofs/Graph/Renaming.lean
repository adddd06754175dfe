import Mathlib.Data.List.Pairwise
import Mathlib.Data.Set.Function
import SkillPipeline.Proofs.Graph.WellFormed
import SkillPipeline.Proofs.Graph.Matching

namespace SkillPipeline

open Merger Outcome

/-- What a step calls a label, if the label is one of that step. -/
def Merger.unqualified? (step label : String) : Option String :=
  ((step.toList ++ ['_']).isPrefixOf? label.toList).map String.ofList

theorem Merger.unqualified?_eq_some {step label name : String} :
    unqualified? step label = some name ↔ label = qualified step name := by
  have hsplit : step.toList ++ '_' :: name.toList = step.toList ++ ['_'] ++ name.toList := by simp
  rw [unqualified?, Option.map_eq_some_iff, ← String.toList_inj, toList_qualified, hsplit]
  constructor
  · rintro ⟨rest, hrest, rfl⟩
    rw [String.toList_ofList]
    exact (List.isPrefixOf?_eq_some_iff_append_eq.mp hrest).symm
  · intro h
    exact ⟨name.toList, List.isPrefixOf?_eq_some_iff_append_eq.mpr h.symm, String.ofList_toList⟩

/-- Old and new names of steps. No two of the old ones have labels that meet, and no two of the new
ones. -/
structure Renaming where
  names : List (String × String)
  old_apart : (names.map Prod.fst).Pairwise Apart
  new_apart : (names.map Prod.snd).Pairwise Apart

theorem eq_of_qualified_eq {α : Type} {f : α → String} {l : List α}
    (h : (l.map f).Pairwise Apart) {p q : α} (hp : p ∈ l) (hq : q ∈ l) {a b : String}
    (heq : qualified (f p) a = qualified (f q) b) : p = q := by
  have hsymm : Std.Symm fun p q => Apart (f p) (f q) := ⟨fun _ _ hpq => hpq.symm⟩
  by_contra hne
  exact (List.pairwise_map.mp h).forall hp hq hne a b heq

namespace Renaming

variable (ρ : Renaming)

def rename (label : String) : String :=
  (ρ.names.findSome? fun (old, new) => (unqualified? old label).map (qualified new)).getD label

/-- The labels that a graph of the renamed steps can have. -/
inductive Known : String → Prop
  | fold (medium : Medium) (count : Nat) : Known (foldName medium count)
  | step {old new : String} (h : (old, new) ∈ ρ.names) (name : String) : Known (qualified old name)

variable {ρ}

theorem rename_foldName (medium : Medium) (count : Nat) :
    ρ.rename (foldName medium count) = foldName medium count := by
  have hnone : (ρ.names.findSome? fun (old, new) =>
      (unqualified? old (foldName medium count)).map (qualified new)) = none := by
    refine List.findSome?_eq_none_iff.mpr fun (old, new) _ => ?_
    refine Option.map_eq_none_iff.mpr (Option.eq_none_iff_forall_ne_some.mpr fun name hname => ?_)
    exact qualified_ne_foldName old name medium count (unqualified?_eq_some.mp hname).symm
  rw [rename, hnone, Option.getD_none]

theorem rename_qualified {old new : String} (h : (old, new) ∈ ρ.names) (name : String) :
    ρ.rename (qualified old name) = qualified new name := by
  rw [rename]
  cases hfound : ρ.names.findSome? fun (old', new') =>
      (unqualified? old' (qualified old name)).map (qualified new') with
  | none =>
    have hnone := List.findSome?_eq_none_iff.mp hfound (old, new) h
    rw [Option.map_eq_none_iff, unqualified?_eq_some.mpr rfl] at hnone
    cases hnone
  | some label =>
    obtain ⟨⟨old', new'⟩, hmem, hlabel⟩ := List.exists_of_findSome?_eq_some hfound
    obtain ⟨name', hname', rfl⟩ := Option.map_eq_some_iff.mp hlabel
    have heq := unqualified?_eq_some.mp hname'
    obtain ⟨rfl, rfl⟩ := Prod.mk.inj (eq_of_qualified_eq ρ.old_apart h hmem heq)
    rw [Option.getD_some, qualified_inj.mp heq]

/-- Different labels stay different. -/
theorem rename_injOn : Set.InjOn ρ.rename {label | ρ.Known label} := by
  rintro a ha b hb heq
  cases ha with
  | fold medium count =>
    cases hb with
    | fold medium' count' => rwa [rename_foldName, rename_foldName] at heq
    | step hmem name =>
      rw [rename_foldName, rename_qualified hmem] at heq
      exact absurd heq.symm (qualified_ne_foldName _ name medium count)
  | step hmem name =>
    cases hb with
    | fold medium count =>
      rw [rename_foldName, rename_qualified hmem] at heq
      exact absurd heq (qualified_ne_foldName _ name medium count)
    | step hmem' name' =>
      rw [rename_qualified hmem, rename_qualified hmem'] at heq
      obtain ⟨rfl, rfl⟩ := Prod.mk.inj (eq_of_qualified_eq ρ.new_apart hmem hmem' heq)
      rw [qualified_inj.mp heq]

/-- Labels match if the renaming takes one to the other; filters have to be the same. -/
def matching (ρ : Renaming) : Matching where
  label a b := ρ.Known a ∧ ρ.rename a = b
  text := Eq
  named _ := True
  named_empty := trivial
  label_iff := by
    rintro a - b - ⟨ha, rfl⟩ ⟨hb, rfl⟩
    exact (rename_injOn.eq_iff ha hb).symm
  fold medium count := ⟨.fold medium count, rename_foldName medium count⟩
  isEmpty_eq h := congrArg FilterText.isEmpty h
  sink _ := rfl

theorem prefixes {old new : String} (h : (old, new) ∈ ρ.names) : ρ.matching.Prefixes old new :=
  fun name _ => ⟨.step h name, rename_qualified h name⟩

/-- Things of two lists have the names that a renaming gives them, if their labels never meet. -/
theorem exists_of_forall₂ {α : Type} {f : α → String} {R : α → α → Prop} {l l' : List α}
    (h : List.Forall₂ R l l') (hold : l.Pairwise fun a b => Apart (f a) (f b))
    (hnew : l'.Pairwise fun a b => Apart (f a) (f b)) :
    ∃ ρ : Renaming, List.Forall₂ (fun a b => (f a, f b) ∈ ρ.names ∧ R a b) l l' := by
  have hlength := h.length_eq
  let names := (l.map f).zip (l'.map f)
  have hfst : names.map Prod.fst = l.map f := List.map_fst_zip (by simp [hlength])
  have hsnd : names.map Prod.snd = l'.map f := List.map_snd_zip (by simp [hlength])
  refine ⟨⟨names, hfst ▸ List.pairwise_map.mpr hold, hsnd ▸ List.pairwise_map.mpr hnew⟩, ?_⟩
  refine List.forall₂_iff_zip.mpr ⟨hlength, fun {a b} hmem => ⟨?_, List.forall₂_zip h hmem⟩⟩
  have hpair := List.mem_map_of_mem (f := Prod.map f f) hmem
  rwa [← List.zip_map] at hpair

end Renaming

section Relabel

variable (f : String → String)

def StreamRef.relabel : StreamRef → StreamRef
  | .stream index medium => .stream index medium
  | .label name => .label (f name)

def LinkedNode.relabel (node : LinkedNode) : LinkedNode where
  inputs := node.inputs.map (StreamRef.relabel f)
  filters := node.filters
  outputs := node.outputs.map f

def Clause.relabel : Clause → Clause
  | .none => .none
  | .chain video? audio? => .chain video? audio?
  | .graph nodes => .graph (nodes.map (LinkedNode.relabel f))

end Relabel

def LinkedNode.labels (node : LinkedNode) : List String :=
  node.inputs.filterMap StreamRef.label? ++ node.outputs

def Clause.labels : Clause → List String
  | .graph nodes => nodes.flatMap LinkedNode.labels
  | _ => []

namespace Renaming

variable {ρ : Renaming}

theorem eq_map_of_forall₂ {α β : Type} {R : α → β → Prop} {g : α → β} {l : List α} {r : List β}
    (h : List.Forall₂ R l r) (hR : ∀ a b, R a b → b = g a) : r = l.map g := by
  induction h with
  | nil => rfl
  | cons hfirst hrest ih => rw [List.map_cons, ← hR _ _ hfirst, ← ih]

theorem eq_relabel_of_refs {r r' : StreamRef} (h : ρ.matching.Refs r r') :
    r' = r.relabel ρ.rename := by
  cases h with
  | stream index medium => rfl
  | label hlabel => rw [StreamRef.relabel, hlabel.2]

theorem eq_relabel_of_nodes {n n' : LinkedNode} (h : ρ.matching.Nodes n n') :
    n' = n.relabel ρ.rename := by
  obtain ⟨inputs', filters', outputs'⟩ := n'
  obtain ⟨hinputs, hfilters, houtputs⟩ := h
  have hsame : List.Forall₂ Eq n.filters filters' := hfilters
  have hread : inputs' = n.inputs.map (StreamRef.relabel ρ.rename) :=
    eq_map_of_forall₂ hinputs fun _ _ => eq_relabel_of_refs
  have hproduced : outputs' = n.outputs.map ρ.rename :=
    eq_map_of_forall₂ houtputs fun _ _ hab => hab.2.symm
  rw [List.forall₂_eq_eq_eq] at hsame
  rw [LinkedNode.relabel, hread, hproduced, hsame]

theorem chain_eq {v v' : Option (List FilterText)}
    (h : Option.Rel (List.Forall₂ ρ.matching.text) v v') : v = v' := by
  cases h with
  | none => rfl
  | some hfilters =>
    have hsame : List.Forall₂ Eq _ _ := hfilters
    rw [List.forall₂_eq_eq_eq] at hsame
    rw [hsame]

theorem eq_relabel_of_clauses {c c' : Clause} (h : ρ.matching.Clauses c c') :
    c' = c.relabel ρ.rename := by
  cases h with
  | none => rfl
  | chain hvideo haudio => rw [Clause.relabel, chain_eq hvideo, chain_eq haudio]
  | graph hnodes => rw [Clause.relabel, eq_map_of_forall₂ hnodes fun _ _ => eq_relabel_of_nodes]

theorem known_of_refs {l l' : List StreamRef} (h : List.Forall₂ ρ.matching.Refs l l') :
    ∀ name ∈ l.filterMap StreamRef.label?, ρ.Known name := by
  intro name hname
  obtain ⟨-, -, hknown, -⟩ := exists_of_mem_left (Matching.forall₂_labels h) hname
  exact hknown

theorem known_of_clauses {c c' : Clause} (h : ρ.matching.Clauses c c') :
    ∀ name ∈ c.labels, ρ.Known name := by
  cases h with
  | none => simp [Clause.labels]
  | chain hvideo haudio => simp [Clause.labels]
  | graph hnodes =>
    intro name hname
    obtain ⟨node, hnode, hname⟩ := List.mem_flatMap.mp hname
    obtain ⟨node', -, hmatch⟩ := exists_of_mem_left hnodes hnode
    obtain hread | hproduced := List.mem_append.mp hname
    · exact known_of_refs hmatch.inputs name hread
    · obtain ⟨-, -, hknown, -⟩ := exists_of_mem_left hmatch.outputs hproduced
      exact hknown

end Renaming

end SkillPipeline
