import SkillPipeline.Effect.Sequence
import SkillPipeline.Proofs.Effect.Contract

namespace SkillPipeline.Effect

open Merger

def Digitless (word : String) : Prop := ∀ c ∈ word.toList, c.isDigit = false

instance (word : String) : Decidable (Digitless word) :=
  decidable_of_iff (word.toList.all fun c => !c.isDigit) (by simp [Digitless])

theorem toList_numbered (name : String) (index : Nat) :
    (numbered name index).toList = name.toList ++ Nat.toDigits 10 index := by
  rw [numbered, String.toList_append, toList_toString]

theorem exists_digit_numbered (name : String) (index : Nat) :
    ∃ d rest, d.isDigit = true ∧ (numbered name index).toList = name.toList ++ d :: rest := by
  cases hdigits : Nat.toDigits 10 index with
  | nil => exact absurd hdigits Nat.toDigits_ne_nil
  | cons d rest =>
    refine ⟨d, rest, ?_, by rw [toList_numbered, hdigits]⟩
    exact Nat.isDigit_of_mem_toDigits (by decide) (by decide) (hdigits ▸ List.mem_cons_self)

theorem takeWhile_numbered {name : String} (hname : Digitless name) (index : Nat) :
    (numbered name index).toList.takeWhile (fun c => !c.isDigit) = name.toList := by
  obtain ⟨d, rest, hd, hlist⟩ := exists_digit_numbered name index
  rw [hlist, List.takeWhile_append_of_pos fun c hc => by simp [hname c hc]]
  simp [hd]

theorem numbered_inj {a b : String} (ha : Digitless a) (hb : Digitless b) {i j : Nat} :
    numbered a i = numbered b j ↔ a = b ∧ i = j := by
  constructor
  · intro h
    have hwords : a.toList = b.toList := by
      rw [← takeWhile_numbered ha i, ← takeWhile_numbered hb j, h]
    rw [String.toList_inj] at hwords
    subst hwords
    have hnumbers : toString i = toString j := String.append_right_inj _ |>.mp h
    exact ⟨rfl, toString_inj.mp hnumbers⟩
  · rintro ⟨rfl, rfl⟩
    rfl

theorem numbered_ne {word : String} (hword : Digitless word) (a : String) (i : Nat) :
    numbered a i ≠ word := by
  intro h
  obtain ⟨d, rest, hd, hlist⟩ := exists_digit_numbered a i
  rw [h] at hlist
  have hdigit := hword d (by simp [hlist])
  rw [hd] at hdigit
  cases hdigit

theorem nodup_numbered {name : String} (hname : Digitless name) (count : Nat) :
    ((List.range count).map (numbered name)).Nodup :=
  List.nodup_range.map fun _ _ h => ((numbered_inj hname hname).mp h).2

def wire (inputs : List Pad) (outputs : List String) : GraphNode := ⟨inputs, .empty, outputs⟩

/-- The wiring of a chain: numbered streams, and joints of which each adds one stream to what the
joints before it have joined. -/
def chain (name later : String) (sources : List (List Pad)) : List GraphNode :=
  sources.zipIdx.flatMap (fun p => [wire p.1 [numbered name p.2]])
    ++ sources.tail.zipIdx.flatMap fun p =>
      [wire [.label (joinedLabel (numbered name 0) later p.2), .label (numbered name (p.2 + 1))]
        [numbered later (p.2 + 1)]]

variable {name later : String} {sources : List (List Pad)}

theorem chain_outputs : (chain name later sources).flatMap (·.outputs) =
    (List.range sources.length).flatMap (fun i => [numbered name i])
      ++ (List.range sources.tail.length).flatMap fun k => [numbered later (k + 1)] := by
  rw [← flatMap_zipIdx_snd, ← flatMap_zipIdx_snd, chain, List.flatMap_append]
  simp only [List.flatMap_assoc, List.flatMap_singleton, wire]

theorem chain_inputs : (chain name later sources).flatMap (·.inputs) =
    sources.flatten ++ (List.range sources.tail.length).flatMap fun k =>
      [.label (joinedLabel (numbered name 0) later k), .label (numbered name (k + 1))] := by
  rw [← flatMap_zipIdx_snd, ← List.flatMap_id, ← flatMap_zipIdx_fst sources, chain,
    List.flatMap_append]
  simp only [List.flatMap_assoc, List.flatMap_singleton, wire, id]

theorem chain_tally (name later : String) (count : Nat) :
    ((List.range (count + 1)).flatMap (fun i => [numbered name i])
        ++ (List.range count).flatMap fun k => [numbered later (k + 1)]).Perm
      ((List.range count).flatMap (fun k =>
          [joinedLabel (numbered name 0) later k, numbered name (k + 1)])
        ++ [joinedLabel (numbered name 0) later count]) := by
  rw [List.perm_iff_count]
  intro label
  induction count with
  | zero => rfl
  | succ count ih =>
    rw [List.range_succ, List.range_succ (n := count)] at *
    simp only [List.flatMap_append, List.flatMap_singleton, List.count_append, List.count_cons,
      List.count_nil, joinedLabel] at ih ⊢
    omega

theorem exists_of_mem_chain {label : String}
    (h : label ∈ (chain name later sources).flatMap (·.outputs)) :
    ∃ i, label = numbered name i ∨ label = numbered later i := by
  rw [chain_outputs, List.mem_append, List.mem_flatMap, List.mem_flatMap] at h
  obtain ⟨i, -, hi⟩ | ⟨k, -, hk⟩ := h
  · exact ⟨i, .inl (List.mem_singleton.mp hi)⟩
  · exact ⟨k + 1, .inr (List.mem_singleton.mp hk)⟩

theorem chain_nodup (hname : Digitless name) (hlater : Digitless later) (hne : name ≠ later) :
    ((chain name later sources).flatMap (·.outputs)).Nodup := by
  rw [chain_outputs, ← List.map_eq_flatMap, ← List.map_eq_flatMap]
  refine List.nodup_append'.mpr ⟨nodup_numbered hname _, ?_, fun label hpart hjoint => ?_⟩
  · exact List.nodup_range.map fun _ _ h => Nat.succ.inj ((numbered_inj hlater hlater).mp h).2
  · obtain ⟨i, -, rfl⟩ := List.mem_map.mp hpart
    obtain ⟨k, -, hk⟩ := List.mem_map.mp hjoint
    exact hne ((numbered_inj hlater hname).mp hk).1.symm

/-- The joints of a chain read what its parts and the joints before them produce. -/
theorem chain_ordered (hsources : ∀ pads ∈ sources, ∀ pad ∈ pads, pad.label? = none)
    (known : List String) : Fragment.OrderedFrom known (chain name later sources) := by
  -- The sources come first and read no labels; each later node reads the joint before it.
  rw [chain, Fragment.orderedFrom_append]
  constructor
  · refine Fragment.orderedFrom_of_reads_nil fun node hnode => ?_
    obtain ⟨p, hp, hnode⟩ := List.mem_flatMap.mp hnode
    rw [List.mem_singleton.mp hnode]
    exact List.filterMap_eq_nil_iff.mpr fun pad hpad =>
      hsources p.1 (List.fst_mem_of_mem_zipIdx hp) pad hpad
  · have hparts : (sources.zipIdx.flatMap fun p => [wire p.1 [numbered name p.2]]).flatMap
        (·.outputs) = (List.range sources.length).flatMap fun i => [numbered name i] := by
      rw [← flatMap_zipIdx_snd, List.flatMap_assoc]
      rfl
    rw [hparts]
    refine Fragment.orderedFrom_flatMap_zipIdx (fun k => [numbered later (k + 1)])
      (fun p => rfl) fun p hp => ⟨fun label hlabel => ?_, trivial⟩
    have hcount : p.2 < sources.length - 1 := by
      have hlt : p.2 < sources.tail.length + 0 := List.snd_lt_of_mem_zipIdx hp
      rwa [Nat.add_zero, List.length_tail] at hlt
    have hlabels : label = joinedLabel (numbered name 0) later p.2 ∨
        label = numbered name (p.2 + 1) := by
      simpa [GraphNode.reads, wire, Pad.label?] using hlabel
    simp only [List.mem_append, List.mem_flatMap, List.mem_range, List.mem_singleton]
    -- The first joint takes the first source, every other one the joint before.
    obtain rfl | rfl := hlabels
    · cases hk : p.2 with
      | zero => exact .inl (.inr ⟨0, by omega, rfl⟩)
      | succ k => exact .inr ⟨k, Nat.lt_succ_self k, rfl⟩
    · exact .inl (.inr ⟨p.2 + 1, by omega, rfl⟩)

theorem chain_reads (hsources : ∀ pads ∈ sources, ∀ pad ∈ pads, pad.label? = none) :
    (chain name later sources).flatMap (·.reads) = (List.range sources.tail.length).flatMap
      fun k => [joinedLabel (numbered name 0) later k, numbered name (k + 1)] := by
  have hreads : (chain name later sources).flatMap (·.reads) =
      ((chain name later sources).flatMap (·.inputs)).filterMap Pad.label? := by
    rw [List.filterMap_flatMap]
    rfl
  have hnone : sources.flatten.filterMap Pad.label? = [] := by
    refine List.filterMap_eq_nil_iff.mpr fun pad hpad => ?_
    obtain ⟨pads, hpads, hpad⟩ := List.mem_flatten.mp hpad
    exact hsources pads hpads pad hpad
  rw [hreads, chain_inputs, List.filterMap_append, hnone, List.nil_append, List.filterMap_flatMap]
  rfl

theorem chain_woven (hname : Digitless name) (hlater : Digitless later) (hne : name ≠ later)
    (hsources : ∀ pads ∈ sources, ∀ pad ∈ pads, pad.label? = none) (hsome : sources ≠ []) :
    Fragment.Woven (chain name later sources)
      [joinedLabel (numbered name 0) later sources.tail.length] := by
  refine ⟨chain_nodup hname hlater hne, ?_, chain_ordered hsources⟩
  have hlength : sources.length = sources.tail.length + 1 := by
    rw [List.length_tail, Nat.sub_add_cancel (List.length_pos_iff.mpr hsome)]
  rw [chain_outputs, chain_reads hsources, hlength]
  exact chain_tally name later sources.tail.length

end SkillPipeline.Effect
