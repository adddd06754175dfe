import Mathlib.Data.List.Nodup
import SkillPipeline.Graph.Fragment
import Std.Data.String.ToNat
import SkillPipeline.Graph.Merger

namespace SkillPipeline

def Pad.label? : Pad → Option String
  | .label name => some name
  | _ => none

def GraphNode.reads (node : GraphNode) : List String := node.inputs.filterMap Pad.label?

theorem nodup_toList {α : Type} (o : Option α) : o.toList.Nodup := by
  cases o <;> simp

theorem filterMap_cons_toList {α β : Type} (g : α → Option β) (a : α) (l : List α) :
    (a :: l).filterMap g = (g a).toList ++ l.filterMap g := by
  cases h : g a <;> simp [h]

namespace Fragment

def pads (f : Fragment) : List Pad := f.nodes.flatMap (·.inputs)

def labelsRead (f : Fragment) : List String := f.nodes.flatMap (·.reads)

/-- A fragment whose labels are distinct and declared, which reads each main stream at most once and
replaces those that it reads, whose outputs are distinct labels that no node reads, and each other
label of which is read exactly once. -/
structure WellFormed (f : Fragment) : Prop where
  outputs_nodup : f.outputs.Nodup
  reads_declared : ∀ name ∈ f.labelsRead, name ∈ f.outputs
  main_once : ∀ medium, f.pads.count (.main medium) ≤ 1
  main_replaced : ∀ medium, f.reads medium → f.replaces medium
  output_free : ∀ medium out, f.output? medium = some out → out ∈ f.outputs ∧ out ∉ f.labelsRead
  outputs_distinct : ∀ out, f.video? = some out → f.audio? ≠ some out
  read_once : ∀ name ∈ f.outputs, (∀ medium, f.output? medium ≠ some name) →
    f.labelsRead.count name = 1

def finals (f : Fragment) : List String := f.video?.toList ++ f.audio?.toList

theorem mem_finals {f : Fragment} {name : String} :
    name ∈ f.finals ↔ ∃ medium, f.output? medium = some name := by
  rw [finals, List.mem_append, Option.mem_toList, Option.mem_toList]
  constructor
  · rintro (h | h)
    · exact ⟨.video, h⟩
    · exact ⟨.audio, h⟩
  · rintro ⟨medium, h⟩
    cases medium with
    | video => exact .inl h
    | audio => exact .inr h

/-- The labels of a well-formed fragment are those that its nodes read and those that become main
streams, each once. -/
theorem WellFormed.tally {f : Fragment} (h : f.WellFormed) :
    f.outputs.Perm (f.labelsRead ++ f.finals) := by
  -- Neither side repeats a label, so it is enough that both have the same labels.
  have hfree : ∀ name ∈ f.finals, name ∈ f.outputs ∧ name ∉ f.labelsRead := by
    intro name hname
    obtain ⟨medium, hout⟩ := mem_finals.mp hname
    exact h.output_free medium name hout
  have hreads : f.labelsRead.Nodup := by
    refine List.nodup_iff_count_le_one.mpr fun name => ?_
    by_cases hname : name ∈ f.labelsRead
    · exact Nat.le_of_eq (h.read_once name (h.reads_declared name hname) fun medium hout =>
        (h.output_free medium name hout).2 hname)
    · rw [List.count_eq_zero_of_not_mem hname]
      exact Nat.zero_le 1
  have hfinals : f.finals.Nodup := by
    refine List.nodup_append'.mpr ⟨nodup_toList _, nodup_toList _, fun name hv ha => ?_⟩
    rw [Option.mem_toList] at hv ha
    exact h.outputs_distinct name hv ha
  have hall : (f.labelsRead ++ f.finals).Nodup :=
    List.nodup_append'.mpr ⟨hreads, hfinals, fun name hr hf => (hfree name hf).2 hr⟩
  refine (List.perm_ext_iff_of_nodup h.outputs_nodup hall).mpr fun name => ?_
  rw [List.mem_append]
  constructor
  · intro hname
    by_cases hout : ∃ medium, f.output? medium = some name
    · exact .inr (mem_finals.mpr hout)
    · have honce := h.read_once name hname fun medium ho => hout ⟨medium, ho⟩
      exact .inl (List.count_pos_iff.mp (honce ▸ Nat.one_pos))
  · rintro (hname | hname)
    · exact h.reads_declared name hname
    · exact (hfree name hname).1

/-- A fragment is well-formed if its labels are those that its nodes read and those that become main
streams, and it reads each main stream at most once and replaces it then. -/
theorem WellFormed.of_tally {f : Fragment} (hnodup : f.outputs.Nodup)
    (htally : f.outputs.Perm (f.labelsRead ++ f.finals))
    (hmain : ∀ medium, f.pads.count (.main medium) ≤ 1)
    (hreplaced : ∀ medium, f.reads medium → f.replaces medium) : f.WellFormed := by
  obtain ⟨hreads, hfinals, hdisjoint⟩ := List.nodup_append'.mp (htally.nodup_iff.mp hnodup)
  refine ⟨hnodup, fun name hname => ?_, hmain, hreplaced, fun medium out hout => ?_,
    fun out hv ha => ?_, fun name hname hnot => ?_⟩
  · exact htally.mem_iff.mpr (List.mem_append_left _ hname)
  · have hmem : out ∈ f.finals := mem_finals.mpr ⟨medium, hout⟩
    exact ⟨htally.mem_iff.mpr (List.mem_append_right _ hmem), fun hread => hdisjoint hread hmem⟩
  · exact (List.nodup_append'.mp hfinals).2.2 (Option.mem_toList.mpr hv) (Option.mem_toList.mpr ha)
  · obtain hread | hfinal := List.mem_append.mp (htally.mem_iff.mp hname)
    · exact List.count_eq_one_of_mem hreads hread
    · obtain ⟨medium, hout⟩ := mem_finals.mp hfinal
      exact absurd hout (hnot medium)

/-- Every label that one of the nodes reads is among `known` or an output of an earlier one. -/
def OrderedFrom (known : List String) : List GraphNode → Prop
  | [] => True
  | node :: rest => (∀ name ∈ node.reads, name ∈ known) ∧ OrderedFrom (known ++ node.outputs) rest

/-- Nodes read only labels that earlier nodes of the fragment produce. -/
def Ordered (f : Fragment) : Prop := OrderedFrom [] f.nodes

end Fragment

end SkillPipeline

namespace SkillPipeline.Merger

theorem qualified_inj {step a b : String} : qualified step a = qualified step b ↔ a = b :=
  String.append_right_inj _

theorem toList_qualified (step label : String) :
    (qualified step label).toList = step.toList ++ '_' :: label.toList := by
  simp [qualified]

theorem toList_toString (n : Nat) : (toString n).toList = Nat.toDigits 10 n := by
  rw [Nat.toString_eq_repr, Nat.toList_repr]

theorem toString_inj {m n : Nat} : toString m = toString n ↔ m = n := by
  rw [Nat.toString_eq_repr, Nat.toString_eq_repr, Nat.repr_inj]

/-- Digits end at the first underscore, so what stands before it is determined. -/
theorem eq_of_digits_eq {i j : Nat} {a b : List Char}
    (h : Nat.toDigits 10 i ++ '_' :: a = Nat.toDigits 10 j ++ '_' :: b) : i = j := by
  have hdigits (n : Nat) (rest : List Char) :
      (Nat.toDigits 10 n ++ '_' :: rest).takeWhile (· != '_') = Nat.toDigits 10 n := by
    rw [List.takeWhile_append_of_pos, List.takeWhile_cons_of_neg (by simp), List.append_nil]
    intro c hc
    have hne : c ≠ '_' := fun heq => Nat.underscore_not_in_toDigits (heq ▸ hc)
    simpa using hne
  have heq := congrArg (List.takeWhile (· != '_')) h
  rw [hdigits, hdigits, ← toList_toString, ← toList_toString, String.toList_inj] at heq
  exact toString_inj.mp heq

theorem number_eq_of_qualified_eq {base a b : String} {i j : Nat}
    (h : qualified (base ++ toString i) a = qualified (base ++ toString j) b) : i = j := by
  have hlist := congrArg String.toList h
  rw [toList_qualified, toList_qualified, String.toList_append, String.toList_append,
    List.append_assoc, List.append_assoc, toList_toString, toList_toString] at hlist
  exact eq_of_digits_eq (List.append_cancel_left hlist)

def foldName (medium : Medium) (count : Nat) : String := medium.letter ++ toString count

theorem letter_append_toString (medium : Medium) (count : Nat) :
    medium.letter ++ toString count = foldName medium count := rfl

theorem foldName_inj {medium other : Medium} {m n : Nat} :
    foldName medium m = foldName other n ↔ medium = other ∧ m = n := by
  constructor
  · intro h
    have hlist := congrArg String.toList h
    rw [foldName, foldName, String.toList_append, String.toList_append] at hlist
    cases medium <;> cases other
    · exact ⟨rfl, toString_inj.mp (String.toList_inj.mp (List.cons.inj hlist).2)⟩
    · exact absurd (List.cons.inj hlist).1 (by decide)
    · exact absurd (List.cons.inj hlist).1 (by decide)
    · exact ⟨rfl, toString_inj.mp (String.toList_inj.mp (List.cons.inj hlist).2)⟩
  · rintro ⟨rfl, rfl⟩
    rfl

/-- The label of a step has an underscore, the name of a folded chain has none. -/
theorem qualified_ne_foldName (step label : String) (medium : Medium) (count : Nat) :
    qualified step label ≠ foldName medium count := by
  intro h
  have hmem : '_' ∈ (foldName medium count).toList := by
    rw [← h, toList_qualified]
    simp
  rw [foldName, String.toList_append, toList_toString, List.mem_append] at hmem
  obtain hletter | hdigit := hmem
  · revert hletter
    cases medium <;> decide
  · exact Nat.underscore_not_in_toDigits hdigit

/-- Two steps whose labels never meet, whatever their fragments call them. -/
def Apart (step other : String) : Prop := ∀ a b, qualified step a ≠ qualified other b

theorem Apart.symm {step other : String} (h : Apart step other) : Apart other step :=
  fun a b heq => h b a heq.symm

end SkillPipeline.Merger
