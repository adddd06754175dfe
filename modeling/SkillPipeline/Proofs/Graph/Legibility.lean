import SkillPipeline.Proofs.Filter.Likeness
import SkillPipeline.Proofs.Graph.Renaming

namespace SkillPipeline

open SkillPipeline.Filter Merger

theorem neutral_toString (n : Nat) : Neutral (toString n).toList := by
  rw [Nat.toString_eq_repr, Nat.toList_repr]
  exact neutral_of_inert (inert_toDigits n)

theorem Medium.neutral_letter (medium : Medium) : Neutral medium.letter.toList := by
  cases medium <;> decide

theorem neutral_numbered {name : String} (h : Neutral name.toList) (n : Nat) :
    Neutral (name ++ toString n).toList := by
  rw [String.toList_append]
  exact h.append (neutral_toString n)

theorem neutral_foldName (medium : Medium) (count : Nat) :
    Neutral (foldName medium count).toList := neutral_numbered medium.neutral_letter count

theorem neutral_qualified {step name : String} (hstep : Neutral step.toList)
    (hname : Neutral name.toList) : Neutral (qualified step name).toList := by
  rw [toList_qualified]
  exact hstep.append (Neutral.append (s := ['_']) (by decide) hname)

namespace Renaming

variable (ρ : Renaming)

/-- Labels match if the renaming takes one to the other and both are neutral; filters have to be
read alike. -/
def reading : Matching where
  label a b := ρ.matching.label a b ∧ Neutral a.toList ∧ Neutral b.toList
  text := FilterText.Alike
  named name := Neutral name.toList
  named_empty := by decide
  label_iff ha hb := ρ.matching.label_iff ha.1 hb.1
  fold medium count :=
    ⟨ρ.matching.fold medium count, neutral_foldName medium count, neutral_foldName medium count⟩
  isEmpty_eq h := h.isEmpty
  sink medium := FilterText.Closed.alike (by cases medium <;> rfl)

variable {ρ}

theorem reading_prefixes {old new : String} (h : (old, new) ∈ ρ.names) (hold : Neutral old.toList)
    (hnew : Neutral new.toList) : ρ.reading.Prefixes old new := fun name hname =>
  ⟨ρ.prefixes h name trivial, neutral_qualified hold hname, neutral_qualified hnew hname⟩

end Renaming

theorem readAlike_bracketed {s t : String} (h : ReadAlike .outside s.toList t.toList .outside) :
    ReadAlike .outside ("[" ++ s ++ "]").toList ("[" ++ t ++ "]").toList .outside := by
  simp only [String.toList_append]
  have hopen : ReadAlike .outside "[".toList "[".toList .outside := readAlike_refl rfl
  exact (hopen.append h).append (readAlike_refl rfl)

theorem readAlike_flatMap {α β : Type} {R : α → β → Prop} {f : α → List Char} {g : β → List Char}
    {l : List α} {r : List β} (h : List.Forall₂ R l r)
    (hfg : ∀ a b, R a b → ReadAlike .outside (f a) (g b) .outside) :
    ReadAlike .outside (l.flatMap f) (r.flatMap g) .outside := by
  induction h with
  | nil => exact readAlike_refl rfl
  | cons hfirst hrest ih =>
    rw [List.flatMap_cons, List.flatMap_cons]
    exact (hfg _ _ hfirst).append ih

theorem readAlike_intercalate {separator : List Char}
    (hs : Reading.outside.after separator = .outside) {l r : List (List Char)}
    (h : List.Forall₂ (ReadAlike .outside · · .outside) l r) :
    ReadAlike .outside (separator.intercalate l) (separator.intercalate r) .outside := by
  induction h with
  | nil => exact readAlike_refl rfl
  | cons hfirst hrest ih =>
    cases hrest with
    | nil => simpa using hfirst
    | cons hnext hrest =>
      rw [List.intercalate_cons_cons, List.intercalate_cons_cons]
      exact (hfirst.append (readAlike_refl hs)).append ih

namespace Renaming

variable {ρ : Renaming}

theorem readAlike_padText {r r' : StreamRef} (h : ρ.reading.Refs r r') :
    ReadAlike .outside r.padText.toList r'.padText.toList .outside := by
  cases h with
  | stream index medium =>
    have hspec : Reading.outside.after (StreamRef.spec index medium).toList = .outside := by
      rw [StreamRef.spec, String.toList_append, String.toList_append, Reading.after_append,
        Reading.after_append, (neutral_toString index).after_eq]
      exact medium.neutral_letter.after_eq
    exact readAlike_bracketed (readAlike_refl hspec)
  | label hlabel => exact readAlike_bracketed (hlabel.2.1.readAlike hlabel.2.2)

theorem readAlike_node {n n' : LinkedNode} (h : ρ.reading.Nodes n n') :
    ReadAlike .outside n.text.toList n'.text.toList .outside := by
  have hinputs := readAlike_flatMap h.inputs fun _ _ => readAlike_padText
  have hfilters := FilterText.readAlike_join (s := ",") rfl h.filters
  have houtputs := readAlike_flatMap h.outputs fun _ _ hname =>
    readAlike_bracketed (hname.2.1.readAlike hname.2.2)
  have htext (node : LinkedNode) : node.text.toList =
      node.inputs.flatMap (·.padText.toList) ++ (FilterText.join "," node.filters).chars ++
        node.outputs.flatMap fun name => ("[" ++ name ++ "]").toList := by
    simp only [LinkedNode.text, FilterText.text, String.toList_append, String.toList_join,
      String.toList_ofList, List.flatMap_map]
  rw [htext, htext]
  exact (hinputs.append hfilters).append houtputs

end Renaming

/-- The filters with every text reduced to its live characters. -/
def FilterClause.skeleton : FilterClause → FilterClause
  | .none => .none
  | .chain video? audio? => .chain (video?.map skeletonOf) (audio?.map skeletonOf)
  | .graph text => .graph (skeletonOf text)
where
  skeletonOf (text : String) : String := String.ofList (live text)

theorem skeletonOf_eq {s t : String} (h : ReadAlike .outside s.toList t.toList .outside) :
    FilterClause.skeleton.skeletonOf s = FilterClause.skeleton.skeletonOf t :=
  congrArg String.ofList h.live

namespace Renaming

variable {ρ : Renaming}

theorem skeleton_chain {l l' : Option (List FilterText)}
    (h : Option.Rel (List.Forall₂ ρ.reading.text) l l') :
    (l.map fun fs => (FilterText.join "," fs).text).map FilterClause.skeleton.skeletonOf =
      (l'.map fun fs => (FilterText.join "," fs).text).map FilterClause.skeleton.skeletonOf := by
  cases h with
  | none => rfl
  | some hfilters =>
    have hread := FilterText.readAlike_join (s := ",") rfl hfilters
    refine congrArg some (skeletonOf_eq ?_)
    simpa only [FilterText.text, String.toList_ofList] using hread

/-- As command lines take them, clauses that match have the same live characters. -/
theorem skeleton_eq {c c' : Clause} (h : ρ.reading.Clauses c c') :
    c.written.skeleton = c'.written.skeleton := by
  cases h with
  | none => rfl
  | chain hvideo haudio =>
    rw [Clause.written, Clause.written, FilterClause.skeleton, FilterClause.skeleton,
      skeleton_chain hvideo, skeleton_chain haudio]
  | graph hnodes =>
    refine congrArg FilterClause.graph (skeletonOf_eq ?_)
    rw [Text.join, Text.join, String.toList_intercalate, String.toList_intercalate, List.map_map,
      List.map_map]
    refine readAlike_intercalate rfl ?_
    rw [List.forall₂_map_left_iff, List.forall₂_map_right_iff]
    exact hnodes.imp fun _ _ => readAlike_node

end Renaming

end SkillPipeline
