import SkillPipeline.Proofs.Outcome
import SkillPipeline.Proofs.Graph.Operations

namespace SkillPipeline

open Outcome Merger

/-- When labels and filters of two graphs match, and which labels fragments may use. A label matches
one label only and is matched by one only, names of folded chains match themselves, and so do the
filters that end a stream. What else it is to match is left open: commands may name the steps of
their labels differently, or differ in the texts given. -/
structure Matching where
  label : String → String → Prop
  text : FilterText → FilterText → Prop
  named : String → Prop
  named_empty : named ""
  label_iff : ∀ {a a' b b'}, label a a' → label b b' → (a = b ↔ a' = b')
  fold : ∀ medium count, label (foldName medium count) (foldName medium count)
  isEmpty_eq : ∀ {t u}, text t u → t.isEmpty = u.isEmpty
  sink : ∀ medium : Medium, text medium.sink medium.sink

namespace Matching

variable (M : Matching)

inductive Refs : StreamRef → StreamRef → Prop
  | stream (index : Nat) (medium : Medium) : Refs (.stream index medium) (.stream index medium)
  | label {a b : String} (h : M.label a b) : Refs (.label a) (.label b)

structure Nodes (n n' : LinkedNode) : Prop where
  inputs : List.Forall₂ M.Refs n.inputs n'.inputs
  filters : List.Forall₂ M.text n.filters n'.filters
  outputs : List.Forall₂ M.label n.outputs n'.outputs

structure Channels (c c' : Channel) : Prop where
  pending : List.Forall₂ M.text c.pending c'.pending
  main : M.Refs c.main c'.main
  folds : c.folds = c'.folds

structure Mergers (m m' : Merger) : Prop where
  mode : m.mode = m'.mode
  video : M.Channels m.video m'.video
  audio : M.Channels m.audio m'.audio
  nodes : List.Forall₂ M.Nodes m.nodes m'.nodes
  produced : List.Forall₂ M.label m.produced m'.produced
  consumed : List.Forall₂ M.label m.consumed m'.consumed

/-- Nodes of fragments, which have labels of their own. -/
structure GraphNodes (n n' : GraphNode) : Prop where
  inputs : n.inputs = n'.inputs
  filter : M.text n.filter n'.filter
  outputs : n.outputs = n'.outputs

structure Fragments (f f' : Fragment) : Prop where
  nodes : List.Forall₂ M.GraphNodes f.nodes f'.nodes
  video : f.video? = f'.video?
  audio : f.audio? = f'.audio?
  named : ∀ name ∈ f.outputs, M.named name

/-- Two steps whose labels match, whatever their fragments call them. -/
def Prefixes (step step' : String) : Prop :=
  ∀ name, M.named name → M.label (qualified step name) (qualified step' name)

inductive Clauses : Clause → Clause → Prop
  | none : Clauses .none .none
  | chain {v v' a a' : Option (List FilterText)} (video : Option.Rel (List.Forall₂ M.text) v v')
      (audio : Option.Rel (List.Forall₂ M.text) a a') : Clauses (.chain v a) (.chain v' a')
  | graph {nodes nodes' : List LinkedNode} (h : List.Forall₂ M.Nodes nodes nodes') :
      Clauses (.graph nodes) (.graph nodes')

structure Results (r r' : Merged) : Prop where
  clause : M.Clauses r.clause r'.clause
  graphMode : r.graphMode = r'.graphMode
  video : M.Refs r.video r'.video
  audio : M.Refs r.audio r'.audio

variable {M}

theorem contains_eq {a a' : String} {l l' : List String} (h : List.Forall₂ M.label l l')
    (ha : M.label a a') : l.contains a = l'.contains a' := by
  induction h with
  | nil => rfl
  | cons hfirst hrest ih =>
    rw [List.contains_cons, List.contains_cons, ih]
    congr 1
    exact Bool.eq_iff_iff.mpr (by rw [beq_iff_eq, beq_iff_eq]; exact M.label_iff ha hfirst)

theorem Refs.isSome_eq {r r' : StreamRef} (h : M.Refs r r') :
    r.label?.isSome = r'.label?.isSome := by
  cases h <;> rfl

theorem forall₂_labels {l l' : List StreamRef} (h : List.Forall₂ M.Refs l l') :
    List.Forall₂ M.label (l.filterMap StreamRef.label?) (l'.filterMap StreamRef.label?) := by
  induction h with
  | nil => exact .nil
  | cons hfirst hrest ih =>
    cases hfirst with
    | stream index medium => exact ih
    | label hlabel => exact .cons hlabel ih

theorem isEmpty_eq_of_forall₂ {α β : Type} {R : α → β → Prop} {l : List α} {r : List β}
    (h : List.Forall₂ R l r) : l.isEmpty = r.isEmpty := by
  cases h <;> rfl

namespace Mergers

variable {m m' : Merger}

theorem start : M.Mergers {} {} where
  mode := rfl
  video := ⟨.nil, .stream 0 .video, rfl⟩
  audio := ⟨.nil, .stream 0 .audio, rfl⟩
  nodes := .nil
  produced := .nil
  consumed := .nil

theorem channel (h : M.Mergers m m') (medium : Medium) :
    M.Channels (m.channel medium) (m'.channel medium) := by
  cases medium with
  | video => exact h.video
  | audio => exact h.audio

theorem setChannel (h : M.Mergers m m') {medium : Medium} {c c' : Channel} (hc : M.Channels c c') :
    M.Mergers (m.setChannel medium c) (m'.setChannel medium c') := by
  cases medium with
  | video => exact { h with video := hc }
  | audio => exact { h with audio := hc }

theorem setMain (h : M.Mergers m m') {medium : Medium} {r r' : StreamRef} (hr : M.Refs r r') :
    M.Mergers (m.setMain medium r) (m'.setMain medium r') :=
  h.setChannel { h.channel medium with main := hr }

theorem push (h : M.Mergers m m') {n n' : LinkedNode} (hn : M.Nodes n n') :
    M.Mergers (m.push n) (m'.push n') :=
  { h with nodes := List.rel_append h.nodes (.cons hn .nil) }

theorem finals (h : M.Mergers m m') : List.Forall₂ M.label m.finals m'.finals :=
  forall₂_labels (.cons h.video.main (.cons h.audio.main .nil))

theorem opened (h : M.Mergers m m') : Agree M.Mergers m.opened m'.opened := by
  rw [Merger.opened, Merger.opened, h.mode]
  split
  · exact .error
  · exact .ok h

theorem produce (h : M.Mergers m m') {a a' : String} (ha : M.label a a') :
    Agree M.Mergers (m.produce a) (m'.produce a') := by
  rw [Merger.produce, Merger.produce, contains_eq h.produced ha]
  split
  · exact .error
  · exact .ok { h with produced := List.rel_append h.produced (.cons ha .nil) }

theorem consume (h : M.Mergers m m') {a a' : String} (ha : M.label a a') :
    Agree M.Mergers (m.consume a) (m'.consume a') := by
  rw [Merger.consume, Merger.consume, contains_eq h.consumed ha]
  split
  · exact .error
  · exact .ok { h with consumed := List.rel_append h.consumed (.cons ha .nil) }

theorem consumeRef (h : M.Mergers m m') {r r' : StreamRef} (hr : M.Refs r r') :
    Agree M.Mergers (m.consumeRef r) (m'.consumeRef r') := by
  cases hr with
  | stream index medium => exact .ok h
  | label hlabel => exact h.consume hlabel

theorem sink (h : M.Mergers m m') {medium : Medium} {r r' : StreamRef} (hr : M.Refs r r') :
    Agree M.Mergers (m.sink medium r) (m'.sink medium r') := by
  cases hr with
  | stream index other => exact .ok h
  | label hlabel =>
    exact (h.consume hlabel).bind fun u u' hu =>
      .ok (hu.push ⟨.cons (.label hlabel) .nil, .cons (M.sink medium) .nil, .nil⟩)

theorem fold (h : M.Mergers m m') (medium : Medium) :
    Agree M.Mergers (m.fold medium) (m'.fold medium) := by
  obtain ⟨hpending, hmain, hfolds⟩ := h.channel medium
  rw [Merger.fold, Merger.fold, isEmpty_eq_of_forall₂ hpending, hfolds]
  split
  · exact .ok h
  · have hname := M.fold medium (m'.channel medium).folds
    refine (h.consumeRef hmain).bind fun u u' hu => ?_
    refine (hu.produce hname).bind fun v v' hv => ?_
    exact .ok ((hv.push ⟨.cons hmain .nil, hpending, .cons hname .nil⟩).setChannel
      ⟨.nil, .label hname, rfl⟩)

theorem addChains (h : M.Mergers m m') {video video' audio audio' : List FilterText}
    (hvideo : List.Forall₂ M.text video video') (haudio : List.Forall₂ M.text audio audio') :
    Agree M.Mergers (m.addChains video audio) (m'.addChains video' audio') := by
  have hnonempty (t u : FilterText) (htu : M.text t u) : (!t.isEmpty) = !u.isEmpty := by
    rw [M.isEmpty_eq htu]
  have hv := forall₂_filter hvideo hnonempty
  have ha := forall₂_filter haudio hnonempty
  refine h.opened.bind fun u u' hu => ?_
  dsimp only
  rw [isEmpty_eq_of_forall₂ hv, isEmpty_eq_of_forall₂ ha]
  split
  · exact .ok hu
  · refine .ok { hu with mode := ?_, video := ?_, audio := ?_ }
    · rw [hu.mode]
    · exact { hu.video with pending := List.rel_append hu.video.pending hv }
    · exact { hu.audio with pending := List.rel_append hu.audio.pending ha }

end Mergers

namespace Fragments

variable {f f' : Fragment}

theorem output?_eq (h : M.Fragments f f') (medium : Medium) :
    f.output? medium = f'.output? medium := by
  cases medium with
  | video => exact h.video
  | audio => exact h.audio

theorem reads_eq (h : M.Fragments f f') (medium : Medium) : f.reads medium = f'.reads medium := by
  obtain ⟨hnodes, -, -, -⟩ := h
  rw [Fragment.reads, Fragment.reads]
  generalize f.nodes = nodes, f'.nodes = nodes' at hnodes
  induction hnodes with
  | nil => rfl
  | cons hfirst hrest ih => rw [List.any_cons, List.any_cons, hfirst.inputs, ih]

theorem outputs_eq (h : M.Fragments f f') : f.outputs = f'.outputs := by
  obtain ⟨hnodes, -, -, -⟩ := h
  rw [Fragment.outputs, Fragment.outputs]
  generalize f.nodes = nodes, f'.nodes = nodes' at hnodes
  induction hnodes with
  | nil => rfl
  | cons hfirst hrest ih => rw [List.flatMap_cons, List.flatMap_cons, hfirst.outputs, ih]

end Fragments

namespace Mergers

variable {m m' : Merger} {f f' : Fragment} {step step' : String}

variable {labels : List String}

theorem resolve (h : M.Mergers m m') (hstep : M.Prefixes step step')
    (hlabels : ∀ name ∈ labels, M.named name) (pad : Pad) :
    Agree M.Refs (m.resolve step labels pad) (m'.resolve step' labels pad) := by
  cases pad with
  | main medium => exact .ok (h.channel medium).main
  | input index medium => exact .ok (.stream index medium)
  | label name =>
    rw [Merger.resolve, Merger.resolve]
    split
    · next hname => exact .ok (.label (hstep name (hlabels name (List.contains_iff_mem.mp hname))))
    · exact .error

theorem addNode (h : M.Mergers m m') (hstep : M.Prefixes step step')
    (hlabels : ∀ name ∈ labels, M.named name) {node node' : GraphNode}
    (hnode : M.GraphNodes node node') (hmem : ∀ name ∈ node.outputs, name ∈ labels) :
    Agree M.Mergers (m.addNode step labels node) (m'.addNode step' labels node') := by
  obtain ⟨hinputs, hfilter, houtputs⟩ := hnode
  have hpads : List.Forall₂ Eq node.inputs node'.inputs := List.forall₂_eq_eq_eq ▸ hinputs
  have hproduced : List.Forall₂ M.label (node.outputs.map (qualified step))
      (node'.outputs.map (qualified step')) := by
    rw [← houtputs, List.forall₂_map_left_iff, List.forall₂_map_right_iff]
    exact List.forall₂_same.mpr fun name hname => hstep name (hlabels name (hmem name hname))
  have hresolve : Agree (List.Forall₂ M.Refs) (node.inputs.mapM (m.resolve step labels))
      (node'.inputs.mapM (m'.resolve step' labels)) :=
    agree_mapM hpads fun pad pad' hpad => hpad ▸ h.resolve hstep hlabels pad
  refine hresolve.bind fun refs refs' hrefs => ?_
  refine (agree_foldlM hrefs h fun u u' r r' hu hr => hu.consumeRef hr).bind fun u u' hu => ?_
  refine (agree_foldlM hproduced hu fun v v' a a' hv ha => hv.produce ha).bind fun v v' hv => ?_
  exact .ok (hv.push ⟨hrefs, .cons hfilter .nil, hproduced⟩)

theorem replaceMain (h : M.Mergers m m') (hstep : M.Prefixes step step') (hf : M.Fragments f f')
    (medium : Medium) :
    Agree M.Mergers (m.replaceMain step f medium) (m'.replaceMain step' f' medium) := by
  have hmain := (h.channel medium).main
  rw [Merger.replaceMain, Merger.replaceMain, hf.output?_eq, hf.reads_eq, hf.outputs_eq]
  cases f'.output? medium with
  | some out =>
    dsimp only
    cases hdeclared : f'.outputs.contains out with
    | false => exact .error
    | true =>
      have hnamed : M.named out :=
        hf.named out (hf.outputs_eq ▸ List.contains_iff_mem.mp hdeclared)
      have hout : M.Refs (.label (qualified step out)) (.label (qualified step' out)) :=
        .label (hstep out hnamed)
      cases f'.reads medium with
      | true => exact .ok (h.setMain hout)
      | false => exact (h.sink hmain).bind fun u u' hu => .ok (hu.setMain hout)
  | none =>
    dsimp only
    rw [hmain.isSome_eq]
    split
    · exact .error
    · exact .ok h

theorem addFragment (h : M.Mergers m m') (hstep : M.Prefixes step step') (hf : M.Fragments f f') :
    Agree M.Mergers (m.addFragment step f) (m'.addFragment step' f') := by
  have hfold (u u' : Merger) (medium : Medium) (hu : M.Mergers u u') :
      Agree M.Mergers (foldIfTouched f u medium) (foldIfTouched f' u' medium) := by
    rw [foldIfTouched, foldIfTouched, Fragment.replaces, Fragment.replaces, hf.output?_eq,
      hf.reads_eq]
    split
    · exact hu.fold medium
    · exact .ok hu
  have hnodes : List.Forall₂ (fun n n' => (∀ name ∈ n.outputs, name ∈ f'.outputs) ∧
      M.GraphNodes n n') f.nodes f'.nodes := by
    refine (List.forall₂_and_left _ _).mpr ⟨fun n hn name hname => ?_, hf.nodes⟩
    rw [← hf.outputs_eq]
    exact List.mem_flatMap.mpr ⟨n, hn, hname⟩
  refine h.opened.bind fun u u' hu => ?_
  rw [isEmpty_eq_of_forall₂ hf.nodes]
  split
  · exact .ok hu
  · refine (agree_foldlM_same { hu with mode := rfl } hfold).bind fun v v' hv => ?_
    rw [hf.outputs_eq]
    split
    · exact .error
    · refine (agree_foldlM hnodes hv fun w w' n n' hw hn => ?_).bind fun w w' hw => ?_
      · exact hw.addNode hstep (fun name hname => hf.named name (hf.outputs_eq ▸ hname)) hn.2 hn.1
      · exact agree_foldlM_same hw fun _ _ medium hx => hx.replaceMain hstep hf medium

theorem replaceAudioSource (h : M.Mergers m m') (index : Nat) :
    Agree (fun p p' => M.Mergers p.1 p'.1 ∧ p.2 = p'.2) (m.replaceAudioSource index)
      (m'.replaceAudioSource index) := by
  refine h.opened.bind fun u u' hu => ?_
  refine ((hu.setMain (.stream index .audio)).sink hu.audio.main).bind fun v v' hv => ?_
  have hkept : u.audio.main.label?.isNone = u'.audio.main.label?.isNone := by
    rw [← Option.not_isSome, ← Option.not_isSome, hu.audio.main.isSome_eq]
  exact .ok ⟨hv, hkept⟩

theorem isSome_find?_eq {α β : Type} {R : α → β → Prop} {p : α → Bool} {q : β → Bool} {l : List α}
    {r : List β} (h : List.Forall₂ R l r) (hpq : ∀ a b, R a b → p a = q b) :
    (l.find? p).isSome = (r.find? q).isSome := by
  induction h with
  | nil => rfl
  | cons hfirst hrest ih =>
    rw [List.find?_cons, List.find?_cons, hpq _ _ hfirst]
    split
    · rfl
    · exact ih

theorem endAudio (h : M.Mergers m m') (keepAudio : Bool) :
    Agree M.Mergers (m.endAudio keepAudio) (m'.endAudio keepAudio) := by
  rw [Merger.endAudio, Merger.endAudio]
  split
  · exact .ok h
  · refine (h.sink h.audio.main).bind fun u u' hu => ?_
    rw [h.audio.main.isSome_eq]
    split
    · exact .ok (hu.setMain (.stream 0 .audio))
    · exact .ok hu

theorem spentOnly (h : M.Mergers m m') : Agree M.Mergers m.spentOnly m'.spentOnly := by
  have hspent (a b : String) (hab : M.label a b) :
      (!m.consumed.contains a && !m.finals.contains a) =
        (!m'.consumed.contains b && !m'.finals.contains b) := by
    rw [contains_eq h.consumed hab, contains_eq h.finals hab]
  have hfind := isSome_find?_eq h.produced hspent
  rw [Merger.spentOnly, Merger.spentOnly]
  cases hm : m.produced.find? fun name => !m.consumed.contains name && !m.finals.contains name with
  | none =>
    rw [hm, Option.isSome_none, eq_comm, Option.isSome_eq_false_iff, Option.isNone_iff_eq_none]
      at hfind
    rw [hfind]
    exact .ok h
  | some name =>
    rw [hm, Option.isSome_some, eq_comm, Option.isSome_iff_exists] at hfind
    obtain ⟨name', hm'⟩ := hfind
    rw [hm']
    exact .error

theorem finalizeGraph (h : M.Mergers m m') (keepAudio : Bool) :
    Agree M.Mergers (m.finalizeGraph keepAudio) (m'.finalizeGraph keepAudio) := by
  rw [finalizeGraph_eq, finalizeGraph_eq]
  refine (h.fold .video).bind fun u u' hu => ?_
  refine (hu.fold .audio).bind fun v v' hv => ?_
  exact (hv.endAudio keepAudio).bind fun w w' hw => hw.spentOnly

theorem muted (h : M.Mergers m m') (keepAudio : Bool) :
    M.Mergers (m.muted keepAudio) (m'.muted keepAudio) := by
  rw [Merger.muted, Merger.muted]
  split
  · exact h
  · exact { h with audio := { h.audio with pending := .nil } }

theorem finish (h : M.Mergers m m') (keepAudio : Bool) :
    Agree M.Mergers (m.finish keepAudio) (m'.finish keepAudio) := by
  rw [Merger.finish, Merger.finish, h.mode]
  split
  · exact (h.muted keepAudio).finalizeGraph keepAudio
  · exact .ok (h.muted keepAudio)

theorem chainClause (h : M.Mergers m m') : M.Clauses m.chainClause m'.chainClause := by
  have hwaiting {c c' : Channel} (hc : M.Channels c c') :
      Option.Rel (List.Forall₂ M.text) (if c.pending.isEmpty then none else some c.pending)
        (if c'.pending.isEmpty then none else some c'.pending) := by
    rw [isEmpty_eq_of_forall₂ hc.pending]
    split
    · exact .none
    · exact .some hc.pending
  have hvideo := hwaiting h.video
  have haudio := hwaiting h.audio
  rw [Merger.chainClause, Merger.chainClause]
  dsimp only
  generalize (if m.video.pending.isEmpty then none else some m.video.pending) = v at *
  generalize (if m'.video.pending.isEmpty then none else some m'.video.pending) = v' at *
  generalize (if m.audio.pending.isEmpty then none else some m.audio.pending) = a at *
  generalize (if m'.audio.pending.isEmpty then none else some m'.audio.pending) = a' at *
  cases hvideo with
  | none =>
    cases haudio with
    | none => exact .none
    | some ha => exact .chain .none (.some ha)
  | some hv => exact .chain (.some hv) haudio

theorem finalize (h : M.Mergers m m') (keepAudio : Bool) :
    Agree (fun p p' => M.Results p.2 p'.2) (m.finalize keepAudio) (m'.finalize keepAudio) := by
  rw [finalize_eq, finalize_eq]
  refine h.opened.bind fun u u' hu => ?_
  refine (hu.finish keepAudio).bind fun v v' hv => ?_
  refine .ok ⟨?_, ?_, hv.video.main, hv.audio.main⟩
  · dsimp only
    rw [hu.mode]
    split
    · exact .graph hv.nodes
    · exact hv.chainClause
  · dsimp only
    rw [hu.mode]

end Mergers

end Matching

end SkillPipeline
