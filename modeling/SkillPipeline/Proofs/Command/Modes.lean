import SkillPipeline.Proofs.Command.Reading
import SkillPipeline.Proofs.Filter.Likeness
import SkillPipeline.Proofs.Graph.Abandonment
import SkillPipeline.Proofs.Graph.Closure

namespace SkillPipeline

theorem FilterText.text_eq_empty {t : FilterText} : t.text = "" ↔ t.isEmpty = true := by
  rw [text, isEmpty, List.isEmpty_iff, String.ofList_eq_empty_iff]

/-- Texts with a separator between neighbours are empty together only if there is at most one, and
that is empty. -/
theorem Text.join_eq_empty {separator : String} (h : separator ≠ "") {parts : List String} :
    join separator parts = "" ↔ parts = [] ∨ parts = [""] := by
  match parts with
  | [] => simp [join]
  | [part] => simp [join]
  | first :: second :: rest => simp [join, h]

theorem LinkedNode.text_eq_empty {node : LinkedNode} : node.text = "" ↔
    node.inputs = [] ∧ (FilterText.join "," node.filters).isEmpty = true ∧ node.outputs = [] := by
  have hpads {α : Type} {f : α → String} (hf : ∀ a, f a ≠ "") (l : List α) :
      String.join (l.map f) = "" ↔ l = [] := by
    rw [← String.toList_eq_nil_iff, String.toList_join, List.flatMap_map]
    cases l <;> simp [hf]
  have hpad (ref : StreamRef) : ref.padText ≠ "" := by cases ref <;> simp [StreamRef.padText]
  have hlabel (name : String) : "[" ++ name ++ "]" ≠ "" := by simp
  rw [text, String.append_eq_empty_iff, String.append_eq_empty_iff, hpads hpad, hpads hlabel,
    FilterText.text_eq_empty, and_assoc]

namespace Merger

open Outcome

variable {m m' : Merger} {ops : List Op}

def Op.addsNodes : Op → Bool
  | .fragment _ f => !f.nodes.isEmpty
  | _ => false

/-- The simple filters that an operation adds for a medium; empty ones do not count. -/
def Op.chain (medium : Medium) : Op → List FilterText
  | .chains video audio =>
    kept (match medium with
      | .video => video
      | .audio => audio)
  | _ => []

/-- The simple filters of a medium, in the order in which operations add them. -/
def chainOf (medium : Medium) (ops : List Op) : List FilterText := ops.flatMap (·.chain medium)

/-- What an open merger has of the operations so far: a graph, if one of them brought nodes, and
until then the chain of each medium. -/
structure Records (ops : List Op) (m : Merger) : Prop where
  graph : (∃ op ∈ ops, op.addsNodes = true) → m.mode = .graph ∧ m.nodes ≠ []
  chains : (∀ op ∈ ops, op.addsNodes = false) →
    m.mode ≠ .graph ∧ ∀ medium, (m.channel medium).pending = chainOf medium ops

theorem records_start : ({} : Merger).Records [] where
  graph := by
    rintro ⟨op, hop, -⟩
    exact absurd hop List.not_mem_nil
  chains _ := ⟨by decide, fun medium => by cases medium <;> rfl⟩

theorem Grows.nodes_ne_nil (h : m.Grows m') (hnodes : m.nodes ≠ []) : m'.nodes ≠ [] := by
  obtain ⟨added, hadded, -⟩ := h.nodes
  rw [hadded]
  exact List.append_ne_nil_of_left_ne_nil hnodes added

theorem extended_nodes_ne_nil {step : String} {f : Fragment} (hnodes : f.nodes ≠ []) :
    (m.extended step f).nodes ≠ [] := by
  have hjoined : (m.joined step f).nodes ≠ [] := by simp [joined, hnodes]
  have hrerouted : ((m.joined step f).rerouted step f .video).nodes ≠ [] :=
    (Grows.rerouted .video).nodes_ne_nil hjoined
  exact (Grows.rerouted .audio).nodes_ne_nil hrerouted

theorem chained_pending (video audio : List FilterText) (medium : Medium) :
    ((m.chained video audio).channel medium).pending =
      (m.channel medium).pending ++ Op.chain medium (.chains video audio) := by
  cases medium <;> rfl

theorem restarted_pending (index : Nat) (medium : Medium) :
    ((m.restarted index).channel medium).pending = (m.channel medium).pending := by
  rw [restarted, sunk, link_channel, setMain_channel]
  split
  · next h => rw [h]
  · rfl

theorem Step.records {op : Op} (hstep : m.Step op m') (h : m.Records ops) :
    m'.Records (ops ++ [op]) where
  graph := by
    rintro ⟨other, hother, hadds⟩
    obtain hold | hnew := List.mem_append.mp hother
    · obtain ⟨hmode, hnodes⟩ := h.graph ⟨other, hold, hadds⟩
      exact ⟨hstep.graph hmode, (Grows.of_step hstep).nodes_ne_nil hnodes⟩
    · obtain rfl := List.mem_singleton.mp hnew
      cases hstep with
      | chains video audio => cases hadds
      | nothing empty => simp [Op.addsNodes, empty] at hadds
      | fragment nonempty admits single => exact ⟨extended_mode .., extended_nodes_ne_nil nonempty⟩
      | replaceAudio single => cases hadds
  chains := by
    intro hnone
    obtain ⟨hops, hop⟩ := List.forall_mem_append.mp hnone
    obtain ⟨hmode, hpending⟩ := h.chains hops
    -- What brings no node only adds its own filters to those that wait.
    have hchain (medium : Medium) : chainOf medium (ops ++ [op]) =
        (m.channel medium).pending ++ op.chain medium := by
      rw [chainOf, List.flatMap_append, List.flatMap_singleton, ← chainOf, hpending]
    cases hstep with
    | chains video audio =>
      refine ⟨?_, fun medium => (chained_pending ..).trans (hchain medium).symm⟩
      rw [chained]
      split
      · simp
      · exact hmode
    | nothing empty => exact ⟨hmode, fun medium => by rw [hchain]; exact (List.append_nil _).symm⟩
    | fragment nonempty admits single =>
      simp [Op.addsNodes, nonempty] at hop
    | replaceAudio single =>
      refine ⟨by rwa [restarted_mode], fun medium => ?_⟩
      rw [restarted_pending, hchain]
      exact (List.append_nil _).symm

theorem records_of_run (hrun : ({} : Merger).run ops = .ok m) (hmode : m.mode ≠ .finalized) :
    m.Records ops ∧ m.Single := by
  have hopen := open_of_run hrun hmode
  exact follows_of_run (P := fun done u => u.Records done) (Q := fun _ => True) []
    (fun hstep _ hu => hstep.records hu) records_start ⟨List.nodup_nil, List.nodup_nil⟩ hopen
    (fun _ _ => trivial) hrun

def chainText? (filters : List FilterText) : Option String :=
  if filters.isEmpty then none else some (Text.join "," (filters.map (·.text)))

theorem chainText?_ne_empty {filters : List FilterText} (h : ∀ t ∈ filters, t.isEmpty = false) :
    chainText? filters ≠ some "" := by
  intro hempty
  rw [chainText?] at hempty
  split at hempty
  · cases hempty
  · next hsome =>
    obtain hnil | hone := (Text.join_eq_empty (by decide)).mp (Option.some.inj hempty)
    · exact hsome (List.isEmpty_iff.mpr (List.map_eq_nil_iff.mp hnil))
    · obtain ⟨t, rfl, ht⟩ := List.map_eq_singleton_iff.mp hone
      exact absurd (FilterText.text_eq_empty.mp ht) (by simp [h])

theorem isEmpty_of_mem_chainOf {medium : Medium} {t : FilterText} (h : t ∈ chainOf medium ops) :
    t.isEmpty = false := by
  obtain ⟨op, -, ht⟩ := List.mem_flatMap.mp h
  cases op with
  | chains video audio => simpa using (List.mem_filter.mp ht).2
  | _ => cases ht

def chainsClause (video? audio? : Option String) : FilterClause :=
  match video?, audio? with
  | none, none => .none
  | video?, audio? => .chain video? audio?

theorem chainClause_written (m : Merger) : m.chainClause.written =
    chainsClause (chainText? m.video.pending) (chainText? m.audio.pending) := by
  rw [chainClause]
  cases hvideo : m.video.pending <;> cases haudio : m.audio.pending <;>
    simp [hvideo, haudio, Clause.written, chainsClause, chainText?, FilterText.text_join]

theorem result_chains (h : m.mode ≠ .graph) (keepAudio : Bool) :
    (m.result keepAudio).clause.written =
      chainsClause (chainText? (m.channel .video).pending)
        (if keepAudio then chainText? (m.channel .audio).pending else none) := by
  rw [result, if_neg h, ended, if_neg h, chainClause_written]
  cases keepAudio <;> rfl

theorem chainsClause_ne_graph {video? audio? : Option String} {text : String} :
    chainsClause video? audio? ≠ .graph text := by
  cases video? <;> cases audio? <;> simp [chainsClause]

end Merger

namespace Descriptor

open Merger FlagGroup

variable {video? audio? : Option String}

theorem argv_filterGroups {d : Descriptor} {argv : List String} (h : d.argv = .ok argv) :
    argv = d.binary :: d.globalFlags ++ d.inputs.flatMap inputTokens ++
      (filterGroups d.filter).flatMap tokens ++ d.outputFlags ++ mapTokens d.maps ++
        [d.output] := by
  rw [Descriptor.argv] at h
  split at h
  · cases h
  · rw [← Except.ok.inj h, flatMap_filterGroups]

theorem filterGroups_chains (video? audio? : Option String) :
    filterGroups (chainsClause video? audio?) =
      (video?.map fun text => ⟨"-vf", some text⟩).toList ++
        (audio?.map fun text => ⟨"-af", some text⟩).toList := by
  cases video? <;> cases audio? <;> rfl

theorem flags_chains (video? audio? : Option String) :
    ((filterGroups (chainsClause video? audio?)).map (·.flag)).Sublist ["-vf", "-af"] := by
  rw [filterGroups_chains]
  cases video? <;> cases audio? <;> simp

theorem value_chains_ne_empty (hvideo : video? ≠ some "") (haudio : audio? ≠ some "") :
    ∀ g ∈ filterGroups (chainsClause video? audio?), g.value? ≠ some "" := by
  rw [filterGroups_chains]
  intro g hg
  obtain hg | hg := List.mem_append.mp hg
  · obtain ⟨text, rfl, rfl⟩ := Option.map_eq_some_iff.mp (Option.mem_toList.mp hg)
    exact hvideo
  · obtain ⟨text, rfl, rfl⟩ := Option.map_eq_some_iff.mp (Option.mem_toList.mp hg)
    exact haudio

theorem written_graph_eq_empty {nodes : List LinkedNode} (h : nodes ≠ []) :
    (Clause.graph nodes).written = .graph "" ↔ ∃ node, nodes = [node] ∧
      node.inputs = [] ∧ (FilterText.join "," node.filters).isEmpty = true ∧ node.outputs = [] := by
  rw [Clause.written, FilterClause.graph.injEq, Text.join_eq_empty (by decide), List.map_eq_nil_iff,
    or_iff_right h, List.map_eq_singleton_iff]
  exact exists_congr fun node => and_congr_right fun _ => LinkedNode.text_eq_empty

end Descriptor

namespace Merger

open Outcome FlagGroup Descriptor

variable {m closed : Merger} {merged : Merged} {ops : List Op} {keepAudio : Bool}

/-- What becomes of operations and an end in a command. -/
structure Modes (ops : List Op) (keepAudio : Bool) (closed : Merger) (merged : Merged) : Prop where
  /-- There is a graph exactly if an operation brought nodes, whatever came after it. -/
  graph : (∃ nodes, merged.clause = .graph nodes) ↔ ∃ op ∈ ops, op.addsNodes = true
  /-- Otherwise the filters of each medium are joined in order, and there are none of audio that is
  not kept. -/
  chains : (∀ op ∈ ops, op.addsNodes = false) → merged.clause.written =
    chainsClause (chainText? (chainOf .video ops))
      (if keepAudio then chainText? (chainOf .audio ops) else none)
  closed : ∀ op, closed.apply op = .error (.invariant .closed)
  /-- An argument list has the filters in one place, as a graph or as chains. -/
  command : ∀ (d : Descriptor) (argv : List String), d.filter = merged.clause.written →
    d.argv = .ok argv →
      argv = d.binary :: d.globalFlags ++ d.inputs.flatMap inputTokens ++
        (filterGroups d.filter).flatMap tokens ++ d.outputFlags ++ mapTokens d.maps ++
          [d.output] ∧
      ((∃ op ∈ ops, op.addsNodes = true) →
        (filterGroups d.filter).map (·.flag) = ["-filter_complex"]) ∧
      ((∀ op ∈ ops, op.addsNodes = false) →
        ((filterGroups d.filter).map (·.flag)).Sublist ["-vf", "-af"])
  /-- A filter flag has the empty value only for a single node without pads and filter. -/
  empty : (∃ g ∈ filterGroups merged.clause.written, g.value? = some "") ↔
    ∃ node, merged.clause = .graph [node] ∧ node.inputs = [] ∧
      (FilterText.join "," node.filters).isEmpty = true ∧ node.outputs = []

namespace Records

theorem written_chains (h : m.Records ops) (hops : ∀ op ∈ ops, op.addsNodes = false)
    (keepAudio : Bool) : (m.result keepAudio).clause.written =
      chainsClause (chainText? (chainOf .video ops))
        (if keepAudio then chainText? (chainOf .audio ops) else none) := by
  obtain ⟨hopen, hpending⟩ := h.chains hops
  rw [result_chains hopen, hpending, hpending]

theorem clause_ne_graph (h : m.Records ops) (hops : ∀ op ∈ ops, op.addsNodes = false)
    (keepAudio : Bool) (nodes : List LinkedNode) : (m.result keepAudio).clause ≠ .graph nodes := by
  intro hclause
  have hwritten := (h.written_chains hops keepAudio).symm
  exact chainsClause_ne_graph (hwritten.trans (congrArg Clause.written hclause))

theorem exists_graph (h : m.Records ops) (hops : ∃ op ∈ ops, op.addsNodes = true)
    (keepAudio : Bool) : ∃ nodes, nodes ≠ [] ∧ (m.result keepAudio).clause = .graph nodes := by
  obtain ⟨hturned, hnodes⟩ := h.graph hops
  exact ⟨_, (Grows.ended keepAudio).nodes_ne_nil hnodes, by rw [result, if_pos hturned]⟩

/-- Chains leave out what is empty, so an empty value can only be that of a graph. -/
theorem value_eq_empty (h : m.Records ops) (keepAudio : Bool) :
    (∃ g ∈ filterGroups (m.result keepAudio).clause.written, g.value? = some "") ↔
      ∃ node, (m.result keepAudio).clause = .graph [node] ∧ node.inputs = [] ∧
        (FilterText.join "," node.filters).isEmpty = true ∧ node.outputs = [] := by
  by_cases hops : ∃ op ∈ ops, op.addsNodes = true
  · obtain ⟨nodes, hnodes, hclause⟩ := h.exists_graph hops keepAudio
    simp only [hclause, Clause.graph.injEq]
    rw [← written_graph_eq_empty hnodes]
    simp [filterGroups, Clause.written]
  · have hnone : ∀ op ∈ ops, op.addsNodes = false := by simpa using hops
    have hkept (medium : Medium) : chainText? (chainOf medium ops) ≠ some "" :=
      chainText?_ne_empty fun t ht => isEmpty_of_mem_chainOf ht
    refine iff_of_false ?_ ?_
    · rw [h.written_chains hnone]
      rintro ⟨g, hg, hempty⟩
      refine value_chains_ne_empty (hkept .video) ?_ g hg hempty
      split
      · exact hkept .audio
      · simp
    · rintro ⟨node, hclause, -⟩
      exact h.clause_ne_graph hnone keepAudio _ hclause

end Records

/-- Every run that ends has its filters either as one graph or as chains. -/
theorem modes_of_run (hrun : ({} : Merger).run ops = .ok m)
    (hend : m.finalize keepAudio = .ok (closed, merged)) : Modes ops keepAudio closed merged := by
  have hmode : m.mode ≠ .finalized := by
    intro hfinalized
    apply apply_finalized hfinalized (.finalize keepAudio) closed
    rw [apply, hend]
    rfl
  obtain ⟨hrecords, hsingle⟩ := records_of_run hrun hmode
  obtain ⟨-, -, rfl, rfl⟩ := (finalize_eq_ok hsingle).mp hend
  -- The records of the run tell whether there is a graph, and what an argument list shows of it.
  refine ⟨⟨?_, ?_⟩, fun h => hrecords.written_chains h keepAudio, apply_closed rfl, ?_,
    hrecords.value_eq_empty keepAudio⟩
  · rintro ⟨nodes, hclause⟩
    by_contra h
    exact hrecords.clause_ne_graph (by simpa using h) keepAudio nodes hclause
  · intro h
    obtain ⟨nodes, -, hclause⟩ := hrecords.exists_graph h keepAudio
    exact ⟨nodes, hclause⟩
  · intro d argv hfilter hargv
    refine ⟨argv_filterGroups hargv, fun h => ?_, fun h => ?_⟩
    · obtain ⟨nodes, -, hclause⟩ := hrecords.exists_graph h keepAudio
      rw [hfilter, hclause]
      rfl
    · rw [hfilter, hrecords.written_chains h]
      exact flags_chains _ _

/-- Filters of both media, some of them empty, and a fragment without nodes. -/
def flips : List Op :=
  [.chains [.wording "hflip"] [.empty], .fragment "s2" { nodes := [] },
    .chains [.empty] [.wording "volume=2"], .chains [.wording "vflip"] []]

theorem modes_of_run_flips : ∃ m closed merged, ({} : Merger).run flips = .ok m ∧
    m.finalize true = .ok (closed, merged) ∧ Modes flips true closed merged ∧
      merged.clause.written = .chain (some "hflip,vflip") (some "volume=2") := by
  obtain ⟨m, closed, merged, hrun, hend⟩ : ∃ m closed merged,
      ({} : Merger).run flips = .ok m ∧ m.finalize true = .ok (closed, merged) :=
    ⟨_, _, _, rfl, rfl⟩
  have hmodes := modes_of_run hrun hend
  exact ⟨m, closed, merged, hrun, hend, hmodes, (hmodes.chains (by decide)).trans (by decide)⟩

/-- A fragment with a node to which there is nothing. -/
def blank : Fragment := { nodes := [⟨[], .empty, []⟩] }

theorem exists_empty_filter :
    ∃ m closed merged, ({} : Merger).run [.fragment "s1" blank] = .ok m ∧
      m.finalize true = .ok (closed, merged) ∧
        Descriptor.argv ⟨"ffmpeg", ["-y"], [⟨"in.mp4", []⟩], merged.clause.written, [], [],
          "out.mp4", []⟩ =
            .ok ["ffmpeg", "-y", "-i", "in.mp4", "-filter_complex", "", "out.mp4"] :=
  ⟨_, _, _, rfl, rfl, rfl⟩

end Merger

end SkillPipeline
