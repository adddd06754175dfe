import SkillPipeline.Proofs.Graph.Operations

namespace SkillPipeline.Merger

open Outcome

variable {m m' : Merger} {given : List FilterText}

/-- The filters that an operation brings; empty ones do not count. -/
def Op.filters : Op → List FilterText
  | .chains video audio => (video ++ audio).filter fun f => !f.isEmpty
  | .fragment _ f => f.nodes.map (·.filter)
  | .replaceAudio _ | .finalize _ => []

/-- The filters of the nodes and those that wait. -/
def filters (m : Merger) : List FilterText :=
  m.nodes.flatMap (·.filters) ++ (m.video.pending ++ m.audio.pending)

theorem filters_link (nodes : List LinkedNode) :
    (m.link nodes).filters.Perm (m.filters ++ nodes.flatMap (·.filters)) := by
  rw [filters, filters, link_nodes, List.flatMap_append, List.append_assoc, List.append_assoc]
  exact List.perm_append_comm.append_left _

theorem filters_setMain (medium : Medium) (ref : StreamRef) :
    (m.setMain medium ref).filters = m.filters := by
  cases medium <;> rfl

theorem filters_folded (medium : Medium) : (m.folded medium).filters.Perm m.filters := by
  rw [folded]
  split
  · exact .refl _
  · have hnodes : (m.foldedOnto medium).filters =
        m.nodes.flatMap (·.filters) ++ (m.channel medium).pending ++
          (((m.foldedOnto medium).channel .video).pending ++
            ((m.foldedOnto medium).channel .audio).pending) := by
      simp [filters, foldedOnto, foldNode, channel]
    rw [hnodes, List.append_assoc, filters]
    refine List.Perm.append_left _ ?_
    cases medium with
    | video => exact .refl _
    | audio => exact (List.append_nil m.video.pending).symm ▸ List.perm_append_comm

/-- A merger has the given filters, each as often as it was given, and sinks. -/
def Holds (m : Merger) (given : List FilterText) : Prop :=
  ∃ ends, (∀ filter ∈ ends, ∃ medium : Medium, filter = medium.sink) ∧
    m.filters.Perm (given ++ ends)

namespace Holds

theorem of_perm (h : m.Holds given) (hp : m'.filters.Perm m.filters) : m'.Holds given := by
  obtain ⟨ends, hends, hfilters⟩ := h
  exact ⟨ends, hends, hp.trans hfilters⟩

theorem link {nodes : List LinkedNode} (h : m.Holds given) :
    (m.link nodes).Holds (given ++ nodes.flatMap (·.filters)) := by
  obtain ⟨ends, hends, hfilters⟩ := h
  refine ⟨ends, hends, (filters_link nodes).trans ((hfilters.append_right _).trans ?_)⟩
  rw [List.append_assoc, List.append_assoc]
  exact List.perm_append_comm.append_left _

theorem sunk {medium : Medium} {ref : StreamRef} (h : m.Holds given) :
    (m.sunk medium ref).Holds given := by
  obtain ⟨ends, hends, hfilters⟩ := h
  refine ⟨ends ++ (sinks medium ref).flatMap (·.filters), fun filter hfilter => ?_, ?_⟩
  · obtain hold | hnew := List.mem_append.mp hfilter
    · exact hends filter hold
    · cases ref with
      | stream index other => simp [sinks] at hnew
      | label name => exact ⟨medium, by simpa [sinks] using hnew⟩
  · rw [← List.append_assoc]
    exact (filters_link _).trans (hfilters.append_right _)

theorem foldedFor {f : Fragment} {medium : Medium} (h : m.Holds given) :
    (m.foldedFor f medium).Holds given := by
  rw [Merger.foldedFor]
  split
  · exact h.of_perm (filters_folded medium)
  · exact h

theorem rerouted {step : String} {f : Fragment} {medium : Medium} (h : m.Holds given) :
    (m.rerouted step f medium).Holds given := by
  rw [Merger.rerouted]
  split
  · refine Holds.of_perm ?_ (.of_eq (filters_setMain ..))
    split
    · exact h
    · exact h.sunk
  · exact h

theorem chained (h : m.Holds given) (video audio : List FilterText) :
    (m.chained video audio).Holds (given ++ Op.filters (.chains video audio)) := by
  obtain ⟨ends, hends, hfilters⟩ := h
  refine ⟨ends, hends, ?_⟩
  have hnew : (m.chained video audio).filters.Perm
      (m.filters ++ Op.filters (.chains video audio)) := by
    have hmiddle : (kept video ++ (m.audio.pending ++ kept audio)).Perm
        (m.audio.pending ++ (kept video ++ kept audio)) := by
      rw [← List.append_assoc, ← List.append_assoc]
      exact List.perm_append_comm.append_right _
    simpa [filters, Merger.chained, Op.filters, List.append_assoc, kept] using
      (hmiddle.append_left m.video.pending).append_left (m.nodes.flatMap (·.filters))
  refine hnew.trans ((hfilters.append_right _).trans ?_)
  rw [List.append_assoc, List.append_assoc]
  exact List.perm_append_comm.append_left _

theorem extended {step : String} {f : Fragment} (h : m.Holds given) :
    (m.extended step f).Holds (given ++ Op.filters (.fragment step f)) := by
  have hentered : (m.entered f).Holds given :=
    Holds.foldedFor (Holds.foldedFor (m := { m with mode := .graph }) h)
  have hjoined : (m.joined step f).Holds (given ++ Op.filters (.fragment step f)) := by
    have hlinked : (f.nodes.map ((m.entered f).linkedNode step)).flatMap (·.filters) =
        f.nodes.map (·.filter) := by
      rw [List.flatMap_map]
      exact List.map_eq_flatMap.symm
    rw [Op.filters, ← hlinked]
    exact hentered.link
  exact hjoined.rerouted.rerouted

theorem restarted {index : Nat} (h : m.Holds given) : (m.restarted index).Holds given :=
  Holds.sunk (h.of_perm (.of_eq (filters_setMain ..)))

theorem of_step {op : Op} (h : m.Holds given) (hstep : m.Step op m') :
    m'.Holds (given ++ op.filters) := by
  cases hstep with
  | chains video audio => exact h.chained video audio
  | nothing empty => simpa [Op.filters, empty] using h
  | fragment nonempty admits single => exact h.extended
  | replaceAudio single => simpa [Op.filters] using h.restarted

theorem drained (h : m.Holds given) :
    ∃ ends, (∀ filter ∈ ends, ∃ medium : Medium, filter = medium.sink) ∧
      (m.drained.nodes.flatMap (·.filters)).Perm (given ++ ends) := by
  have hdrained : m.drained.Holds given :=
    (h.of_perm (filters_folded .video)).of_perm (filters_folded .audio)
  obtain ⟨ends, hends, hfilters⟩ := hdrained
  refine ⟨ends, hends, ?_⟩
  have hvideo : m.drained.video.pending = [] := drained_pending .video
  have haudio : m.drained.audio.pending = [] := drained_pending .audio
  rwa [filters, hvideo, haudio, List.append_nil, List.append_nil] at hfilters

end Holds

end SkillPipeline.Merger
