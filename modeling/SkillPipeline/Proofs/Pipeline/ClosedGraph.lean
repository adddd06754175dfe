import SkillPipeline.Proofs.Pipeline.Plan
import SkillPipeline.Proofs.Pipeline.Mapping
import SkillPipeline.Proofs.Pipeline.Merging
import SkillPipeline.Proofs.Pipeline.Ownership
import SkillPipeline.Proofs.Pipeline.Rendering
import SkillPipeline.Proofs.Pipeline.Totality

namespace SkillPipeline

open Merger Outcome

/-- A finished graph, with the mappings beside it and the number of inputs on the command line. -/
structure ClosedGraph (nodes : List LinkedNode) (maps : List Mapping) (inputs : Nat) : Prop where
  produced_once : (nodes.flatMap (·.outputs)).Nodup
  used_once : ∀ name ∈ nodes.flatMap (·.outputs),
    (nodes.flatMap (·.reads) ++ maps.filterMap Mapping.label?).count name = 1
  used_produced : ∀ name ∈ nodes.flatMap (·.reads) ++ maps.filterMap Mapping.label?,
    name ∈ nodes.flatMap (·.outputs)
  produced_earlier : ∀ before node after, nodes = before ++ node :: after →
    ∀ name ∈ node.reads, name ∈ before.flatMap (·.outputs)
  within : ∀ node ∈ nodes, ∀ ref ∈ node.inputs, ref.Within inputs

theorem ClosedGraph.of_tally {nodes : List LinkedNode} {maps : List Mapping} {inputs : Nat}
    (hnodup : (nodes.flatMap (·.outputs)).Nodup)
    (htally : (nodes.flatMap (·.outputs)).Perm
      (nodes.flatMap (·.reads) ++ maps.filterMap Mapping.label?))
    (hsequenced : Sequenced [] nodes)
    (hwithin : ∀ node ∈ nodes, ∀ ref ∈ node.inputs, ref.Within inputs) :
    ClosedGraph nodes maps inputs where
  produced_once := hnodup
  used_once name hname := by
    rw [← htally.count_eq]
    exact List.count_eq_one_of_mem hnodup hname
  used_produced name hname := htally.mem_iff.mpr hname
  produced_earlier before node after heq := by
    rw [heq] at hsequenced
    exact hsequenced.earlier
  within := hwithin

namespace Assembly

variable {p : Progress} {ctx : Context} {a : Assembly} {nodes : List LinkedNode} {inputs : Nat}
  {ids : List String}

/-- The final streams of a finished merger. -/
def Progress.merged (p : Progress) (ctx : Context) : Merged := p.merger.result (p.keepsAudio ctx)

/-- The mappings that a command has in the end. -/
def Progress.maps (p : Progress) (ctx : Context) : List Mapping :=
  mappings p (p.merged ctx) (p.keepsAudio ctx)

/-- The end of an assembly whose mappings are in order. -/
def Progress.assembly (p : Progress) (ctx : Context) : Assembly :=
  ⟨FlagGroup.dedupe p.inputFlags, FlagGroup.dedupe p.outputFlags, p.merged ctx, p.maps ctx,
    p.keepsAudio ctx, p.allWarnings ctx⟩

/-- A sound merger can always be closed, so only the mappings matter in the end. -/
theorem Progress.Sound.conclude_eq (h : p.Sound inputs ids) :
    conclude p ctx =
      (checkMappings p (p.merged ctx) ((p.maps ctx).map (·.text))).map fun _ => p.assembly ctx := by
  have hlinear := (h.fit.ended (p.keepsAudio ctx)).linear
  have hfinal := (finalize_eq_ok h.fit.linear.single).mpr
    ⟨h.mode, fun _ => ⟨hlinear.single, hlinear.spent⟩, rfl, rfl⟩
  rw [conclude, hfinal]
  change (do
    checkMappings p (p.merged ctx) ((p.maps ctx).map (·.text))
    return p.assembly ctx : Except Fault Assembly) = _
  cases checkMappings p (p.merged ctx) ((p.maps ctx).map (·.text)) <;> rfl

/-- The labels of a graph that has come to its end are read, or are final streams. -/
theorem tally_ended {m : Merger} (hfit : m.Fit ids) (hclosed : m.Closed inputs)
    (hinputs : 0 < inputs) (keepAudio : Bool) :
    ((m.ended keepAudio).nodes.flatMap (·.outputs)).Perm
      ((m.ended keepAudio).nodes.flatMap (·.reads) ++ (m.result keepAudio).finals) := by
  have hend := hclosed.ended hinputs keepAudio
  have htally := (hfit.ended keepAudio).linear.tally
  rwa [hend.produced_eq, hend.consumed_eq] at htally

/-- The end of a merger that is in no graph leaves the main streams as they are. -/
theorem ended_main {m : Merger} (h : m.mode ≠ .graph) (keepAudio : Bool) (medium : Medium) :
    ((m.ended keepAudio).channel medium).main = (m.channel medium).main := by
  rw [ended, if_neg h, muted]
  split
  · rfl
  · cases medium <;> rfl

theorem silenced_audio (m : Merger) : (m.silenced false).audio.main.label? = none := by
  rw [silenced, if_neg (by decide)]
  split
  · rfl
  · next hnone => exact Option.not_isSome_iff_eq_none.mp hnone

theorem tidy_result {m : Merger} (hfit : m.Fit ids) (hclosed : m.Closed inputs)
    (hlabels : m.LabelsInGraph) (hinputs : 0 < inputs) (keepAudio : Bool) :
    (m.result keepAudio).Tidy inputs keepAudio where
  distinct := by
    have hnodup := (hfit.ended keepAudio).linear.nodup
    rw [(hclosed.ended hinputs keepAudio).produced_eq] at hnodup
    exact (List.nodup_append'.mp
      ((tally_ended hfit hclosed hinputs keepAudio).nodup_iff.mp hnodup)).2.1
  video := (hclosed.ended hinputs keepAudio).main_fits .video
  audio := (hclosed.ended hinputs keepAudio).main_fits .audio
  graph hgraph := by
    have hmode : m.mode ≠ .graph := by simpa [result] using hgraph
    -- Outside a graph no main stream is a label, and the end leaves it so.
    have hmain (medium : Medium) : ((m.ended keepAudio).channel medium).main.label? = none :=
      (congrArg StreamRef.label? (ended_main hmode keepAudio medium)).trans (hlabels hmode medium)
    have hfinals : (m.result keepAudio).finals =
        [((m.ended keepAudio).channel .video).main,
          ((m.ended keepAudio).channel .audio).main].filterMap StreamRef.label? := rfl
    rw [hfinals, List.filterMap_cons_none (hmain .video), List.filterMap_cons_none (hmain .audio),
      List.filterMap_nil]
  silent hsilent := by
    subst hsilent
    change (m.ended false).audio.main.label? = none
    by_cases hmode : m.mode = .graph
    · rw [ended, if_pos hmode]
      exact silenced_audio _
    · exact (congrArg StreamRef.label? (ended_main hmode false .audio)).trans (hlabels hmode .audio)

theorem nodes_of_result {m : Merger} {keepAudio : Bool}
    (h : (m.result keepAudio).clause = .graph nodes) : (m.ended keepAudio).nodes = nodes := by
  rw [result] at h
  dsimp only at h
  split at h
  · exact Clause.graph.inj h
  · rw [chainClause] at h
    split at h <;> cases h

theorem Progress.Sound.tidy (h : p.Sound inputs ids) (hinputs : 0 < inputs) (ctx : Context) :
    (p.merged ctx).Tidy inputs (p.keepsAudio ctx) :=
  tidy_result h.fit h.closed h.labels hinputs (p.keepsAudio ctx)

/-- The end of an assembly fails only where a step asks for a subtitle track alone, and the graph
has an output. -/
theorem Progress.Sound.conclude_error (h : p.Sound inputs ids) (hinputs : 0 < inputs) {f : Fault} :
    conclude p ctx = .error f ↔
      ∃ track skill label, p.maps? = some ([.subtitle 0 track], skill) ∧
        (p.merged ctx).finals.head? = some label ∧
          f = .invariant (.outputUnmapped label (some skill)) := by
  rw [h.conclude_eq, map_eq_error]
  exact checkMappings_error (h.tidy hinputs ctx) h.maps

theorem conclude_closed (h : p.Sound inputs ids) (hinputs : 0 < inputs)
    (hconclude : conclude p ctx = .ok a) (hnodes : a.merged.clause = .graph nodes) :
    ClosedGraph nodes a.maps inputs := by
  rw [h.conclude_eq] at hconclude
  obtain ⟨⟨⟩, hcheck, rfl⟩ := map_eq_ok.mp hconclude
  obtain ⟨hdistinct, hmapped⟩ := checkMappings_eq_ok.mp hcheck
  obtain rfl : (p.merger.ended (p.keepsAudio ctx)).nodes = nodes := by
    exact nodes_of_result hnodes
  have hend := h.closed.ended hinputs (p.keepsAudio ctx)
  have hnodup := (h.fit.ended (p.keepsAudio ctx)).linear.nodup
  rw [hend.produced_eq] at hnodup
  have htally := tally_ended h.fit h.closed hinputs (p.keepsAudio ctx)
  have hfinals := (h.tidy hinputs ctx).distinct
  have hlabels : ((p.maps ctx).filterMap Mapping.label?).Perm (p.merged ctx).finals := by
    refine (List.perm_ext_iff_of_nodup (Mapping.nodup_labels hdistinct) hfinals).mpr fun name => ?_
    exact ⟨mem_finals_of_mappings, fun hname => Mapping.mem_labels.mpr (hmapped name hname)⟩
  exact .of_tally hnodup (htally.trans (hlabels.symm.append_left _)) hend.sequenced hend.within

/-- Whatever a stage contributes fits the merger and reads no extra inputs but its own. -/
theorem contribution_sound {table : HandlerTable} (htable : ∀ entry ∈ table, ∃ needs,
      entry.2.Keeps needs) {view : HandlerContext} {s : Stage} {c : Contribution}
    (hc : (contribution table view s).2 = .ok c) : c.Sound view.ownInputs := by
  rw [contribution] at hc
  split at hc
  · next text target _ =>
    have hplain : c.Plain :=
      (Params.meets_renderTemplate (r := ⟨[], s.params, view⟩) text target).of_eq_ok hc
    exact hplain.sound
  · cases hc
  · split at hc
    · cases hc
    · cases hc
    · next h hhandler =>
      obtain ⟨name, hentry⟩ := s.exists_entry hhandler
      obtain ⟨needs, hkeeps⟩ := htable (name, h) hentry
      exact (hkeeps.compiles s.params view).of_eq_ok (guarded_eq_ok.mp hc)

end Assembly

namespace Compiler

open Assembly

variable {c : Compiler} {request : Request} {session : Session} {ctx : Context}
  {stages : List Stage} {r : Reservations}

theorem owned_within (hhandlers : c.handlers = .builtin)
    (hr : c.reservations ctx stages = .ok r) (s : Stage) :
    ∀ index ∈ (c.view ctx r s).ownInputs, ∃ e ∈ ctx.extras, e.index = index := by
  intro index hindex
  obtain ⟨entry, hentry, -, hclaimed⟩ := Reservations.exists_of_mem_ownedBy hindex
  obtain ⟨owner, -, -, claim, ⟨h, hhandler, hreserve⟩, taken, hclaim⟩ :=
    (reserve_eq_ok hr).1 entry hentry
  rw [hhandlers] at hhandler
  obtain ⟨name, hmem⟩ := owner.exists_entry hhandler
  exact HandlerTable.builtin_claims hmem hreserve hclaim index hclaimed

/-- What stages contribute fits the merger, and what they read is on the command line. -/
theorem fits (hhandlers : c.handlers = .builtin)
    (hctx : request.context.resolve c.files c.defaults = .ok ctx)
    (hr : c.reservations ctx stages = .ok r) {s : Stage} {answer : Contribution}
    (h : (contribution c.handlers (c.view ctx r s) s).2 = .ok answer) :
    Fits (ctx.extras.length + 1) answer := by
  rw [hhandlers] at h
  refine ⟨_, contribution_sound HandlerTable.builtin_keeps h, fun index hindex => ?_⟩
  obtain ⟨e, he, rfl⟩ := owned_within hhandlers hr s index hindex
  exact Nat.lt_succ_of_le (RequestContext.index_le hctx e he)

theorem sound_of_foldlM (hhandlers : c.handlers = .builtin)
    (hctx : request.context.resolve c.files c.defaults = .ok ctx)
    (hstages : Compiler.stages request session = .ok stages)
    (hr : c.reservations ctx stages = .ok r) {p : Progress}
    (hp : stages.foldlM (advance c.handlers (c.view ctx r)) {} = .ok p) :
    p.Sound (ctx.extras.length + 1) (stages.map (·.id)) := by
  have hapart : (stages.map (·.id)).Pairwise Apart :=
    List.pairwise_map.mpr (Expansion.steps_apart hstages)
  obtain ⟨-, p', -, hp', hsound⟩ | ⟨f, -, hf⟩ := advance_cases
    (fun s _ answer hanswer => fits hhandlers hctx hr hanswer) (sound_start (Nat.succ_pos _)) hapart
  · exact Except.ok.inj (hp'.symm.trans hp) ▸ hsound
  · cases hf.symm.trans hp

/-- The graph of a compiled request is closed, whatever the skills of the session. -/
theorem compiled_graph_closed (hhandlers : c.handlers = .builtin) {d : Descriptor} {text : String}
    (h : ((c.compile request).run session).1.result = .ok d) (hgraph : d.filter = .graph text) :
    ∃ ctx a nodes, c.plan request session = .ok (ctx, a) ∧ d = a.descriptor c.binary ctx ∧
      a.merged.clause = .graph nodes ∧ ClosedGraph nodes a.maps d.inputs.length := by
  rw [compile_result] at h
  obtain ⟨⟨ctx, a⟩, hplan, rfl⟩ := map_eq_ok.mp h
  obtain ⟨nodes, hnodes⟩ : ∃ nodes, a.merged.clause = .graph nodes := by
    have hwritten : a.merged.clause.written = .graph text := hgraph
    cases hclause : a.merged.clause with
    | none => rw [hclause] at hwritten; cases hwritten
    | chain video? audio? => rw [hclause] at hwritten; cases hwritten
    | graph nodes => exact ⟨nodes, rfl⟩
  refine ⟨ctx, a, nodes, hplan, rfl, hnodes, ?_⟩
  simp only [plan, assembly, bind_eq_ok, pure_eq_ok, Prod.mk.injEq] at hplan
  obtain ⟨ctx', hctx, a', ⟨stages, hstages, r, hr, p, hp, hconclude⟩, rfl, rfl⟩ := hplan
  have hinputs : (a'.descriptor c.binary ctx').inputs.length = ctx'.extras.length + 1 := by
    simp [descriptor]
  rw [hinputs]
  exact conclude_closed (sound_of_foldlM hhandlers hctx hstages hr hp) (Nat.succ_pos _) hconclude
    hnodes

def mirrorRequest : Request where
  steps := [⟨"mirror", [("mode", .string "quad")]⟩, ⟨"mirror", []⟩]
  context := ⟨"/in.mp4", "/out.mp4", [], none, none, none, none, none, none, none, [], none⟩

def mirrorCompiler : Compiler where
  files := { workingDir := "/", home := "/", nodes := [("/in.mp4", .file "")] }

theorem compiled_graph_closed_mirrors :
    ∃ d text, ((mirrorCompiler.compile mirrorRequest).run
        { registry := .ofSkills [mirrorSkill] }).1.result = .ok d ∧ d.filter = .graph text ∧
      ∃ ctx a nodes,
        mirrorCompiler.plan mirrorRequest { registry := .ofSkills [mirrorSkill] } = .ok (ctx, a) ∧
          d = a.descriptor "ffmpeg" ctx ∧ a.merged.clause = .graph nodes ∧
            ClosedGraph nodes a.maps d.inputs.length :=
  ⟨_, _, rfl, rfl, compiled_graph_closed (c := mirrorCompiler) rfl rfl rfl⟩

end Compiler

end SkillPipeline
