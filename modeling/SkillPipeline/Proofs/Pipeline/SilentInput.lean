import SkillPipeline.Proofs.Command.Modes
import SkillPipeline.Proofs.Effect.Voices
import SkillPipeline.Proofs.Pipeline.Breakdown

namespace SkillPipeline

open Merger Outcome

theorem Fragment.Sound.input_not_mem {f : Fragment} {own : List Nat} (h : f.Sound own)
    (hown : 0 ∉ own) (medium : Medium) : .input 0 medium ∉ f.pads :=
  fun hmem => hown (h.owned 0 (List.mem_filterMap.mpr ⟨_, hmem, rfl⟩))

namespace Contribution

variable {c : Contribution} {own : List Nat} {turn? : Option AudioTurn}

/-- A fragment that a contribution adds replaces the main audio if it reads it, and only then. -/
theorem Turns.replaces_eq_reads (h : c.Turns turn?) {f : Fragment} (hf : c.graph? = some f)
    (hwell : f.WellFormed) :
    f.replaces .audio = f.reads .audio ∧ (f.reads .audio = true ↔ turn? = some .joined) := by
  have hreplaced := hwell.main_replaced .audio
  match turn?, h with
  | none, hmute =>
    have hnone : f.replaces .audio = false := by
      rw [Fragment.replaces, Fragment.output?, hmute.fragment f hf]
      rfl
    have hunread : f.reads .audio = false := by
      rw [hnone] at hreplaced
      simpa using hreplaced
    simp [hnone, hunread]
  | some .joined, ⟨_, g, hg, _, hreads⟩ =>
    obtain rfl := Option.some.inj (hf.symm.trans hg)
    simp [hreads, hreplaced hreads]
  | some .replaced, ⟨hnone, _⟩ => cases hnone.symm.trans hf

theorem Turns.audioSource? (h : c.Turns turn?) :
    c.audioSource?.isSome = true ↔ turn? = some .replaced := by
  match turn?, h with
  | none, hmute => simp [hmute.audioSource]
  | some .joined, ⟨hnone, _⟩ => simp [hnone]
  | some .replaced, ⟨_, hsome⟩ => simp [hsome]

theorem Turns.filtersOp (h : c.Turns turn?) (hsound : c.Sound own) (hown : 0 ∉ own)
    (id : String) : (c.filtersOp id).Indirect ∧
      (c.filtersOp id).audioTurn? = if turn? = some .joined then some .joined else none := by
  rw [Contribution.filtersOp]
  cases hf : c.fragment? with
  | none =>
    refine ⟨trivial, (if_neg ?_).symm⟩
    rintro rfl
    obtain ⟨-, f, hgraph, hnodes, -⟩ := h
    have hsome : c.fragment? = some f :=
      Option.filter_eq_some_iff.mpr ⟨hgraph, by simpa using hnodes⟩
    cases hf.symm.trans hsome
  | some f =>
    obtain ⟨hgraph, hnodes⟩ := Option.filter_eq_some_iff.mp hf
    have hfragment := hsound.fragment f hgraph (by simpa using hnodes)
    obtain ⟨hsame, hreads⟩ := h.replaces_eq_reads hgraph hfragment.wellFormed
    exact ⟨fun _ => ⟨hsame, hfragment.input_not_mem hown .audio⟩, if_congr hreads rfl rfl⟩

/-- The operations of a contribution come by the audio of the first input only as the main audio,
and do with that what the contribution does. -/
theorem Turns.operations (h : c.Turns turn?) (hsound : c.Sound own) (hown : 0 ∉ own)
    (id : String) :
    (∀ op ∈ c.operations id, op.Indirect) ∧ firstTurn? (c.operations id) = turn? := by
  obtain ⟨hindirect, hturn⟩ := h.filtersOp hsound hown id
  constructor
  · refine List.forall_mem_cons.mpr ⟨hindirect, fun op hop => ?_⟩
    obtain ⟨index, hindex, rfl⟩ := List.mem_map.mp hop
    rintro rfl
    exact hown (hsound.audioSource 0 (Option.mem_toList.mp hindex))
  · have hsource : firstTurn? (c.audioSource?.toList.map .replaceAudio) =
        if turn? = some .replaced then some .replaced else none := by
      rw [← if_congr h.audioSource? rfl rfl]
      cases c.audioSource? <;> rfl
    rw [Contribution.operations, firstTurn?, List.findSome?_cons, hturn, ← firstTurn?, hsource]
    cases turn? with
    | none => rfl
    | some turn => cases turn <;> rfl

end Contribution

/-- What a stage does with the main audio of an input that has none, by the name of its handler. -/
def Stage.audioTurn? (s : Stage) : Option AudioTurn :=
  match s.skill.strategy with
  | .handler name => AudioTurn.ofHandler? name
  | _ => none

namespace Assembly

theorem contribution_turns {view : HandlerContext} {s : Stage} {c : Contribution}
    (hc : (contribution .builtin view s).2 = .ok c) (hsilent : view.primary.hasAudio = false) :
    c.Turns s.audioTurn? := by
  rw [contribution] at hc
  split at hc
  · next text target hstrategy =>
    have hplain : c.Plain :=
      (Params.meets_renderTemplate (r := ⟨[], s.params, view⟩) text target).of_eq_ok hc
    rw [Stage.audioTurn?, hstrategy]
    exact hplain.mute
  · cases hc
  · split at hc
    · cases hc
    · cases hc
    · next h hhandler =>
      obtain ⟨name, hstrategy, hentry⟩ := s.exists_named hhandler
      rw [Stage.audioTurn?, hstrategy]
      exact HandlerTable.builtin_turning (name, h) hentry s.params view hsilent c
        (guarded_eq_ok.mp hc)

/-- A stage and its contribution, which does with the main audio what the stage says. -/
structure Speaks (s : Stage) (c : Contribution) : Prop where
  turns : c.Turns s.audioTurn?
  indirect : ∀ op ∈ c.operations s.id, op.Indirect
  first : firstTurn? (c.operations s.id) = s.audioTurn?

variable {stages : List Stage} {cs : List Contribution}

theorem operations_cons (s : Stage) (rest : List Stage) (c : Contribution)
    (cs : List Contribution) :
    operations (s :: rest) (c :: cs) = c.operations s.id ++ operations rest cs := rfl

theorem indirect_operations (h : List.Forall₂ Speaks stages cs) :
    ∀ op ∈ operations stages cs, op.Indirect := by
  induction h with
  | nil => exact List.forall_mem_nil _
  | cons hspeaks _ ih => exact List.forall_mem_append.mpr ⟨hspeaks.indirect, ih⟩

theorem firstTurn?_operations (h : List.Forall₂ Speaks stages cs) :
    firstTurn? (operations stages cs) = stages.findSome? Stage.audioTurn? := by
  induction h with
  | nil => rfl
  | @cons s c rest cs hspeaks _ ih =>
    rw [operations_cons, firstTurn?, List.findSome?_append, ← firstTurn?, ← firstTurn?,
      hspeaks.first, ih, List.findSome?_cons]
    cases s.audioTurn? <;> rfl

/-- Audio of an extra input comes only from a step that puts it in the place of the main audio. -/
theorem replaced_of_audioSource (h : List.Forall₂ Speaks stages cs)
    (hreplaced : cs.any (·.audioSource?.isSome) = true) :
    stages.findSome? Stage.audioTurn? ≠ none := by
  obtain ⟨c, hc, hsome⟩ := List.any_eq_true.mp hreplaced
  obtain ⟨s, hs, hspeaks⟩ := exists_of_mem_right h hc
  intro hnone
  have hturn := List.findSome?_eq_none_iff.mp hnone s hs
  cases hturn.symm.trans (hspeaks.turns.audioSource?.mp hsome)

theorem main_ne_primaryAudio {p : Progress} {ctx : Context} (h : List.Forall₂ Speaks stages cs)
    (hcollects : Collects stages cs {} p) (hheard : p.merger.Heard (operations stages cs))
    (hsilent : ctx.hasAudio = false) (hkeeps : p.keepsAudio ctx = true) :
    p.merger.audio.main ≠ primaryAudio := by
  intro hmain
  have hreplaced : p.audioReplaced = true := by
    rw [Progress.keepsAudio, hsilent, Bool.false_or] at hkeeps
    exact (Bool.and_eq_true_iff.mp hkeeps).1
  rw [hcollects.audioReplaced] at hreplaced
  rw [hheard.main, firstTurn?_operations h] at hmain
  exact replaced_of_audioSource h hreplaced hmain

end Assembly

theorem Merger.exists_addsNodes {ops : List Op} (h : firstTurn? ops = some .joined) :
    ∃ op ∈ ops, op.addsNodes = true := by
  obtain ⟨op, hop, hturn⟩ := List.exists_of_findSome?_eq_some h
  refine ⟨op, hop, ?_⟩
  cases op with
  | fragment step f =>
    cases hnodes : f.nodes with
    | nil => simp [Op.audioTurn?, Fragment.reads, hnodes] at hturn
    | cons node rest => simp [Op.addsNodes, hnodes]
  | _ => cases hturn

theorem Mapping.subtitle_ne_primaryAudio (track : Float) :
    (Mapping.subtitle 0 track).text ≠ primaryAudio.mapText := by
  intro h
  have hrest : ":s:" ++ Number.text track = ":" ++ Medium.letter .audio := by
    rwa [Mapping.text, primaryAudio, StreamRef.mapText, StreamRef.spec, String.append_assoc,
      String.append_assoc, String.append_right_inj] at h
  have hlist := congrArg String.toList hrest
  simp [Medium.letter] at hlist

namespace Assembly

variable {p : Progress} {merged : Merged} {keepAudio : Bool}

/-- The mappings of a command name the audio of the first input only as the main audio. -/
theorem primaryAudio_not_mem_mappings
    (husual : ∀ targets skill, p.maps? = some (targets, skill) → Contribution.Usual targets)
    (hvideo : merged.video ≠ primaryAudio)
    (haudio : keepAudio = true → merged.audio ≠ primaryAudio) :
    primaryAudio.mapText ∉ (mappings p merged keepAudio).map Mapping.text := by
  have hstream {ref : StreamRef} (href : ref ≠ primaryAudio) :
      primaryAudio.mapText ≠ (Mapping.stream ref).text :=
    fun h => href (Mapping.mapText_inj.mp h.symm)
  rw [mappings]
  -- By what the steps ask for; the optional mapping of the first audio is another text.
  cases hmaps : p.maps? with
  | none =>
    dsimp only
    rw [Mapping.defaults]
    cases merged.graphMode with
    | false => exact List.not_mem_nil
    | true =>
      cases keepAudio with
      | false => simp [hstream hvideo]
      | true =>
        have hoptional := Mapping.mapText_ne_optional primaryAudio 0 .audio
        cases hmain : merged.audio with
        | label name => simp [hstream hvideo, hstream (hmain ▸ haudio rfl)]
        | stream index medium => simp [hstream hvideo, hoptional]
  | some asked =>
    obtain ⟨targets, skill⟩ := asked
    obtain rfl | ⟨track, rfl⟩ := (husual targets skill hmaps).cases
    · cases keepAudio with
      | false => simp [mappings.isMainAudio, Mapping.ofTarget, hstream hvideo]
      | true => simp [Mapping.ofTarget, hstream hvideo, hstream (haudio rfl)]
    · have htrack := (Mapping.subtitle_ne_primaryAudio track).symm
      simp [mappings.isMainAudio, Mapping.ofTarget, htrack]

end Assembly

namespace Compiler

open Assembly

variable {c : Compiler} {request : Request} {session : Session} {d : Descriptor}

/-- The stages of a request whose input has no audio contribute what they say. -/
theorem Prepared.speaks {ctx : Context} {stages : List Stage} {r : Reservations}
    {cs : List Contribution} (h : c.Prepared request session ctx stages r)
    (hhandlers : c.handlers = .builtin) (hsilent : ctx.hasAudio = false)
    (hcs : contributions c.handlers (c.view ctx r) stages = .ok cs) :
    List.Forall₂ Speaks stages cs := by
  refine (mapM_eq_ok.mp hcs).imp fun s answer hanswer => ?_
  rw [hhandlers] at hanswer
  have hown : 0 ∉ (c.view ctx r s).ownInputs := by
    intro hzero
    obtain ⟨e, he, hindex⟩ := owned_within hhandlers h.reserved s 0 hzero
    exact absurd hindex (RequestContext.index_bounds h.resolved e he).1.ne'
  have hturns := contribution_turns hanswer hsilent
  obtain ⟨hindirect, hfirst⟩ :=
    hturns.operations (contribution_sound HandlerTable.builtin_keeps hanswer) hown s.id
  exact ⟨hturns, hindirect, hfirst⟩

/-- If the input of a request has no audio, the mappings of its command do not name any of it; and
its graph draws on it exactly if the first step that does anything with the main audio joins it
with other audio. -/
theorem silent_input (hhandlers : c.handlers = .builtin)
    (hsilent : request.context.hasAudio? = some false)
    (h : ((c.compile request).run session).1.result = .ok d) :
    ∃ ctx a stages, c.plan request session = .ok (ctx, a) ∧ d = a.descriptor c.binary ctx ∧
      Compiler.stages request session = .ok stages ∧ "0:a" ∉ d.maps ∧
        ((∃ nodes, a.merged.clause = .graph nodes ∧ Draws nodes primaryAudio) ↔
          stages.findSome? Stage.audioTurn? = some .joined) := by
  rw [compile_result] at h
  obtain ⟨⟨ctx, a⟩, hplan, rfl⟩ := map_eq_ok.mp h
  obtain ⟨stages, r, cs, p, hprepared, hcs, hp, hcollects, hconclude⟩ := exists_prepared hplan
  refine ⟨ctx, a, stages, hplan, rfl, hprepared.expanded, ?_⟩
  have hctx : ctx.hasAudio = false := by
    rw [RequestContext.hasAudio_of_resolve hprepared.resolved, hsilent]
    rfl
  have hspeaks := hprepared.speaks hhandlers hctx hcs
  have hsound := sound_of_foldlM hhandlers hprepared.resolved hprepared.expanded hprepared.reserved
    hp
  -- The whole run tells what has become of the audio of the input.
  have hheard : p.merger.Heard (operations stages cs) :=
    heard_of_run (indirect_operations hspeaks) (open_of_run hcollects.run hsound.mode)
      hcollects.run
  obtain ⟨hrecords, -⟩ := records_of_run hcollects.run hsound.mode
  have hkept := main_ne_primaryAudio hspeaks hcollects hheard hctx
  rw [hsound.conclude_eq] at hconclude
  obtain ⟨-, -, rfl⟩ := map_eq_ok.mp hconclude
  constructor
  · refine primaryAudio_not_mem_mappings hsound.maps ?_ ?_
    · exact ended_video_ne_primaryAudio hheard.video _
    · intro hkeeps
      have haudio := ended_audio_ne_primaryAudio (hkept hkeeps)
      rwa [← hkeeps] at haudio
  · rw [← firstTurn?_operations hspeaks]
    constructor
    · rintro ⟨nodes, hclause, hdraws⟩
      rw [← nodes_of_result hclause, draws_ended hheard.video hkept] at hdraws
      exact hheard.draws.mp hdraws
    · intro hjoined
      obtain ⟨hgraph, -⟩ := hrecords.graph (exists_addsNodes hjoined)
      exact ⟨_, if_pos hgraph, (draws_ended hheard.video hkept).mpr (hheard.draws.mpr hjoined)⟩

/-- Music mixed into the audio of an input that has none. -/
def duetRequest : Request where
  steps := [⟨"mix_audio", []⟩]
  context := ⟨"/in.mp4", "out.mp4", ["/music.mp3"], none, none, none, none, none, none, some false,
    [], none⟩

def duetCompiler : Compiler where
  files := { workingDir := "/", home := "/",
             nodes := [("/in.mp4", .file ""), ("/music.mp3", .file "")] }

def duetSession : Session where
  registry := .ofSkills (Catalogue.builtin.filter fun s => s.name == "mix_audio")

def duetGraph : String :=
  "[0:a][1:a]amix=inputs=2:duration=longest:dropout_transition=2.0:weights='1 0.5'[s1_out];" ++
    "[s1_out]anullsink"

theorem exists_duet : ∃ d, ((duetCompiler.compile duetRequest).run duetSession).1.result = .ok d ∧
    d.filter = .graph duetGraph ∧ d.maps = ["0:v"] := by
  have hparts : (((duetCompiler.compile duetRequest).run duetSession).1.result.map
      fun d => (d.filter, d.maps)).toOption = some (.graph duetGraph, ["0:v"]) := by decide +kernel
  obtain ⟨d, hd, heq⟩ := map_toOption_eq_some.mp hparts
  exact ⟨d, hd, (Prod.mk.inj heq).1, (Prod.mk.inj heq).2⟩

/-- The graph reads the audio that the input does not have, for audio that it then drops. -/
theorem exists_silent_input_drawn : duetRequest.context.hasAudio? = some false ∧
    ∃ d, ((duetCompiler.compile duetRequest).run duetSession).1.result = .ok d ∧
      d.filter = .graph duetGraph := by
  obtain ⟨d, hd, hfilter, -⟩ := exists_duet
  exact ⟨rfl, d, hd, hfilter⟩

theorem silent_input_duet : duetRequest.context.hasAudio? = some false ∧
    ∃ d ctx a stages, ((duetCompiler.compile duetRequest).run duetSession).1.result = .ok d ∧
      duetCompiler.plan duetRequest duetSession = .ok (ctx, a) ∧
        d = a.descriptor duetCompiler.binary ctx ∧
          Compiler.stages duetRequest duetSession = .ok stages ∧ "0:a" ∉ d.maps ∧
            ((∃ nodes, a.merged.clause = .graph nodes ∧ Draws nodes primaryAudio) ↔
              stages.findSome? Stage.audioTurn? = some .joined) ∧
              stages.findSome? Stage.audioTurn? = some .joined := by
  obtain ⟨d, hd, -⟩ := exists_duet
  obtain ⟨ctx, a, stages, hplan, heq, hstages, hmaps, hdraws⟩ := silent_input rfl rfl hd
  have hturn : ((Compiler.stages duetRequest duetSession).map
      (·.findSome? Stage.audioTurn?)).toOption = some (some .joined) := by decide +kernel
  obtain ⟨others, hothers, hjoined⟩ := map_toOption_eq_some.mp hturn
  obtain rfl : stages = others := Except.ok.inj (hstages.symm.trans hothers)
  exact ⟨rfl, d, ctx, a, stages, hd, hplan, heq, hstages, hmaps, hdraws, hjoined⟩

end Compiler

end SkillPipeline
