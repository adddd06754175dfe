import SkillPipeline.Proofs.Graph.Routing
import SkillPipeline.Proofs.Pipeline.Breakdown

namespace SkillPipeline

open Merger Outcome

/-- Whether a mapping takes a stream over into the output. -/
def Mapping.Carries : Mapping → StreamRef → Prop
  | .stream ref, other => other = ref
  | .optional index medium, other => other = .stream index medium
  | .subtitle .., _ => False

namespace Assembly

variable {table : HandlerTable} {view : Stage → HandlerContext} {stages : List Stage}
  {p p' : Progress} {cs : List Contribution} {ctx : Context} {a : Assembly} {ops : List Op}

theorem maps?_of_advance (hcs : contributions table view stages = .ok cs)
    (h : stages.foldlM (advance table view) p = .ok p') (hnone : ∀ c ∈ cs, c.maps? = none) :
    p'.maps? = p.maps? := by
  have hgives := mapM_eq_ok.mp hcs
  clear hcs
  -- On the stages with their contributions.
  induction hgives generalizing p with
  | nil =>
    obtain rfl := pure_eq_ok.mp h
    rfl
  | @cons s c rest cs hc _ ih =>
    obtain ⟨hfirst, hothers⟩ := List.forall_mem_cons.mp hnone
    obtain ⟨q, hq, hrest⟩ := foldlM_cons_eq_ok.mp h
    obtain ⟨c', hc', hadd⟩ := bind_eq_ok.mp hq
    obtain rfl : c = c' := Except.ok.inj (hc.symm.trans hc')
    have hmaps := (takes_of_add hadd).maps
    rw [hfirst, Option.map_none, Option.none_or] at hmaps
    rw [ih hrest hothers, hmaps]

theorem conclude_merged (h : conclude p ctx = .ok a) :
    (∃ closed, p.merger.finalize a.keepAudio = .ok (closed, a.merged)) ∧
      a.maps = mappings p a.merged a.keepAudio := by
  simp only [conclude, bind_eq_ok, pure_eq_ok] at h
  obtain ⟨⟨closed, merged⟩, hend, -, -, rfl⟩ := h
  exact ⟨⟨closed, hend⟩, rfl⟩

end Assembly

theorem Route.Leads.ne_stream {origin : Route} {medium other : Medium} {ref : StreamRef}
    (h : origin.Leads medium ref) (hother : other ≠ medium) (index : Nat) :
    ref ≠ .stream index other := by
  rintro rfl
  cases origin with
  | input first => exact hother (StreamRef.stream.inj h).2
  | graph =>
    obtain ⟨name, hname⟩ := h
    cases hname

namespace Mapping

variable {merged : Merged} {origin route : Route}

theorem defaults_of_label (hgraph : merged.graphMode = true) {name : String}
    (haudio : merged.audio = .label name) :
    defaults merged true = [.stream merged.video, .stream (.label name)] := by
  unfold defaults
  rw [hgraph, haudio]
  rfl

theorem defaults_of_stream (hgraph : merged.graphMode = true) {index : Nat} {medium : Medium}
    (haudio : merged.audio = .stream index medium) :
    defaults merged true = [.stream merged.video, .optional 0 .audio] := by
  unfold defaults
  rw [hgraph, haudio]
  rfl

/-- The default mappings take the main audio over unless that is of another input than the first. -/
theorem exists_carries_defaults (hgraph : merged.graphMode = true)
    (hvideo : origin.Leads .video merged.video) (haudio : route.Leads .audio merged.audio) :
    (∃ mapping ∈ defaults merged true, mapping.Carries merged.audio) ↔
      ∀ index, route = .input index → index = 0 := by
  cases route with
  | graph =>
    obtain ⟨name, hname⟩ := haudio
    rw [defaults_of_label hgraph hname]
    refine iff_of_true ⟨.stream (.label name), by simp, hname⟩ ?_
    intro index hindex
    cases hindex
  | input first =>
    have hstream : merged.audio = .stream first .audio := haudio
    have hapart : StreamRef.stream first .audio ≠ merged.video :=
      (hvideo.ne_stream (by decide) first).symm
    rw [defaults_of_stream hgraph hstream]
    simp only [List.mem_cons, List.not_mem_nil, or_false, exists_eq_or_imp, exists_eq_left,
      Carries, hapart, false_or, hstream, StreamRef.stream.injEq, and_true, Route.input.injEq,
      forall_eq']

end Mapping

namespace Compiler

open Assembly

variable {c : Compiler} {ctx : Context} {stages : List Stage} {r : Reservations}
  {cs : List Contribution} {a : Assembly}

/-- The default mappings of a graph with audio. The main audio is what the last step that changes it
makes it, or a label if filters wait for it. It is mapped if it is a label; if it is that of an
input, the audio of the first input is mapped, whichever input it is of. So the main audio gets
into the output exactly if it is not that of another input than the first. -/
theorem default_maps (hr : c.reservations ctx stages = .ok r)
    (hcs : contributions c.handlers (c.view ctx r) stages = .ok cs)
    (hnone : ∀ answer ∈ cs, answer.maps? = none) (ha : c.assembly ctx stages = .ok a)
    (hgraph : a.merged.graphMode = true) (hkeep : a.keepAudio = true) :
    (route .audio (operations stages cs)).Leads .audio a.merged.audio ∧
      (∀ name, a.merged.audio = .label name →
        (a.descriptor c.binary ctx).maps = [a.merged.video.mapText, "[" ++ name ++ "]"]) ∧
      (∀ index, a.merged.audio = .stream index .audio →
        (a.descriptor c.binary ctx).maps = [a.merged.video.mapText, "0:a?"]) ∧
      ((∃ mapping ∈ a.maps, mapping.Carries a.merged.audio) ↔
        ∀ index, route .audio (operations stages cs) = .input index → index = 0) := by
  simp only [assembly, bind_eq_ok] at ha
  obtain ⟨r', hr', p, hp, hconclude⟩ := ha
  obtain rfl : r = r' := Except.ok.inj (hr.symm.trans hr')
  obtain ⟨cs', hcs', hcollects⟩ := exists_contributions hp
  obtain rfl : cs = cs' := Except.ok.inj (hcs.symm.trans hcs')
  obtain ⟨⟨closed, hend⟩, hmaps⟩ := conclude_merged hconclude
  -- No step asks for mappings, so the defaults follow the two final streams.
  have hunasked : p.maps? = none := maps?_of_advance hcs hp hnone
  rw [hkeep] at hend
  have hdefaults : a.maps = Mapping.defaults a.merged true := by
    rw [hmaps, hkeep, mappings, hunasked]
  obtain ⟨hvideo, haudio⟩ := leads_of_finalize hcollects.run hend hgraph
  have htexts : (a.descriptor c.binary ctx).maps =
      (Mapping.defaults a.merged true).map Mapping.text := by rw [← hdefaults]; rfl
  refine ⟨haudio, fun name hname => ?_, fun index hindex => ?_, ?_⟩
  · rw [htexts, Mapping.defaults_of_label hgraph hname]
    rfl
  · rw [htexts, Mapping.defaults_of_stream hgraph hindex]
    rfl
  · rw [hdefaults]
    exact Mapping.exists_carries_defaults hgraph hvideo haudio

/-- A step that turns the picture around and brings in the audio of the first extra input. -/
def swap : Handler where
  compile _ _ := .ok
    { graph? := some { nodes := [⟨[.main .video], .wording "hflip", ["o"]⟩], video? := some "o" }
      audioSource? := some 1 }
  reserve? := some fun _ _ => .ok [1]

def swapSkill : Skill where
  name := "swap"
  category := .custom
  strategy := .handler "swap"

def swapRequest : Request where
  steps := [⟨"swap", []⟩]
  context := ⟨"/in.mp4", "/out.mp4", ["/music.mp3"], none, none, none, none, none, none, none, [],
    none⟩

def swapCompiler : Compiler where
  handlers := [("swap", swap)]
  files := { workingDir := "/", home := "/",
             nodes := [("/in.mp4", .file ""), ("/music.mp3", .file "")] }

def swapContext : Context :=
  ⟨"/in.mp4", "/out.mp4", [⟨1, "/music.mp3", .audio, none⟩], none, 30, 1920, 1080, true, [], 5,
    true⟩

def swapStages : List Stage := [⟨"s1", ⟨swapSkill, []⟩, 0⟩]

theorem default_maps_swap : ∃ r cs a, swapCompiler.reservations swapContext swapStages = .ok r ∧
    contributions swapCompiler.handlers (swapCompiler.view swapContext r) swapStages = .ok cs ∧
      (∀ answer ∈ cs, answer.maps? = none) ∧ swapCompiler.assembly swapContext swapStages = .ok a ∧
        a.merged.graphMode = true ∧ a.keepAudio = true ∧
          route .audio (operations swapStages cs) = .input 1 ∧
            (a.descriptor swapCompiler.binary swapContext).maps = ["[s1_o]", "0:a?"] ∧
              ¬∃ mapping ∈ a.maps, mapping.Carries a.merged.audio := by
  obtain ⟨r, cs, a, hr, hcs, hnone, ha, hgraph, hkeep, hroute, haudio, hvideo⟩ : ∃ r cs a,
      swapCompiler.reservations swapContext swapStages = .ok r ∧
        contributions swapCompiler.handlers (swapCompiler.view swapContext r) swapStages = .ok cs ∧
          (∀ answer ∈ cs, answer.maps? = none) ∧
            swapCompiler.assembly swapContext swapStages = .ok a ∧ a.merged.graphMode = true ∧
              a.keepAudio = true ∧ route .audio (operations swapStages cs) = .input 1 ∧
                a.merged.audio = .stream 1 .audio ∧ a.merged.video = .label "s1_o" :=
    ⟨_, _, _, rfl, rfl, by simp, rfl, rfl, rfl, rfl, rfl, rfl⟩
  obtain ⟨-, -, hstream, hcarries⟩ := default_maps hr hcs hnone ha hgraph hkeep
  refine ⟨r, cs, a, hr, hcs, hnone, ha, hgraph, hkeep, hroute, ?_, ?_⟩
  · rw [hstream 1 haudio, hvideo]
    rfl
  · intro hcarried
    exact absurd (hcarries.mp hcarried 1 hroute) (by decide)

/-- The main audio is that of the music, no step asks for mappings, and what is mapped is the audio
of the first input. -/
theorem exists_audio_exchanged :
    (∀ params view answer, swap.compile params view = .ok answer → answer.maps? = none) ∧
      ∃ ctx a, swapCompiler.plan swapRequest { registry := .ofSkills [swapSkill] } = .ok (ctx, a) ∧
        a.merged.graphMode = true ∧ a.keepAudio = true ∧ a.merged.audio = .stream 1 .audio ∧
          (a.descriptor swapCompiler.binary ctx).maps = ["[s1_o]", "0:a?"] := by
  constructor
  · intro params view answer h
    cases h
    rfl
  · exact ⟨_, _, rfl, rfl, rfl, rfl, rfl⟩

end Compiler

end SkillPipeline
