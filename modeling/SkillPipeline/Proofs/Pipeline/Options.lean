import SkillPipeline.Proofs.Command.Grouping
import SkillPipeline.Proofs.Pipeline.Decoding

namespace SkillPipeline

open Outcome FlagGroup

theorem FlagGroup.mem_iff {token : String} {flags : List String} :
    token ∈ flags ↔ ∃ g ∈ ofTokens flags, g.flag = token ∨ g.value? = some token := by
  have htokens (g : FlagGroup) : token ∈ g.tokens ↔ g.flag = token ∨ g.value? = some token := by
    rw [tokens, List.mem_cons, Option.mem_toList, eq_comm]
  conv_lhs => rw [← flatMap_ofTokens flags]
  rw [List.mem_flatMap]
  exact exists_congr fun g => and_congr_right fun _ => htokens g

namespace Assembly

variable {p : Progress} {ctx : Context} {a : Assembly} {cs : List Contribution}

/-- The groups of flags that contributions bring, in order. -/
def givenFlags (cs : List Contribution) : List FlagGroup :=
  cs.flatMap fun c => ofTokens c.outputFlags

theorem ofTokens_given (hproper : ∀ g ∈ givenFlags cs, g.isProper = true) :
    ofTokens (cs.flatMap (·.outputFlags)) = givenFlags cs := by
  have htokens : cs.flatMap (·.outputFlags) = (givenFlags cs).flatMap tokens := by
    rw [givenFlags, List.flatMap_assoc]
    exact congrArg (List.flatMap · cs) (funext fun c => (flatMap_ofTokens c.outputFlags).symm)
  rw [htokens, ofTokens_flatMap hproper]

theorem conclude_eq_ok (h : conclude p ctx = .ok a) :
    a.outputFlags = dedupe p.outputFlags ∧ a.keepAudio = p.keepsAudio ctx := by
  simp only [conclude, bind_eq_ok, pure_eq_ok] at h
  obtain ⟨⟨m, merged⟩, -, -, -, rfl⟩ := h
  exact ⟨rfl, rfl⟩

end Assembly

namespace Compiler

open Assembly

variable {c : Compiler} {ctx : Context} {stages : List Stage} {r : Reservations}
  {cs : List Contribution} {a : Assembly}

/-- Where every step contributes flags with their values, a command has the last group of each flag
and all groups of those that may repeat. Its audio is off if there is none, or one of these groups
is the flag for that, or has it for its value; and an argument list is refused exactly if one of
them is the flag of an input or has that for its value. -/
theorem options_decide (hr : c.reservations ctx stages = .ok r)
    (hcs : contributions c.handlers (c.view ctx r) stages = .ok cs)
    (hproper : ∀ g ∈ givenFlags cs, g.isProper = true) (ha : c.assembly ctx stages = .ok a) :
    ofTokens a.outputFlags = survivors (givenFlags cs) ∧
      (a.keepAudio = false ↔ (ctx.hasAudio = false ∧ ∀ answer ∈ cs, answer.audioSource? = none) ∨
        ∃ g ∈ ofTokens a.outputFlags, g.flag = "-an" ∨ g.value? = some "-an") ∧
      ((a.descriptor c.binary ctx).argv = .error (.invariant .inputFlag) ↔
        ∃ g ∈ ofTokens a.outputFlags, g.flag = "-i" ∨ g.value? = some "-i") := by
  simp only [assembly, bind_eq_ok] at ha
  obtain ⟨r', hr', p, hp, hconclude⟩ := ha
  obtain rfl : r = r' := Except.ok.inj (hr.symm.trans hr')
  obtain ⟨cs', hcs', hcollects⟩ := exists_contributions hp
  obtain rfl : cs = cs' := Except.ok.inj (hcs.symm.trans hcs')
  obtain ⟨hflags, hkeeps⟩ := conclude_eq_ok hconclude
  have hgiven : p.outputFlags = cs.flatMap (·.outputFlags) := hcollects.outputFlags
  have hreplaced : p.audioReplaced = cs.any (·.audioSource?.isSome) := by
    simpa using hcollects.audioReplaced
  -- Proper groups that are written out and read again are the same groups.
  have hsurvive : ∀ g ∈ survivors (givenFlags cs), g.isProper = true :=
    fun g hg => hproper g ((survivors_sublist _).subset hg)
  refine ⟨?_, ?_, ?_⟩
  · rw [hflags, hgiven, dedupe, ofTokens_given hproper, ofTokens_flatMap hsurvive]
  · have hsilent : cs.any (·.audioSource?.isSome) = false ↔
        ∀ answer ∈ cs, answer.audioSource? = none := by
      simp
    rw [← mem_iff, ← hsilent, hkeeps, Progress.keepsAudio, ← hflags, audioDisabled, hreplaced]
    cases ctx.hasAudio <;> cases cs.any (·.audioSource?.isSome) <;> simp
  · rw [← mem_iff, Descriptor.argv_eq_error]
    exact and_iff_left rfl

theorem Prepared.givenFlags_proper {request : Request} {session : Session}
    (h : c.Prepared request session ctx stages r) (hhandlers : c.handlers = .builtin)
    (hskills : session.Knows (· ∈ Catalogue.builtin))
    (hcs : contributions c.handlers (c.view ctx r) stages = .ok cs) :
    ∀ g ∈ givenFlags cs, g.isProper = true := by
  intro g hg
  obtain ⟨answer, hanswer, hgroup⟩ := List.mem_flatMap.mp hg
  obtain ⟨s, hs, hgives⟩ := exists_of_mem_right (mapM_eq_ok.mp hcs) hanswer
  rw [hhandlers] at hgives
  exact ((contribution_spelled (h.ready hskills s hs) answer hgives).outputFlags g hgroup).1

/-- A quieter video at a rate that reads as the flag that turns audio off. -/
def muteRequest : Request where
  steps := [⟨"volume", [("level", .string "0.5")]⟩, ⟨"bitrate", [("video", .string "-an")]⟩]
  context := ⟨"/in.mp4", "out.mp4", [], none, none, none, none, none, none, none, [], none⟩

def muteSession : Session where
  registry := .ofSkills (Catalogue.builtin.filter fun s => ["volume", "bitrate"].contains s.name)

theorem exists_mute : ∃ ctx a, mirrorCompiler.plan muteRequest muteSession = .ok (ctx, a) ∧
    ctx.hasAudio = true ∧ a.keepAudio = false ∧ a.outputFlags = ["-b:v", "-an"] := by
  have hparts : ((mirrorCompiler.plan muteRequest muteSession).map fun planned =>
      (planned.1.hasAudio, planned.2.keepAudio, planned.2.outputFlags)).toOption =
        some (true, false, ["-b:v", "-an"]) := by decide +kernel
  obtain ⟨⟨ctx, a⟩, hplan, heq⟩ := map_toOption_eq_some.mp hparts
  obtain ⟨haudio, hkeep, hflags⟩ : ctx.hasAudio = true ∧ a.keepAudio = false ∧
      a.outputFlags = ["-b:v", "-an"] := by simpa using heq
  exact ⟨ctx, a, hplan, haudio, hkeep, hflags⟩

/-- The rate turns the audio off, and no flag does. -/
theorem exists_audio_off_without_flag :
    ∃ ctx a, mirrorCompiler.plan muteRequest muteSession = .ok (ctx, a) ∧
      ctx.hasAudio = true ∧ a.keepAudio = false ∧
        ∀ g ∈ ofTokens a.outputFlags, g.isProper = true ∧ g.flag ≠ "-an" := by
  obtain ⟨ctx, a, hplan, haudio, hkeep, hflags⟩ := exists_mute
  exact ⟨ctx, a, hplan, haudio, hkeep, hflags ▸ by decide⟩

theorem options_decide_mute :
    ∃ ctx stages r cs a, mirrorCompiler.reservations ctx stages = .ok r ∧
      contributions mirrorCompiler.handlers (mirrorCompiler.view ctx r) stages = .ok cs ∧
        (∀ g ∈ givenFlags cs, g.isProper = true) ∧ mirrorCompiler.assembly ctx stages = .ok a ∧
          a.outputFlags = ["-b:v", "-an"] ∧ ofTokens a.outputFlags = survivors (givenFlags cs) ∧
            (a.keepAudio = false ↔
              (ctx.hasAudio = false ∧ ∀ answer ∈ cs, answer.audioSource? = none) ∨
                ∃ g ∈ ofTokens a.outputFlags, g.flag = "-an" ∨ g.value? = some "-an") ∧
              ((a.descriptor mirrorCompiler.binary ctx).argv = .error (.invariant .inputFlag) ↔
                ∃ g ∈ ofTokens a.outputFlags, g.flag = "-i" ∨ g.value? = some "-i") := by
  obtain ⟨ctx, a, hplan, -, -, hflags⟩ := exists_mute
  obtain ⟨stages, r, cs, p, hprepared, hcs, hp, -, hconclude⟩ := exists_prepared hplan
  have hskills : muteSession.Knows (· ∈ Catalogue.builtin) :=
    Session.knows_ofSkills fun _ hskill => (List.mem_filter.mp hskill).1
  have hproper := hprepared.givenFlags_proper rfl hskills hcs
  have ha : mirrorCompiler.assembly ctx stages = .ok a :=
    bind_eq_ok.mpr ⟨r, hprepared.reserved, bind_eq_ok.mpr ⟨p, hp, hconclude⟩⟩
  exact ⟨ctx, stages, r, cs, a, hprepared.reserved, hcs, hproper, ha, hflags,
    options_decide hprepared.reserved hcs hproper ha⟩

end Compiler

end SkillPipeline
