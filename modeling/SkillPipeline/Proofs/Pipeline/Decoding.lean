import SkillPipeline.Proofs.Effect.Spelling
import SkillPipeline.Proofs.Pipeline.Breakdown

namespace SkillPipeline

open Outcome FlagGroup

namespace Template

/-- Whether a template has no holes, and is its own text. -/
def isFixed (template : String) : Bool := segments template == template.toList.map .literal

theorem fillTextM_fixed {template : String} {value : String → Except Fault String}
    (h : isFixed template = true) :
    fillTextM value (segments template) = .ok template.toList := by
  have hliteral (s : List Char) : fillTextM value (s.map .literal) = .ok s := by
    induction s with
    | nil => rfl
    | cons c rest ih => rw [List.map_cons, fillTextM, ih]; rfl
  rw [eq_of_beq h, hliteral]

end Template

namespace Params

variable {p : Params} {words tokens : List String}

/-- The token that a word of an options template becomes. -/
def optionToken (p : Params) (word : String) : Except Fault String :=
  (Template.fillTextM p.optionText (Template.segments word)).map String.ofList

/-- Whether the words of a template are flags that are written out, each followed by a word for its
value, if it takes one. -/
def spellsFlags : List String → Bool
  | [] => true
  | [flag] => Template.isFixed flag && standalone.contains flag
  | flag :: value :: rest =>
    Template.isFixed flag &&
      if standalone.contains flag then spellsFlags (value :: rest)
      else takesValue flag && !reserved.contains flag && spellsFlags rest

theorem optionToken_fixed {word : String} (h : Template.isFixed word = true) :
    p.optionToken word = .ok word := by
  rw [optionToken, Template.fillTextM_fixed h]
  exact congrArg Except.ok word.ofList_toList

theorem spelled_of_spellsFlags (h : spellsFlags words = true)
    (htokens : words.mapM p.optionToken = .ok tokens) : Spelled tokens := by
  -- On the words as they are checked: a flag alone, or a flag with the word for its value.
  induction words using spellsFlags.induct generalizing tokens with
  | case1 =>
    obtain rfl := pure_eq_ok.mp htokens
    exact spelled_nil
  | case2 flag =>
    simp only [spellsFlags, Bool.and_eq_true, List.contains_iff_mem] at h
    simp only [List.mapM_cons, List.mapM_nil, optionToken_fixed h.1, bind_eq_ok, pure_eq_ok,
      Except.ok.injEq] at htokens
    obtain ⟨_, rfl, _, rfl, rfl⟩ := htokens
    exact (spelled_alone h.2).mpr spelled_nil
  | case3 flag value rest ihNext ihRest =>
    simp only [spellsFlags, Bool.and_eq_true] at h
    obtain ⟨hfixed, hflag⟩ := h
    rw [List.mapM_cons, optionToken_fixed hfixed] at htokens
    split at hflag
    · next halone =>
      obtain ⟨_, hlater, htokens⟩ := bind_eq_ok.mp htokens
      obtain ⟨later, hnext, hpure⟩ := bind_eq_ok.mp htokens
      cases hlater
      obtain rfl := pure_eq_ok.mp hpure
      exact (spelled_alone (List.contains_iff_mem.mp halone)).mpr (ihNext hflag hnext)
    · next halone =>
      simp only [Bool.and_eq_true, Bool.not_eq_true'] at hflag
      obtain ⟨⟨htakes, hfree⟩, hrest⟩ := hflag
      simp only [List.mapM_cons, bind_eq_ok, pure_eq_ok, Except.ok.injEq] at htokens
      obtain ⟨_, rfl, _, ⟨text, -, later, hlater, rfl⟩, rfl⟩ := htokens
      exact (spelled_value htakes (by simpa using hfree)).mpr (ihRest hrest hlater)

end Params

/-- Whether the template of a skill, if it has one for options, spells its flags. -/
def Skill.spellsFlags (skill : Skill) : Bool :=
  match skill.strategy with
  | .template text .output => Params.spellsFlags (Params.optionWords text)
  | _ => true

set_option maxRecDepth 100000 in
theorem Catalogue.builtin_spellsFlags : Catalogue.builtin.all (·.spellsFlags) = true := by
  decide +kernel

theorem Params.renderTemplate_spelled {p : Params} {text : String} {target : Target}
    (h : target = .output → spellsFlags (optionWords text) = true) :
    Gives Contribution.Spelled (p.renderTemplate text target) := by
  cases target with
  | output =>
    intro c hc
    obtain ⟨tokens, htokens, rfl⟩ := map_eq_ok.mp hc
    exact Contribution.spelled_flags.mpr (spelled_of_spellsFlags (h rfl) htokens)
  | audio => simp [renderTemplate]
  | video => simp [renderTemplate]

namespace Assembly

variable {p p' : Progress} {s : Stage} {c : Contribution} {view : HandlerContext}

/-- The flags that the stages have come to are spelled with their values. -/
structure Progress.Spelled (p : Progress) : Prop where
  inputFlags : FlagGroup.Spelled p.inputFlags
  outputFlags : FlagGroup.Spelled p.outputFlags

/-- Whatever its parameters and its context, a stage of a built-in skill contributes flags with
their values. -/
theorem contribution_spelled (hs : s.Ready) :
    Gives Contribution.Spelled (contribution .builtin view s).2 := by
  have hskill := List.all_eq_true.mp Catalogue.builtin_spellsFlags s.skill hs.1.2
  rw [contribution]
  split
  · next text target hstrategy =>
    refine Params.renderTemplate_spelled fun houtput => ?_
    rwa [Skill.spellsFlags, hstrategy, houtput] at hskill
  · exact gives_error
  · split
    · exact gives_error
    · exact gives_error
    · next h hhandler =>
      obtain ⟨name, hentry⟩ := s.exists_entry hhandler
      exact fun c hc => HandlerTable.builtin_spells _ hentry s.params view c (guarded_eq_ok.mp hc)

theorem inputFlags_of_add (h : add p s c = .ok p') :
    p'.inputFlags = p.inputFlags ++ c.inputFlags := by
  simp only [add, bind_eq_ok, pure_eq_ok] at h
  obtain ⟨q, hq, u, hu, rfl⟩ := h
  obtain ⟨-, m, -, rfl⟩ := addFilters_eq_ok.mp hq
  have hkept : u.inputFlags = p.inputFlags := by
    rw [replaceAudio] at hu
    split at hu
    · cases hu
      rfl
    · obtain ⟨⟨m', kept⟩, -, hu⟩ := bind_eq_ok.mp hu
      exact pure_eq_ok.mp hu ▸ rfl
  rw [replaceMaps, ← hkept]
  split <;> rfl

theorem Progress.Spelled.add (hp : p.Spelled) (hc : c.Spelled) (h : add p s c = .ok p') :
    p'.Spelled where
  inputFlags := inputFlags_of_add h ▸ hp.inputFlags.append hc.inputFlags
  outputFlags := (takes_of_add h).outputFlags ▸ hp.outputFlags.append hc.outputFlags

theorem Progress.Spelled.foldlM {stages : List Stage} {view : Stage → HandlerContext}
    (hp : p.Spelled) (hready : ∀ s ∈ stages, s.Ready)
    (h : stages.foldlM (advance .builtin view) p = .ok p') : p'.Spelled := by
  induction stages generalizing p with
  | nil => exact pure_eq_ok.mp h ▸ hp
  | cons s rest ih =>
    obtain ⟨u, hu, hrest⟩ := foldlM_cons_eq_ok.mp h
    obtain ⟨c, hc, hadd⟩ := bind_eq_ok.mp hu
    obtain ⟨hs, hready⟩ := List.forall_mem_cons.mp hready
    exact ih (hp.add (contribution_spelled hs c hc) hadd) hready hrest

end Assembly

theorem Merger.clause_ne_of_finalize {m m' : Merger} {keepAudio : Bool} {merged : Merged}
    (h : m.finalize keepAudio = .ok (m', merged)) : merged.clause.written ≠ .chain none none := by
  have hchain (u : Merger) : u.chainClause.written ≠ .chain none none := by
    rw [chainClause]
    cases hvideo : u.video.pending <;> cases haudio : u.audio.pending <;>
      simp [hvideo, haudio, Clause.written]
  simp only [finalize_eq, bind_eq_ok, Except.ok.injEq, Prod.mk.injEq] at h
  obtain ⟨u, -, v, -, -, rfl⟩ := h
  by_cases hgraph : u.mode = .graph
  · simp [hgraph, Clause.written]
  · simpa [hgraph] using hchain v

theorem FileSystem.isAbsolute_resolve (files : FileSystem) (path : String) :
    Path.isAbsolute (files.resolve path) = true := by
  simp [Path.isAbsolute, resolve, Path.resolve, Path.ofSegments, Text.startsWith]

theorem Path.startsWith_dash_eq_false {path : String} (h : isAbsolute path = true) :
    Text.startsWith path "-" = false := by
  rw [isAbsolute, Text.startsWith] at h
  rw [Text.startsWith]
  cases hpath : path.toList with
  | nil => rfl
  | cons c rest =>
    rw [hpath] at h
    obtain rfl : '/' = c := by simpa using h
    rfl

theorem FileSystem.acceptOutput_eq_ok {files : FileSystem} {path resolved : String}
    (h : files.acceptOutput path = .ok resolved) : resolved = files.resolve path := by
  obtain ⟨accepted, haccept, h⟩ := bind_eq_ok.mp h
  have hresolved : accepted = files.resolve path := (of_accept_eq_ok haccept).2.2.2
  split at h
  · cases h
  · exact (Except.ok.inj h).symm.trans hresolved

namespace Assembly

variable {p : Progress} {a : Assembly} {ctx : Context}

theorem conclude_spelled (hp : p.Spelled) (h : conclude p ctx = .ok a) :
    FlagGroup.Spelled a.inputFlags ∧ FlagGroup.Spelled a.outputFlags ∧
      a.merged.clause.written ≠ .chain none none := by
  simp only [conclude, bind_eq_ok, pure_eq_ok] at h
  obtain ⟨⟨m, merged⟩, hfinalize, -, -, rfl⟩ := h
  exact ⟨hp.inputFlags.dedupe, hp.outputFlags.dedupe, Merger.clause_ne_of_finalize hfinalize⟩

end Assembly

namespace Compiler

variable {c : Compiler} {request : Request} {session : Session} {d : Descriptor}
  {argv : List String}

/-- The descriptor of a compiled request is legible, and its output is the path that is asked for,
made absolute. -/
theorem legible_of_compile (hhandlers : c.handlers = .builtin)
    (hskills : session.Knows (· ∈ Catalogue.builtin))
    (h : ((c.compile request).run session).1.result = .ok d) :
    d.Legible ∧ d.output = c.files.resolve request.context.output := by
  rw [compile_result] at h
  obtain ⟨⟨ctx, a⟩, hplan, rfl⟩ := map_eq_ok.mp h
  simp only [plan, assembly, bind_eq_ok, pure_eq_ok, Prod.mk.injEq] at hplan
  obtain ⟨ctx', hctx, a', ⟨stages, hstages, r, hr, p, hp, hconclude⟩, rfl, rfl⟩ := hplan
  have hready : ∀ s ∈ stages, s.Ready :=
    Expansion.steps_ready (s := session.note [started request.steps]) hskills hstages
  have houtput : ctx'.output = c.files.resolve request.context.output := by
    simp only [RequestContext.resolve, bind_eq_ok, pure_eq_ok] at hctx
    obtain ⟨_, -, _, -, output, haccept, rfl⟩ := hctx
    exact FileSystem.acceptOutput_eq_ok haccept
  rw [hhandlers] at hp
  have hspelled : p.Spelled :=
    Assembly.Progress.Spelled.foldlM ⟨spelled_nil, spelled_nil⟩ hready hp
  obtain ⟨hinput, houtputFlags, hfilter⟩ := Assembly.conclude_spelled hspelled hconclude
  -- One global flag, no flags before the input, and an output that starts with a slash.
  refine ⟨⟨?_, ?_, hfilter, houtputFlags, ?_⟩, houtput⟩
  · by_cases hoverwrite : ctx'.overwrite = true
    · exact ⟨"-y", by decide, by simp [Assembly.descriptor, hoverwrite]⟩
    · exact ⟨"-n", by decide, by simp [Assembly.descriptor, hoverwrite]⟩
  · simp [Assembly.descriptor, hinput]
  · have habsolute : Path.isAbsolute ctx'.output = true :=
      houtput ▸ c.files.isAbsolute_resolve request.context.output
    exact Path.startsWith_dash_eq_false habsolute

/-- The argument list of a compiled request decodes back to its descriptor: whatever texts the
parameters hold, the reader recovers the global flag, the inputs with their flags, the filters, the
output flags in groups, the mappings and last the output, which is an absolute path. -/
theorem argv_decodes (hhandlers : c.handlers = .builtin)
    (hskills : session.Knows (· ∈ Catalogue.builtin))
    (h : c.argv request session = .ok argv) :
    ∃ d arguments, ((c.compile request).run session).1.result = .ok d ∧
      argv = d.binary :: arguments ∧ CommandReading.ofArguments arguments = some d.reading ∧
        d.output = c.files.resolve request.context.output ∧ Path.isAbsolute d.output = true := by
  obtain ⟨d, hd, hargv⟩ := bind_eq_ok.mp h
  obtain ⟨hlegible, houtput⟩ := legible_of_compile hhandlers hskills hd
  obtain ⟨arguments, heq, hread⟩ := Descriptor.ofArguments_argv hlegible hargv
  exact ⟨d, arguments, hd, heq, hread, houtput, houtput ▸ c.files.isAbsolute_resolve _⟩

/-- A trimmed video whose bitrates read as flags. -/
def flagLikeRequest : Request where
  steps := [⟨"trim", [("start", .string "5")]⟩,
    ⟨"bitrate", [("video", .string "-y"), ("audio", .string "-map")]⟩]
  context := ⟨"/in.mp4", "out.mp4", [], none, none, none, none, none, none, none, [], none⟩

def flagLikeArguments : List String :=
  ["-y", "-ss", "5", "-i", "/in.mp4", "-b:v", "-y", "-b:a", "-map", "/out.mp4"]

/-- The built-in skills that the request calls. -/
def flagLikeSession : Session where
  registry := .ofSkills (Catalogue.builtin.filter fun s => ["trim", "bitrate"].contains s.name)

theorem argv_decodes_flagLike :
    mirrorCompiler.argv flagLikeRequest flagLikeSession = .ok ("ffmpeg" :: flagLikeArguments) ∧
      ∃ d arguments,
        ((mirrorCompiler.compile flagLikeRequest).run flagLikeSession).1.result = .ok d ∧
          "ffmpeg" :: flagLikeArguments = d.binary :: arguments ∧
            CommandReading.ofArguments arguments = some d.reading ∧
              d.output = mirrorCompiler.files.resolve "out.mp4" ∧
                Path.isAbsolute d.output = true := by
  have htokens : (mirrorCompiler.argv flagLikeRequest flagLikeSession).toOption =
      some ("ffmpeg" :: flagLikeArguments) := by decide +kernel
  have hargv : mirrorCompiler.argv flagLikeRequest flagLikeSession =
      .ok ("ffmpeg" :: flagLikeArguments) := by
    cases hresult : mirrorCompiler.argv flagLikeRequest flagLikeSession with
    | error f => cases hresult ▸ htokens
    | ok argv =>
      rw [hresult] at htokens
      exact congrArg Except.ok (Option.some.inj htokens)
  have hskills : flagLikeSession.Knows (· ∈ Catalogue.builtin) :=
    Session.knows_ofSkills fun _ hskill => (List.mem_filter.mp hskill).1
  exact ⟨hargv, argv_decodes rfl hskills hargv⟩

end Compiler

end SkillPipeline
