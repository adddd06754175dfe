import SkillPipeline.Command.Descriptor
import SkillPipeline.Command.Flags
import Mathlib.Data.List.Basic

namespace SkillPipeline

namespace FlagGroup

variable {g : FlagGroup} {gs : List FlagGroup} {flag value output : String}
  {rest flags before after : List String}

/-- Flags that have a place of their own in a command. -/
def reserved : List String := ["-i", "-filter_complex", "-vf", "-af", "-map"]

/-- Whether the group is a flag with a value, or one that takes none and has none. -/
def isProper (g : FlagGroup) : Bool :=
  if standalone.contains g.flag then g.value?.isNone
  else Text.startsWith g.flag "-" && g.value?.isSome

/-- Tokens that are flags with their values, none of which has a place of its own in a command. -/
def Spelled (flags : List String) : Prop :=
  ∀ g ∈ ofTokens flags, g.isProper = true ∧ g.flag ∉ reserved

def valueOf? (flag : String) (g : FlagGroup) : Option String :=
  if g.flag = flag then g.value? else none

theorem valueOf?_eq_none (h : g.flag ≠ flag) : g.valueOf? flag = none := if_neg h

theorem startsWith_of_standalone (h : flag ∈ standalone) : Text.startsWith flag "-" = true := by
  have hall : ∀ flag ∈ standalone, Text.startsWith flag "-" = true := by decide
  exact hall flag h

theorem takesValue_of_standalone (h : flag ∈ standalone) : takesValue flag = false := by
  simp [takesValue, h]

theorem isProper_cases (h : g.isProper = true) :
    (∃ flag ∈ standalone, g = ⟨flag, none⟩) ∨
      ∃ flag value, takesValue flag = true ∧ g = ⟨flag, some value⟩ := by
  obtain ⟨flag, value?⟩ := g
  by_cases halone : flag ∈ standalone
  · cases value? with
    | none => exact .inl ⟨flag, halone, rfl⟩
    | some value => simp [isProper, halone] at h
  · cases value? with
    | none => simp [isProper, halone] at h
    | some value => exact .inr ⟨flag, value, by simpa [isProper, takesValue, halone] using h, rfl⟩

theorem isProper_alone (h : flag ∈ standalone) : isProper ⟨flag, none⟩ = true := by
  simp [isProper, h]

theorem isProper_value (h : takesValue flag = true) : isProper ⟨flag, some value⟩ = true := by
  obtain ⟨hdash, halone⟩ : Text.startsWith flag "-" = true ∧ flag ∉ standalone := by
    simpa [takesValue] using h
  simp [isProper, halone, hdash]

theorem ofTokens_alone (h : takesValue flag = false) :
    ofTokens (flag :: rest) = ⟨flag, none⟩ :: ofTokens rest := by
  cases rest with
  | nil => rfl
  | cons next rest => rw [ofTokens, h, if_neg Bool.false_ne_true]

theorem ofTokens_value (h : takesValue flag = true) :
    ofTokens (flag :: value :: rest) = ⟨flag, some value⟩ :: ofTokens rest := by
  rw [ofTokens, if_pos h]

theorem flatMap_ofTokens (flags : List String) : (ofTokens flags).flatMap tokens = flags := by
  induction flags using ofTokens.induct with
  | case1 => rfl
  | case2 token => rfl
  | case3 token next rest h ih => rw [ofTokens, if_pos h, List.flatMap_cons, ih]; rfl
  | case4 token next rest h ih => rw [ofTokens, if_neg h, List.flatMap_cons, ih]; rfl

/-- Whether the group has a value exactly if its flag takes one. -/
def isWhole (g : FlagGroup) : Bool := g.value?.isSome == takesValue g.flag

theorem isWhole_of_isProper (h : g.isProper = true) : g.isWhole = true := by
  obtain ⟨flag, halone, rfl⟩ | ⟨flag, value, htakes, rfl⟩ := isProper_cases h
  · simp [isWhole, takesValue_of_standalone halone]
  · simp [isWhole, htakes]

/-- Groups that are written out and taken for tokens again are the same groups. -/
theorem ofTokens_flatMap_append (h : ∀ g ∈ gs, g.isWhole = true) (rest : List String) :
    ofTokens (gs.flatMap tokens ++ rest) = gs ++ ofTokens rest := by
  induction gs with
  | nil => rfl
  | cons g gs ih =>
    obtain ⟨hg, hgs⟩ := List.forall_mem_cons.mp h
    obtain ⟨flag, value?⟩ := g
    cases value? with
    | none =>
      have halone : takesValue flag = false := by simpa [isWhole] using hg
      exact (ofTokens_alone halone).trans (congrArg _ (ih hgs))
    | some value =>
      have htakes : takesValue flag = true := by simpa [isWhole] using hg
      exact (ofTokens_value htakes).trans (congrArg _ (ih hgs))

theorem ofTokens_flatMap (h : ∀ g ∈ gs, g.isProper = true) :
    ofTokens (gs.flatMap tokens) = gs := by
  simpa [ofTokens] using ofTokens_flatMap_append (fun g hg => isWhole_of_isProper (h g hg)) []

theorem ofTokens_append (h : ∀ g ∈ ofTokens before, g.isWhole = true) :
    ofTokens (before ++ after) = ofTokens before ++ ofTokens after := by
  have happend := ofTokens_flatMap_append h after
  rwa [flatMap_ofTokens] at happend

theorem Spelled.whole (h : Spelled flags) : ∀ g ∈ ofTokens flags, g.isWhole = true :=
  fun g hg => isWhole_of_isProper (h g hg).1

@[simp] theorem spelled_nil : Spelled [] := nofun

theorem spelled_alone (h : flag ∈ standalone) : Spelled (flag :: rest) ↔ Spelled rest := by
  have hfree : ∀ flag ∈ standalone, flag ∉ reserved := by decide
  simp [Spelled, ofTokens_alone (takesValue_of_standalone h), isProper_alone h, hfree flag h]

theorem spelled_value (h : takesValue flag = true) (hfree : flag ∉ reserved) :
    Spelled (flag :: value :: rest) ↔ Spelled rest := by
  simp [Spelled, ofTokens_value h, isProper_value h, hfree]

theorem Spelled.append (hbefore : Spelled before) (hafter : Spelled after) :
    Spelled (before ++ after) := by
  rw [Spelled, ofTokens_append hbefore.whole]
  exact List.forall_mem_append.mpr ⟨hbefore, hafter⟩

theorem survivors_sublist (gs : List FlagGroup) : (survivors gs).Sublist gs := by
  induction gs with
  | nil => exact .slnil
  | cons g gs ih =>
    rw [survivors]
    split
    · exact ih.cons_cons g
    · exact ih.cons g

theorem Spelled.dedupe (h : Spelled flags) : Spelled (dedupe flags) := by
  have hsurvivors : ∀ g ∈ survivors (ofTokens flags), g.isProper = true ∧ g.flag ∉ reserved :=
    fun g hg => h g ((survivors_sublist _).subset hg)
  rw [Spelled, FlagGroup.dedupe, ofTokens_flatMap fun g hg => (hsurvivors g hg).1]
  exact hsurvivors

/-- The groups of an argument list, and its last argument, the only one that is in no group. -/
def read : List String → Option (List FlagGroup × String)
  | [] => none
  | [token] => if Text.startsWith token "-" then none else some ([], token)
  | token :: next :: rest =>
    if !Text.startsWith token "-" then none
    else if standalone.contains token then do
      let (groups, last) ← read (next :: rest)
      return (⟨token, none⟩ :: groups, last)
    else do
      let (groups, last) ← read rest
      return (⟨token, some next⟩ :: groups, last)

theorem read_cons (hg : g.isProper = true) (hrest : read rest = some (gs, output)) :
    read (g.tokens ++ rest) = some (g :: gs, output) := by
  obtain ⟨flag, halone, rfl⟩ | ⟨flag, value, htakes, rfl⟩ := isProper_cases hg
  · cases rest with
    | nil => cases hrest
    | cons next rest =>
      change read (flag :: next :: rest) = _
      rw [read, startsWith_of_standalone halone, List.contains_iff_mem.mpr halone, hrest]
      rfl
  · obtain ⟨hdash, halone⟩ :
        Text.startsWith flag "-" = true ∧ standalone.contains flag = false := by
      simpa [takesValue] using htakes
    change read (flag :: value :: rest) = _
    rw [read, hdash, halone, hrest]
    rfl

theorem read_flatMap (h : ∀ g ∈ gs, g.isProper = true)
    (houtput : Text.startsWith output "-" = false) :
    read (gs.flatMap tokens ++ [output]) = some (gs, output) := by
  induction gs with
  | nil => rw [List.flatMap_nil, List.nil_append, read, houtput]; rfl
  | cons g gs ih =>
    obtain ⟨hg, hgs⟩ := List.forall_mem_cons.mp h
    rw [List.flatMap_cons, List.append_assoc]
    exact read_cons hg (ih hgs)

/-- The reader finds groups in an argument list exactly if it is these groups and one argument more,
and that argument does not look like a flag. -/
theorem read_eq_some {arguments : List String} : read arguments = some (gs, output) ↔
    arguments = gs.flatMap tokens ++ [output] ∧ (∀ g ∈ gs, g.isProper = true) ∧
      Text.startsWith output "-" = false := by
  refine ⟨fun h => ?_, fun ⟨heq, hgs, houtput⟩ => heq ▸ read_flatMap hgs houtput⟩
  -- On the reader: a token that is no flag has to be the last one, any other starts a group.
  induction arguments using read.induct generalizing gs with
  | case1 => cases h
  | case2 token hdash => simp [read, hdash] at h
  | case3 token hdash =>
    obtain ⟨rfl, rfl⟩ : [] = gs ∧ token = output := by simpa [read, hdash] using h
    exact ⟨rfl, nofun, eq_false_of_ne_true hdash⟩
  | case4 token next rest hdash => simp [read, hdash] at h
  | case5 token next rest hdash halone ih =>
    have hmem : token ∈ standalone := List.contains_iff_mem.mp halone
    obtain ⟨groups, hrest, rfl⟩ : ∃ groups, read (next :: rest) = some (groups, output) ∧
        ⟨token, none⟩ :: groups = gs := by
      simpa [read, hdash, hmem, Option.bind_eq_some_iff] using h
    obtain ⟨heq, hgroups, houtput⟩ := ih hrest
    refine ⟨congrArg (token :: ·) heq, List.forall_mem_cons.mpr ⟨?_, hgroups⟩, houtput⟩
    exact isProper_alone hmem
  | case6 token next rest hdash halone ih =>
    have hmem : token ∉ standalone := fun hmem => halone (List.contains_iff_mem.mpr hmem)
    obtain ⟨groups, hrest, rfl⟩ : ∃ groups, read rest = some (groups, output) ∧
        ⟨token, some next⟩ :: groups = gs := by
      simpa [read, hdash, hmem, Option.bind_eq_some_iff] using h
    obtain ⟨heq, hgroups, houtput⟩ := ih hrest
    refine ⟨congrArg (token :: next :: ·) heq, List.forall_mem_cons.mpr ⟨?_, hgroups⟩, houtput⟩
    exact isProper_value (by simpa [takesValue, hmem] using hdash)

end FlagGroup

open FlagGroup

/-- What a reader of the arguments after the program knows of a command. -/
structure CommandReading where
  globalFlags : List String
  inputs : List CommandInput
  filter : FilterClause
  outputFlags : List FlagGroup
  maps : List String
  output : String

namespace CommandReading

variable {gs before after : List FlagGroup} {flag : String}

/-- The inputs among groups of flags, each with the flags that precede it, and the groups after the
last of them. -/
def inputsOf : List FlagGroup → List CommandInput × List FlagGroup
  | [] => ([], [])
  | g :: rest =>
    match g.valueOf? "-i", inputsOf rest with
    | some path, (inputs, after) => (⟨path, []⟩ :: inputs, after)
    | none, ([], after) => ([], g :: after)
    | none, (input :: inputs, after) =>
      ({ input with flags := g.tokens ++ input.flags } :: inputs, after)

def valuesOf (flag : String) (groups : List FlagGroup) : List String :=
  groups.filterMap (·.valueOf? flag)

/-- The filters of a command: one graph, or at most one chain for each medium. -/
def filterOf (groups : List FlagGroup) : Option FilterClause :=
  match valuesOf "-filter_complex" groups, valuesOf "-vf" groups, valuesOf "-af" groups with
  | [], [], [] => some .none
  | [graph], [], [] => some (.graph graph)
  | [], [video], [] => some (.chain (some video) none)
  | [], [], [audio] => some (.chain none (some audio))
  | [], [video], [audio] => some (.chain (some video) (some audio))
  | _, _, _ => none

/-- Reads the arguments after the program. -/
def ofArguments (arguments : List String) : Option CommandReading :=
  match read arguments with
  | some (globalFlag :: groups, output) =>
    let (inputs, after) := inputsOf groups
    (filterOf after).map fun filter =>
      { globalFlags := globalFlag.tokens, inputs, filter, output
        outputFlags := after.filter fun g => !reserved.contains g.flag
        maps := valuesOf "-map" after }
  | _ => none

theorem inputsOf_cons {g : FlagGroup} (hg : g.flag ≠ "-i") : inputsOf (g :: gs) =
    match inputsOf gs with
    | ([], after) => ([], g :: after)
    | (input :: inputs, after) =>
      ({ input with flags := g.tokens ++ input.flags } :: inputs, after) := by
  rw [inputsOf, valueOf?_eq_none hg]
  rcases inputsOf gs with ⟨_ | ⟨input, inputs⟩, after⟩ <;> rfl

theorem inputsOf_eq_nil (h : ∀ g ∈ gs, g.flag ≠ "-i") : inputsOf gs = ([], gs) := by
  induction gs with
  | nil => rfl
  | cons g gs ih =>
    obtain ⟨hg, hgs⟩ := List.forall_mem_cons.mp h
    rw [inputsOf_cons hg, ih hgs]

theorem inputsOf_append_cons {path : String} (h : ∀ g ∈ gs, g.flag ≠ "-i") :
    inputsOf (gs ++ ⟨"-i", some path⟩ :: after) =
      (⟨path, gs.flatMap tokens⟩ :: (inputsOf after).1, (inputsOf after).2) := by
  induction gs with
  | nil => rfl
  | cons g gs ih =>
    obtain ⟨hg, hgs⟩ := List.forall_mem_cons.mp h
    rw [List.cons_append, inputsOf_cons hg, ih hgs]
    rfl

@[simp] theorem valuesOf_append :
    valuesOf flag (before ++ after) = valuesOf flag before ++ valuesOf flag after :=
  List.filterMap_append

theorem valuesOf_eq_nil (h : ∀ g ∈ gs, g.flag ≠ flag) : valuesOf flag gs = [] :=
  List.filterMap_eq_nil_iff.mpr fun g hg => valueOf?_eq_none (h g hg)

end CommandReading

namespace Descriptor

open CommandReading

variable {d : Descriptor} {argv : List String}

/-- What a reader is to know of a command. -/
def reading (d : Descriptor) : CommandReading where
  globalFlags := d.globalFlags
  inputs := d.inputs
  filter := d.filter
  outputFlags := ofTokens d.outputFlags
  maps := d.maps
  output := d.output

/-- A descriptor that puts every flag where a reader looks for it. -/
structure Legible (d : Descriptor) : Prop where
  globalFlags : ∃ flag ∈ standalone, d.globalFlags = [flag]
  inputs : ∀ input ∈ d.inputs, Spelled input.flags
  filter : d.filter ≠ .chain none none
  outputFlags : Spelled d.outputFlags
  output : Text.startsWith d.output "-" = false

def inputGroups (input : CommandInput) : List FlagGroup :=
  ofTokens input.flags ++ [⟨"-i", some input.path⟩]

def filterGroups : FilterClause → List FlagGroup
  | .none => []
  | .chain video? audio? =>
    (video?.map fun text => ⟨"-vf", some text⟩).toList ++
      (audio?.map fun text => ⟨"-af", some text⟩).toList
  | .graph text => [⟨"-filter_complex", some text⟩]

def mapGroups (maps : List String) : List FlagGroup := maps.map fun m => ⟨"-map", some m⟩

def outputGroups (d : Descriptor) : List FlagGroup :=
  filterGroups d.filter ++ ofTokens d.outputFlags ++ mapGroups d.maps

theorem flatMap_inputGroups (inputs : List CommandInput) :
    (inputs.flatMap inputGroups).flatMap tokens = inputs.flatMap inputTokens := by
  rw [List.flatMap_assoc]
  refine List.flatMap_congr fun input _ => ?_
  rw [inputGroups, List.flatMap_append, flatMap_ofTokens]
  rfl

theorem flatMap_filterGroups (filter : FilterClause) :
    (filterGroups filter).flatMap tokens = filterTokens filter := by
  cases filter with
  | none => rfl
  | chain video? audio? => cases video? <;> cases audio? <;> rfl
  | graph text => rfl

theorem flatMap_mapGroups (maps : List String) :
    (mapGroups maps).flatMap tokens = mapTokens maps := List.flatMap_map ..

theorem flatMap_outputGroups (d : Descriptor) :
    d.outputGroups.flatMap tokens = filterTokens d.filter ++ d.outputFlags ++ mapTokens d.maps := by
  rw [outputGroups, List.flatMap_append, List.flatMap_append, flatMap_filterGroups,
    flatMap_ofTokens, flatMap_mapGroups]

theorem argv_eq_groups {flag : String} (hglobal : d.globalFlags = [flag])
    (hargv : d.argv = .ok argv) :
    argv = d.binary :: ((⟨flag, none⟩ :: (d.inputs.flatMap inputGroups ++ d.outputGroups) :
      List FlagGroup).flatMap tokens ++ [d.output]) := by
  rw [Descriptor.argv] at hargv
  split at hargv
  · cases hargv
  · rw [← Except.ok.inj hargv, hglobal, List.flatMap_cons, List.flatMap_append,
      flatMap_inputGroups, flatMap_outputGroups]
    simp [tokens]

theorem isProper_filterGroups (filter : FilterClause) :
    ∀ g ∈ filterGroups filter, g.isProper = true := by
  have hgraph : takesValue "-filter_complex" = true := by decide
  have hvideo : takesValue "-vf" = true := by decide
  have haudio : takesValue "-af" = true := by decide
  cases filter with
  | none => exact nofun
  | chain video? audio? =>
    cases video? <;> cases audio? <;> simp [filterGroups, isProper_value, hvideo, haudio]
  | graph text => simp [filterGroups, isProper_value, hgraph]

theorem isProper_mapGroups (maps : List String) : ∀ g ∈ mapGroups maps, g.isProper = true :=
  List.forall_mem_map.mpr fun _ _ => isProper_value (by decide)

theorem mem_reserved_of_filterGroups {filter : FilterClause} :
    ∀ g ∈ filterGroups filter, g.flag ∈ ["-filter_complex", "-vf", "-af"] := by
  cases filter with
  | none => exact nofun
  | chain video? audio? => cases video? <;> cases audio? <;> simp [filterGroups]
  | graph text => simp [filterGroups]

section OutputGroups

variable (hflags : Spelled d.outputFlags)

include hflags

/-- Only where it has its place does a flag with a place of its own come after the inputs. -/
theorem valuesOf_outputGroups {flag : String} (hreserved : flag ∈ reserved) :
    valuesOf flag d.outputGroups =
      valuesOf flag (filterGroups d.filter) ++ valuesOf flag (mapGroups d.maps) := by
  have hown : valuesOf flag (ofTokens d.outputFlags) = [] :=
    valuesOf_eq_nil fun g hg heq => (hflags g hg).2 (heq ▸ hreserved)
  rw [outputGroups, valuesOf_append, valuesOf_append, hown, List.append_nil]

theorem inputsOf_outputGroups : inputsOf d.outputGroups = ([], d.outputGroups) := by
  refine inputsOf_eq_nil fun g hg heq => ?_
  obtain hg | hmap := List.mem_append.mp hg
  · obtain hfilter | hown := List.mem_append.mp hg
    · exact absurd (heq ▸ mem_reserved_of_filterGroups g hfilter) (by decide)
    · exact (hflags g hown).2 (heq ▸ by decide)
  · obtain ⟨m, -, rfl⟩ := List.mem_map.mp hmap
    have hne : "-map" ≠ "-i" := by decide
    exact hne heq

theorem maps_outputGroups : valuesOf "-map" d.outputGroups = d.maps := by
  have hfilter : valuesOf "-map" (filterGroups d.filter) = [] :=
    valuesOf_eq_nil fun g hg heq =>
      absurd (heq ▸ mem_reserved_of_filterGroups g hg) (by decide)
  rw [valuesOf_outputGroups hflags (by decide), hfilter, List.nil_append, valuesOf, mapGroups,
    List.filterMap_map]
  exact List.filterMap_some

theorem filterOf_outputGroups (hfilter : d.filter ≠ .chain none none) :
    filterOf d.outputGroups = some d.filter := by
  have hvalues {flag : String} (hreserved : flag ∈ reserved) (hmap : flag ≠ "-map") :
      valuesOf flag d.outputGroups = valuesOf flag (filterGroups d.filter) := by
    have hmaps : valuesOf flag (mapGroups d.maps) = [] :=
      valuesOf_eq_nil (List.forall_mem_map.mpr fun _ _ heq => hmap heq.symm)
    rw [valuesOf_outputGroups hflags hreserved, hmaps, List.append_nil]
  rw [filterOf, hvalues (by decide) (by decide), hvalues (by decide) (by decide),
    hvalues (by decide) (by decide)]
  cases hd : d.filter with
  | none => rfl
  | graph text => rfl
  | chain video? audio? =>
    cases video? with
    | some video => cases audio? <;> rfl
    | none =>
      cases audio? with
      | some audio => rfl
      | none => exact absurd hd hfilter

theorem filter_outputGroups :
    (d.outputGroups.filter fun g => !reserved.contains g.flag) = ofTokens d.outputFlags := by
  have hown : (ofTokens d.outputFlags).filter (fun g => !reserved.contains g.flag) =
      ofTokens d.outputFlags := by
    refine List.filter_eq_self.mpr fun g hg => ?_
    simpa using (hflags g hg).2
  have hfilter : (filterGroups d.filter).filter (fun g => !reserved.contains g.flag) = [] := by
    refine List.filter_eq_nil_iff.mpr fun g hg => ?_
    have hsubset : ["-filter_complex", "-vf", "-af"] ⊆ reserved := by decide
    simpa using hsubset (mem_reserved_of_filterGroups g hg)
  have hmaps : (mapGroups d.maps).filter (fun g => !reserved.contains g.flag) = [] :=
    List.filter_eq_nil_iff.mpr (List.forall_mem_map.mpr fun _ _ => by simp [reserved])
  rw [outputGroups, List.filter_append, List.filter_append, hfilter, hown, hmaps,
    List.nil_append, List.append_nil]

end OutputGroups

theorem inputsOf_inputGroups {inputs : List CommandInput} {after : List FlagGroup}
    (hinputs : ∀ input ∈ inputs, Spelled input.flags) (hafter : inputsOf after = ([], after)) :
    inputsOf (inputs.flatMap inputGroups ++ after) = (inputs, after) := by
  induction inputs with
  | nil => exact hafter
  | cons input inputs ih =>
    obtain ⟨hinput, hinputs⟩ := List.forall_mem_cons.mp hinputs
    have hne : ∀ g ∈ ofTokens input.flags, g.flag ≠ "-i" := fun g hg heq =>
      (hinput g hg).2 (heq ▸ by decide)
    rw [List.flatMap_cons, inputGroups, List.append_assoc, List.append_assoc, List.singleton_append,
      inputsOf_append_cons hne, ih hinputs, flatMap_ofTokens]

/-- The reader recovers a legible descriptor from its argument list. -/
theorem ofArguments_argv (h : d.Legible) (hargv : d.argv = .ok argv) :
    ∃ arguments, argv = d.binary :: arguments ∧ ofArguments arguments = some d.reading := by
  obtain ⟨flag, halone, hglobal⟩ := h.globalFlags
  have hinputs : ∀ g ∈ d.inputs.flatMap inputGroups, g.isProper = true := by
    intro g hg
    obtain ⟨input, hinput, hg⟩ := List.mem_flatMap.mp hg
    obtain hg | hg := List.mem_append.mp hg
    · exact (h.inputs input hinput g hg).1
    · rw [List.mem_singleton.mp hg]
      exact isProper_value (by decide)
  have houtputs : ∀ g ∈ d.outputGroups, g.isProper = true := by
    simp only [outputGroups, List.forall_mem_append]
    exact ⟨⟨isProper_filterGroups d.filter, fun g hg => (h.outputFlags g hg).1⟩,
      isProper_mapGroups d.maps⟩
  -- All groups are proper, so the reader finds them as they are, whatever their values.
  have hread := read_flatMap (List.forall_mem_cons.mpr ⟨isProper_alone halone,
    List.forall_mem_append.mpr ⟨hinputs, houtputs⟩⟩) h.output
  refine ⟨_, argv_eq_groups hglobal hargv, ?_⟩
  rw [ofArguments, hread]
  dsimp only
  rw [inputsOf_inputGroups h.inputs (inputsOf_outputGroups h.outputFlags)]
  dsimp only
  rw [filterOf_outputGroups h.outputFlags h.filter, filter_outputGroups h.outputFlags,
    maps_outputGroups h.outputFlags, reading, hglobal]
  rfl

end Descriptor

end SkillPipeline
