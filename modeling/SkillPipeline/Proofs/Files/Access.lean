import SkillPipeline.Files.Access
import SkillPipeline.Proofs.Files.FileSystem
import SkillPipeline.Proofs.Outcome

namespace SkillPipeline

/-- The name ends in an extension which the purpose allows, in letters of any case, and something
comes before it. -/
def Purpose.Ends (purpose : Purpose) (name : String) : Prop :=
  ∃ stem word, stem ≠ "" ∧ name = stem ++ "." ++ word ∧ '.' ∉ word.toList ∧
    Text.lower ("." ++ word) ∈ purpose.extensions

namespace FileSystem

/-- Where an accepted path leads, from a working directory. -/
structure Confined (home : List String) (path : String) (purpose : Purpose)
    (parts : List String) : Prop where
  normal : Path.Normal parts
  ending : ∃ name, parts.getLast? = some name ∧ purpose.Ends name
  absolute : Path.isAbsolute path = true → parts = Path.names path
  relative : Path.isAbsolute path = false → parts = home ++ Path.names path

variable {fs : FileSystem} {path result : String} {purpose : Purpose} {mustExist : Bool}
  {home parts : List String}

theorem of_accept_eq_ok (h : fs.accept path purpose mustExist = .ok result) :
    Path.hasTraversal path = false ∧ Text.lower (Path.extension result) ∈ purpose.extensions ∧
      (mustExist = true → fs.isFile result = true) ∧ result = fs.resolve path := by
  unfold accept at h
  simp only at h
  split_ifs at h with hblank hnul htraversal hextension hmust
  · obtain rfl := Except.ok.inj h
    refine ⟨eq_false_of_ne_true htraversal, by simpa using hextension, fun htrue => ?_, rfl⟩
    rw [htrue] at hmust
    cases hmust
  · split at h
    · cases h
    · cases h
    · next node hnode =>
      split_ifs at h with hfile
      obtain rfl := Except.ok.inj h
      refine ⟨eq_false_of_ne_true htraversal, by simpa using hextension, fun _ => ?_, rfl⟩
      rw [isFile, lookUp_eq_some.mp hnode]
      exact hfile

theorem of_accept_eq_error {f : Fault} (h : fs.accept path purpose mustExist = .error f) :
    (∃ why, f = .sanitization path why) ∨ (mustExist = true ∧
      ∃ e, f = .exception (.system e) ∧ fs.lookUp (fs.resolve path) = .error e) := by
  unfold accept at h
  simp only at h
  split_ifs at h with _ _ _ _ hmust
  iterate 4 · exact .inl ⟨_, (Except.error.inj h).symm⟩
  split at h
  · next e hlook => exact .inr ⟨by simpa using hmust, e, (Except.error.inj h).symm, hlook⟩
  · exact .inl ⟨_, (Except.error.inj h).symm⟩
  · split_ifs at h
    exact .inl ⟨_, (Except.error.inj h).symm⟩

theorem of_acceptOutput_eq_error {f : Fault} (h : fs.acceptOutput path = .error f) :
    ∃ why, f = .sanitization path why := by
  obtain haccept | ⟨resolved, -, h⟩ := Outcome.bind_eq_error.mp h
  · exact (of_accept_eq_error haccept).resolve_right nofun
  · split at h
    · exact ⟨_, (Except.error.inj h).symm⟩
    · cases h

theorem ends_of_extension (hnormal : Path.Normal parts)
    (h : Text.lower (Path.extension (Path.ofSegments parts)) ∈ purpose.extensions) :
    ∃ name, parts.getLast? = some name ∧ purpose.Ends name := by
  have hnone : Text.lower "" ∉ purpose.extensions := by cases purpose <;> decide +kernel
  rw [Path.extension, Path.basename_ofSegments hnormal] at h
  -- No purpose allows a path without an extension, so there is a last name and it has one.
  cases hlast : parts.getLast? with
  | none =>
    rw [List.getLast?_eq_none_iff.mp hlast] at h
    exact absurd h hnone
  | some name =>
    rw [List.getLastD_eq_getLast?, hlast, Option.getD_some] at h
    have hsome : Path.extensionOf name.toList ≠ [] := by
      intro hnil
      rw [hnil] at h
      exact hnone h
    obtain ⟨stem, word, hstem, hname, hword, hextension⟩ := Path.exists_of_extensionOf hsome
    rw [hextension] at h
    refine ⟨name, rfl, String.ofList stem, String.ofList word, ?_, ?_, ?_, ?_⟩
    · simpa using hstem
    · rw [← String.toList_inj, hname]
      simp
    · simpa using hword
    · have hpoint : "." ++ String.ofList word = String.ofList ('.' :: word) := by
        rw [← String.toList_inj]
        simp
      rwa [hpoint]

theorem accept_spec (hhome : fs.workingDir = Path.ofSegments home) (hnormal : Path.Normal home)
    (h : fs.accept path purpose mustExist = .ok result) :
    ∃ parts, result = Path.ofSegments parts ∧ Confined home path purpose parts := by
  obtain ⟨htraversal, hextension, -, rfl⟩ := of_accept_eq_ok h
  have hnames := Path.normal_names htraversal
  rw [resolve, hhome, Path.resolve_eq hnormal htraversal] at hextension ⊢
  have hparts : Path.Normal
      (if Path.isAbsolute path then Path.names path else home ++ Path.names path) := by
    split
    · exact hnames
    · exact List.forall_mem_append.mpr ⟨hnormal, hnames⟩
  refine ⟨_, rfl, hparts, ends_of_extension hparts hextension, fun habsolute => ?_,
    fun hrelative => ?_⟩
  · rw [if_pos habsolute]
  · rw [if_neg (by simp [hrelative])]

theorem hasDrive_ofSegments (parts : List String) : hasDrive (Path.ofSegments parts) = false := by
  have hslash : (Path.ofSegments parts).toList = '/' :: (Text.join "/" parts).toList := by
    rw [Path.ofSegments, String.toList_append]
    rfl
  rw [hasDrive, hslash]
  split
  · next heq =>
    obtain ⟨rfl, -⟩ := List.cons.inj heq
    rfl
  · rfl

/-- A system directory has a normal path from the root, or does not start at the root at all. -/
theorem systemDirectories_normal : ∀ dir ∈ systemDirectories, Path.isAbsolute dir = true →
    dir = Path.ofSegments (Path.names dir) ∧ Path.names dir ≠ [] ∧
      Path.Normal (Path.names dir) := by
  decide +kernel

theorem isAbsolute_of_prefix {path start : String} (h : Path.isAbsolute path = true)
    (hstart : start.toList <+: path.toList) (hsome : start ≠ "") :
    Path.isAbsolute start = true := by
  have hlength : "/".toList.length ≤ start.toList.length :=
    List.length_pos_iff.mpr fun hnil => hsome (String.toList_eq_nil_iff.mp hnil)
  exact List.isPrefixOf_iff_prefix.mpr
    (List.prefix_of_prefix_length_le (List.isPrefixOf_iff_prefix.mp h) hstart hlength)

theorem isSystemPath_ofSegments (h : Path.Normal parts) :
    isSystemPath (Path.ofSegments parts) = true ↔
      ∃ dir ∈ systemDirectories, Path.isAbsolute dir = true ∧ Path.names dir <+: parts := by
  have habsolute : Path.isAbsolute (Path.ofSegments parts) = true :=
    List.isPrefixOf_iff_prefix.mpr ⟨_, String.toList_append.symm⟩
  have hempty : "" ∉ systemDirectories := by decide +kernel
  simp only [isSystemPath, hasDrive_ofSegments, Bool.false_eq_true, ↓reduceIte, List.any_eq_true,
    Bool.or_eq_true, beq_iff_eq]
  refine exists_congr fun dir => and_congr_right fun hdir => ?_
  constructor
  · intro hbelow
    have hstart : dir.toList <+: (Path.ofSegments parts).toList := by
      obtain heq | hstart := hbelow
      · exact heq ▸ List.prefix_refl _
      · exact (String.toList_append ▸ List.prefix_append ..).trans
          (List.isPrefixOf_iff_prefix.mp hstart)
    have hroot := isAbsolute_of_prefix habsolute hstart fun heq => hempty (heq ▸ hdir)
    obtain ⟨heq, hsome, hnormal⟩ := systemDirectories_normal dir hdir hroot
    rw [heq] at hbelow
    exact ⟨hroot, (Path.below_iff hnormal h hsome).mp hbelow⟩
  · rintro ⟨hroot, hprefix⟩
    obtain ⟨heq, hsome, hnormal⟩ := systemDirectories_normal dir hdir hroot
    rw [heq]
    exact (Path.below_iff hnormal h hsome).mpr hprefix

/-- From a working directory with a normal path: an accepted path is normal, ends in an extension
that its purpose allows, and has its own names, after those of the working directory where the path
is relative; it is the working directory itself only if the path has no names, which cannot be for
a file that must be there unless the working directory is one. An output is accepted if moreover
no system directory, of those with a path from the root, comes first in it. -/
theorem accept_confined (fs : FileSystem) (home : List String)
    (hhome : fs.workingDir = Path.ofSegments home) (hnormal : Path.Normal home) (path : String) :
    (∀ purpose mustExist result, fs.accept path purpose mustExist = .ok result →
      ∃ parts, result = Path.ofSegments parts ∧ Path.segments result = "" :: parts ∧
        Confined home path purpose parts ∧
          (mustExist = true → Path.isAbsolute path = false → fs.isFile fs.workingDir = false →
            Path.names path ≠ [])) ∧
      ∀ result, fs.acceptOutput path = .ok result ↔ fs.accept path .media false = .ok result ∧
        ∀ dir ∈ systemDirectories, Path.isAbsolute dir = true →
          ¬ Path.names dir <+: Path.names result := by
  constructor
  · intro purpose mustExist result h
    obtain ⟨parts, rfl, hconfined⟩ := accept_spec hhome hnormal h
    obtain ⟨name, hlast, -⟩ := hconfined.ending
    have hsome : parts ≠ [] := by
      rintro rfl
      cases hlast
    -- A relative path with no names of its own leads to the working directory, which is no file.
    refine ⟨parts, rfl, Path.segments_ofSegments hconfined.normal.no_slash hsome, hconfined,
      fun hmust hrelative hdir hnone => ?_⟩
    have hfile := (of_accept_eq_ok h).2.2.1 hmust
    rw [hconfined.relative hrelative, hnone, List.append_nil, ← hhome, hdir] at hfile
    cases hfile
  -- An output is accepted like any other path, and in no system directory.
  · intro result
    rw [acceptOutput, Outcome.bind_eq_ok]
    constructor
    · rintro ⟨accepted, haccept, h⟩
      obtain ⟨parts, rfl, hconfined⟩ := accept_spec hhome hnormal haccept
      split at h
      · cases h
      · next hfree =>
        obtain rfl := Except.ok.inj h
        refine ⟨haccept, fun dir hdir hroot hprefix => hfree ?_⟩
        rw [Path.names_ofSegments hconfined.normal] at hprefix
        exact (isSystemPath_ofSegments hconfined.normal).mpr ⟨dir, hdir, hroot, hprefix⟩
    · rintro ⟨haccept, hfree⟩
      obtain ⟨parts, rfl, hconfined⟩ := accept_spec hhome hnormal haccept
      refine ⟨_, haccept, if_neg fun hsystem => ?_⟩
      obtain ⟨dir, hdir, hroot, hprefix⟩ := (isSystemPath_ofSegments hconfined.normal).mp hsystem
      rw [Path.names_ofSegments hconfined.normal] at hfree
      exact hfree dir hdir hroot hprefix

/-- A working directory with one clip below it. -/
def clipFiles : FileSystem where
  workingDir := "/work"
  home := "/home"
  nodes := [("/work/clips/a.MP4", .file ""), ("/work/clips", .directory), ("/work", .directory)]

theorem accept_confined_clip : clipFiles.workingDir = Path.ofSegments ["work"] ∧
    Path.Normal ["work"] ∧
      clipFiles.accept "clips//./a.MP4" .media true = .ok "/work/clips/a.MP4" ∧
        Confined ["work"] "clips//./a.MP4" .media ["work", "clips", "a.MP4"] := by
  have hhome : clipFiles.workingDir = Path.ofSegments ["work"] := by decide +kernel
  have hnormal : Path.Normal ["work"] := by decide +kernel
  have haccept : clipFiles.accept "clips//./a.MP4" .media true = .ok "/work/clips/a.MP4" := by
    rfl
  obtain ⟨hpaths, -⟩ := accept_confined clipFiles ["work"] hhome hnormal "clips//./a.MP4"
  obtain ⟨parts, -, hsegments, hconfined, -⟩ := hpaths .media true _ haccept
  have hparts : Path.segments "/work/clips/a.MP4" = "" :: ["work", "clips", "a.MP4"] := by
    decide +kernel
  rw [hparts] at hsegments
  obtain ⟨-, rfl⟩ := List.cons.inj hsegments
  exact ⟨hhome, hnormal, haccept, hconfined⟩

/-- Neither does a relative path always lead below the working directory, nor is an output refused
wherever the names of a system directory come first: a working directory can itself be called like
a clip, and one whose name has a drive letter is a system directory only where paths start with
drives. -/
theorem not_accept_below :
    FileSystem.accept { clipFiles with workingDir := "/work.mp4" } "." .media false =
        .ok "/work.mp4" ∧
      clipFiles.acceptOutput "/C:\\Windows/x.mp4" = .ok "/C:\\Windows/x.mp4" ∧
        "C:\\Windows" ∈ systemDirectories ∧
          Path.names "C:\\Windows" <+: Path.names "/C:\\Windows/x.mp4" := by
  refine ⟨?_, ?_, by decide +kernel, by decide +kernel⟩
  · rfl
  · rfl

end FileSystem

end SkillPipeline
