import Mathlib.Data.List.Infix
import Mathlib.Data.List.TakeWhile
import SkillPipeline.Files.FileSystem
import SkillPipeline.Proofs.Text.Basic

namespace SkillPipeline.Path

structure IsName (s : String) : Prop where
  nonempty : s ≠ ""
  ne_point : s ≠ "."
  ne_points : s ≠ ".."
  no_slash : '/' ∉ s.toList

instance (s : String) : Decidable (IsName s) :=
  decidable_of_iff (s ≠ "" ∧ s ≠ "." ∧ s ≠ ".." ∧ '/' ∉ s.toList)
    ⟨fun ⟨h₁, h₂, h₃, h₄⟩ => ⟨h₁, h₂, h₃, h₄⟩, fun ⟨h₁, h₂, h₃, h₄⟩ => ⟨h₁, h₂, h₃, h₄⟩⟩

/-- The segments of a path that has no empty segment, no `.` and no `..`. -/
def Normal (parts : List String) : Prop := ∀ s ∈ parts, IsName s

instance (parts : List String) : Decidable (Normal parts) :=
  inferInstanceAs (Decidable (∀ s ∈ parts, IsName s))

def leads (s : String) : Bool := s != "" && s != "."

/-- The segments of a path without those that are empty or `.`. -/
def names (path : String) : List String := (segments path).filter leads

variable {parts home more : List String} {path : String}

theorem IsName.leads {s : String} (h : IsName s) : leads s = true := by
  simp [Path.leads, h.nonempty, h.ne_point]

theorem isName_of_mem_segments {s : String} (h : s ∈ segments path) (hleads : leads s = true)
    (hpoints : s ≠ "..") : IsName s := by
  simp only [Path.leads, Bool.and_eq_true, bne_iff_ne, ne_eq] at hleads
  exact ⟨hleads.1, hleads.2, hpoints, Text.not_mem_of_mem_splitAt h⟩

theorem segments_join (h : ∀ s ∈ parts, '/' ∉ s.toList) (hsome : parts ≠ []) :
    segments (Text.join "/" parts) = parts := Text.splitAt_join rfl hsome h

theorem segments_ofSegments (h : ∀ s ∈ parts, '/' ∉ s.toList) (hsome : parts ≠ []) :
    segments (ofSegments parts) = "" :: parts := by
  have happend : segments ("" ++ "/" ++ Text.join "/" parts) =
      segments "" ++ segments (Text.join "/" parts) := Text.splitAt_append_cons rfl
  rw [String.empty_append, segments_join h hsome] at happend
  exact happend

theorem Normal.no_slash (h : Normal parts) : ∀ s ∈ parts, '/' ∉ s.toList :=
  fun s hs => (h s hs).no_slash

theorem filter_segments_ofSegments {p : String → Bool} (hempty : p "" = false)
    (hp : ∀ s ∈ parts, p s = true) (h : Normal parts) :
    (segments (ofSegments parts)).filter p = parts := by
  by_cases hsome : parts = []
  · subst hsome
    have hroot : segments (ofSegments []) = ["", ""] := by decide +kernel
    simp [hroot, hempty]
  · rw [segments_ofSegments h.no_slash hsome, List.filter_cons_of_neg (by simp [hempty]),
      List.filter_eq_self.mpr hp]

theorem names_ofSegments (h : Normal parts) : names (ofSegments parts) = parts :=
  filter_segments_ofSegments rfl (fun s hs => (h s hs).leads) h

theorem filter_ne_empty_ofSegments (h : Normal parts) :
    (segments (ofSegments parts)).filter (· != "") = parts :=
  filter_segments_ofSegments rfl (fun s hs => by simpa using (h s hs).nonempty) h

theorem basename_ofSegments (h : Normal parts) :
    basename (ofSegments parts) = parts.getLastD "" := by
  rw [basename, filter_ne_empty_ofSegments h]

theorem names_append (path rest : String) :
    names (path ++ "/" ++ rest) = names path ++ names rest := by
  rw [names, segments, Text.splitAt_append_cons rfl, List.filter_append]
  rfl

/-- A normal path is that of a directory or lies below it if the names of the directory come
first. -/
theorem below_iff {dir : List String} (hdir : Normal dir) (h : Normal parts) (hsome : dir ≠ []) :
    (ofSegments parts = ofSegments dir ∨
      Text.startsWith (ofSegments parts) (ofSegments dir ++ "/") = true) ↔ dir <+: parts := by
  constructor
  · rintro (heq | hstart)
    · rw [← names_ofSegments h, heq, names_ofSegments hdir]
    · obtain ⟨rest, hrest⟩ := List.isPrefixOf_iff_prefix.mp hstart
      have heq : ofSegments parts = ofSegments dir ++ "/" ++ String.ofList rest := by
        rw [← String.toList_inj, String.toList_append, String.toList_ofList, hrest]
      rw [← names_ofSegments h, heq, names_append, names_ofSegments hdir]
      exact List.prefix_append ..
  · rintro ⟨more, rfl⟩
    by_cases hmore : more = []
    · left
      rw [hmore, List.append_nil]
    · right
      refine List.isPrefixOf_iff_prefix.mpr ?_
      simp only [ofSegments, Text.join]
      rw [String.intercalate_append_of_ne_nil hsome hmore, ← String.append_assoc,
        ← String.append_assoc]
      exact ⟨_, String.toList_append.symm⟩

theorem step_of_not_leads {s : String} (h : ¬leads s = true) (reversed : List String) :
    step reversed s = reversed := by
  have hempty : s = "" ∨ s = "." := by
    by_contra hnot
    exact h (by simpa [leads] using hnot)
  rw [step, if_pos hempty]

theorem foldl_step (h : ".." ∉ parts) (reversed : List String) :
    parts.foldl step reversed = (parts.filter leads).reverse ++ reversed := by
  induction parts generalizing reversed with
  | nil => rfl
  | cons s rest ih =>
    obtain ⟨hs, hrest⟩ := not_or.mp (List.mem_cons.not.mp h)
    rw [List.foldl_cons, ih hrest]
    by_cases hleads : leads s = true
    · have hname : s ≠ "" ∧ s ≠ "." := by simpa [leads] using hleads
      rw [List.filter_cons_of_pos hleads, List.reverse_cons, List.append_assoc, step,
        if_neg (not_or.mpr hname), if_neg (Ne.symm hs), List.singleton_append]
    · rw [List.filter_cons_of_neg hleads, step_of_not_leads hleads]

theorem normalSegments_eq (h : ".." ∉ parts) : normalSegments parts = parts.filter leads := by
  rw [normalSegments, foldl_step h, List.append_nil, List.reverse_reverse]

/-- Where no segment between slashes or backslashes is `..`, none between slashes is. -/
theorem not_mem_segments (h : hasTraversal path = false) : ".." ∉ segments path := by
  intro hmem
  obtain ⟨part, hpart, heq⟩ := List.mem_map.mp hmem
  have hpoints := congrArg String.toList heq
  rw [String.toList_ofList] at hpoints
  obtain rfl : part = ['.', '.'] := hpoints
  have hfine : ['.', '.'] ∈ Text.splitBy (fun c => c == '/' || c == '\\') path.toList :=
    Text.mem_splitBy_of_finer (fun c hc => by simp [hc]) hpart (by simp)
  rw [hasTraversal, List.any_eq_false] at h
  exact h _ hfine rfl

theorem normal_names (h : hasTraversal path = false) : Normal (names path) := by
  intro s hs
  obtain ⟨hmem, hleads⟩ := List.mem_filter.mp hs
  exact isName_of_mem_segments hmem hleads fun heq => not_mem_segments h (heq ▸ hmem)

theorem resolve_eq (hhome : Normal home) (h : hasTraversal path = false) :
    resolve (ofSegments home) path =
      ofSegments (if isAbsolute path then names path else home ++ names path) := by
  have hpath := not_mem_segments h
  rw [resolve]
  split
  · rw [normalSegments_eq hpath, names]
  · have hdir : ".." ∉ segments (ofSegments home) := by
      by_cases hsome : home = []
      · rw [hsome]
        decide +kernel
      · rw [segments_ofSegments hhome.no_slash hsome]
        simpa using fun hmem => (hhome _ hmem).ne_points rfl
    rw [normalSegments_eq (by simpa using ⟨hdir, hpath⟩), List.filter_append,
      ← names, ← names, names_ofSegments hhome]

theorem exists_of_extensionOf {name : List Char} (hsome : extensionOf name ≠ []) :
    ∃ stem word, stem ≠ [] ∧ name = stem ++ '.' :: word ∧ '.' ∉ word ∧
      extensionOf name = '.' :: word := by
  -- The last point is the first one from behind.
  by_cases hpoint : '.' ∈ name.reverse
  · obtain ⟨later, earlier, hsplit, hlater⟩ := List.eq_append_cons_of_mem hpoint
    have hname : name = earlier.reverse ++ '.' :: later.reverse := by
      rw [← List.reverse_reverse name, hsplit]
      simp
    have hfree : ∀ c ∈ later, (c != '.') = true := by
      rintro c hc
      exact bne_iff_ne.mpr fun h => hlater (h ▸ hc)
    have hafter : name.reverse.takeWhile (· != '.') = later := by
      rw [hsplit, List.takeWhile_append_of_pos hfree]
      simp
    have hupTo : name.length - later.length = earlier.length + 1 := by
      rw [hname]
      simp only [List.length_append, List.length_reverse, List.length_cons]
      omega
    have hextension : extensionOf name = '.' :: later.reverse := by
      rw [extensionOf, hafter, hupTo] at hsome ⊢
      split
      · next hnone => exact absurd (if_pos hnone) hsome
      · rw [Nat.add_sub_cancel, hname, ← List.length_reverse, List.drop_left]
    refine ⟨earlier.reverse, later.reverse, ?_, hname, by simpa using hlater, hextension⟩
    rintro hstem
    rw [extensionOf, hafter, hupTo, List.reverse_eq_nil_iff.mp hstem] at hsome
    exact hsome rfl
  · have hafter : name.reverse.takeWhile (· != '.') = name.reverse :=
      List.takeWhile_eq_self_iff.mpr fun c hc => bne_iff_ne.mpr fun h => hpoint (h ▸ hc)
    rw [extensionOf, hafter, List.length_reverse, Nat.sub_self] at hsome
    exact absurd rfl hsome

variable {dir name : String}

theorem no_slash_of_mem_segments : ∀ s ∈ segments path, '/' ∉ s.toList :=
  fun _ hs => Text.not_mem_of_mem_splitAt hs

theorem mem_keepUp {reversed : List String} {s t : String}
    (h : t ∈ joinName.keepUp dir reversed s) : t = s ∨ t ∈ reversed := by
  unfold joinName.keepUp at h
  split at h
  · exact List.mem_cons.mp h
  · next hpoints =>
    obtain rfl : s = ".." := by simpa using hpoints
    cases reversed with
    | nil => cases hroot : isAbsolute dir <;> simp_all
    | cons last earlier =>
      simp only at h
      split at h
      · exact List.mem_cons.mp h
      · exact .inr (List.mem_cons_of_mem last h)

/-- The segments that joining a name to a directory writes before the name. -/
def kept (dir : String) : List String :=
  ((names dir).foldl (joinName.keepUp dir) []).reverse

theorem joinName_eq (dir name : String) : joinName dir name =
    if isAbsolute dir then ofSegments (kept dir ++ [name])
    else Text.join "/" (kept dir ++ [name]) := rfl

theorem mem_names_of_mem_kept {s : String} (h : s ∈ kept dir) : s ∈ names dir := by
  have hfold (parts reversed : List String) :
      ∀ s ∈ parts.foldl (joinName.keepUp dir) reversed, s ∈ parts ∨ s ∈ reversed := by
    induction parts generalizing reversed with
    | nil => exact fun s hs => .inr hs
    | cons t rest ih =>
      intro s hs
      obtain hrest | hkept := ih _ s hs
      · exact .inl (List.mem_cons_of_mem t hrest)
      · obtain rfl | hreversed := mem_keepUp hkept
        · exact .inl List.mem_cons_self
        · exact .inr hreversed
  exact (hfold _ _ s (List.mem_reverse.mp h)).resolve_right (by simp)

variable (hname : IsName name)
include hname

theorem no_slash_of_mem_join : ∀ s ∈ kept dir ++ [name], '/' ∉ s.toList := by
  refine List.forall_mem_append.mpr ⟨fun s hs => ?_, by simpa using hname.no_slash⟩
  exact no_slash_of_mem_segments s (List.mem_of_mem_filter (mem_names_of_mem_kept hs))

theorem filter_segments_joinName :
    (segments (joinName dir name)).filter (· != "") = kept dir ++ [name] := by
  have hself : (kept dir ++ [name]).filter (· != "") = kept dir ++ [name] := by
    refine List.filter_eq_self.mpr (List.forall_mem_append.mpr ⟨fun s hs => ?_, ?_⟩)
    · have hleads := (List.mem_filter.mp (mem_names_of_mem_kept hs)).2
      exact (Bool.and_eq_true_iff.mp hleads).1
    · simpa using hname.nonempty
  rw [joinName_eq]
  split
  · rw [segments_ofSegments (no_slash_of_mem_join hname) (by simp),
      List.filter_cons_of_neg (by simp), hself]
  · rw [segments_join (no_slash_of_mem_join hname) (by simp), hself]

theorem basename_joinName : basename (joinName dir name) = name := by
  rw [basename, filter_segments_joinName hname, List.getLastD_concat]

end SkillPipeline.Path

namespace SkillPipeline.FileSystem

variable {fs : FileSystem} {dir name : String}

/-- Something stands at the path, whether or not the system lets it be seen. -/
def Stands (fs : FileSystem) (path : String) : Prop :=
  ∃ entry ∈ fs.nodes, entry.1 = fs.resolve path

theorem lookup_isSome_iff (path : String) :
    (fs.nodes.lookup (fs.resolve path)).isSome = true ↔ fs.Stands path := by
  rw [List.lookup_isSome_iff]
  exact exists_congr fun entry => and_congr_right fun _ => beq_iff_eq.trans eq_comm

theorem reach_eq_ok {call : SystemCall} {path : String} {node : FileNode} :
    fs.reach call path = .ok node ↔
      fs.refusal? call (fs.resolve path) = none ∧
        fs.nodes.lookup (fs.resolve path) = some node := by
  rw [reach]
  cases fs.refusal? call (fs.resolve path) with
  | some refusal => simp
  | none => cases fs.nodes.lookup (fs.resolve path) <;> simp

theorem reach_eq_error {call : SystemCall} {path : String} {f : SystemFailure} :
    fs.reach call path = .error f ↔
      ∃ refusal, f = ⟨refusal, call, some path⟩ ∧
        (fs.refusal? call (fs.resolve path) = some refusal ∨
          fs.refusal? call (fs.resolve path) = none ∧ ¬fs.Stands path ∧ refusal = .noEntry) := by
  rw [reach, ← lookup_isSome_iff]
  cases fs.refusal? call (fs.resolve path) with
  | some other => simpa using eq_comm
  | none =>
    cases fs.nodes.lookup (fs.resolve path) with
    | some node => simp
    | none => simpa using eq_comm

theorem lookUp_eq_some {path : String} {node : FileNode} :
    fs.lookUp path = .ok (some node) ↔ fs.stat path = .ok node := by
  rw [lookUp]
  cases fs.stat path with
  | ok other => simp
  | error f => cases h : f.refusal.isAbsence <;> simp [h]

/-- Looking up fails only where the system refuses to look, for another reason than that nothing is
there. -/
theorem lookUp_eq_error {path : String} {f : SystemFailure} :
    fs.lookUp path = .error f ↔ fs.refusal? .stat (fs.resolve path) = some f.refusal ∧
      f.refusal.isAbsence = false ∧ f = ⟨f.refusal, .stat, some path⟩ := by
  -- That nothing is there is an answer of its own, and every other refusal is passed on.
  have hstat : fs.lookUp path = .error f ↔
      fs.stat path = .error f ∧ f.refusal.isAbsence = false := by
    rw [lookUp]
    cases fs.stat path with
    | ok node => simp
    | error other =>
      dsimp only
      by_cases h : other.refusal.isAbsence = true
      · rw [if_pos h]
        refine iff_of_false nofun fun ⟨heq, hseen⟩ => ?_
        rw [← Except.error.inj heq, h] at hseen
        cases hseen
      · rw [if_neg h]
        constructor
        · intro heq
          obtain rfl := Except.error.inj heq
          exact ⟨rfl, eq_false_of_ne_true h⟩
        · rintro ⟨heq, -⟩
          rw [Except.error.inj heq]
  rw [hstat, stat, reach_eq_error]
  constructor
  · rintro ⟨⟨refusal, rfl, hrefused | ⟨-, -, rfl⟩⟩, hseen⟩
    · exact ⟨hrefused, hseen, rfl⟩
    · cases hseen
  · rintro ⟨hrefused, hseen, heq⟩
    exact ⟨⟨f.refusal, heq, .inl hrefused⟩, hseen⟩

end SkillPipeline.FileSystem
