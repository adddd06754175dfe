import SkillPipeline.Proofs.Files.FileSystem
import SkillPipeline.Proofs.Outcome
import SkillPipeline.Proofs.Work
import SkillPipeline.Registry.Loading

namespace SkillPipeline.Logged

variable {ε α β : Type} {w : Logged ε α} {k : α → Logged ε β}

/-- What was noted before has no bearing on the outcome. -/
def Steady (w : Logged ε α) : Prop := ∀ before, (w.run.run before).1 = w.outcome.1

theorem Steady.run_bind (hw : Steady w) (hk : ∀ a, Steady (k a)) (before : List Notice) :
    ((w >>= k).run.run before).1 = w.outcome.1 >>= fun a => (k a).outcome.1 := by
  have hfirst := hw before
  rw [ExceptT.run_bind, StateT.run_bind, ← hfirst]
  cases hrun : w.run.run before with
  | mk result between =>
    cases result with
    | error e => rfl
    | ok a => exact hk a between

theorem Steady.outcome_bind (hw : Steady w) (hk : ∀ a, Steady (k a)) :
    (w >>= k).outcome.1 = w.outcome.1 >>= fun a => (k a).outcome.1 := hw.run_bind hk []

theorem Steady.bind (hw : Steady w) (hk : ∀ a, Steady (k a)) : Steady (w >>= k) :=
  fun before => (hw.run_bind hk before).trans (hw.outcome_bind hk).symm

end SkillPipeline.Logged

namespace SkillPipeline

end SkillPipeline

namespace SkillPipeline.Loading

/-- A YAML file of this name is directly in the directory. -/
structure IsSkillFile (files : FileSystem) (dir name : String) : Prop where
  isName : Path.IsName name
  yaml : isYaml name = true
  file : files.isFile (Path.joinName dir name) = true

/-- A directory of this name, which is not hidden, is directly in the directory. -/
structure IsPack (files : FileSystem) (dir name : String) : Prop where
  isName : Path.IsName name
  visible : Text.startsWith name "." = false
  directory : files.isDirectory (Path.joinName dir name) = true

/-- The system refuses to list a directory, or a look at what stands there under a candidate
name. -/
def Refuses (files : FileSystem) (dir : String) (candidate : String → Prop) (e : SystemFailure) :
    Prop :=
  files.list dir = .error e ∨ ∃ name, Path.IsName name ∧ candidate name ∧
    files.Stands (Path.joinName dir name) ∧ files.stat (Path.joinName dir name) = .error e

/-- The paths of what is in a directory under names of a kind, in ascending order of the names. No
look at the candidates is refused. -/
def Lists (files : FileSystem) (dir : String) (candidate kind : String → Prop)
    (paths : List String) : Prop :=
  (∀ e, ¬Refuses files dir candidate e) ∧ ∃ names : List String,
    names.Pairwise (fun a b => Text.before a b = true) ∧ (∀ name, name ∈ names ↔ kind name) ∧
      paths = names.map (Path.joinName dir)

/-- The paths of the skill files directly in a directory. -/
def ListsFiles (files : FileSystem) (dir : String) : List String → Prop :=
  Lists files dir (isYaml · = true) (IsSkillFile files dir)

def ListsPacks (files : FileSystem) (dir : String) : List String → Prop :=
  Lists files dir (Text.startsWith · "." = false) (IsPack files dir)

/-- The skill files of a pack: those in its folder `skills` or, if it has no such folder, its own,
without the one that says what it is called. -/
def PackLists (files : FileSystem) (dir : String) (paths : List String) : Prop :=
  if files.isDirectory (Path.joinName dir "skills") then
    ListsFiles files (Path.joinName dir "skills") paths
  else
    Lists files dir (isYaml · = true)
      (fun name => IsSkillFile files dir name ∧ name ≠ "pack.yaml" ∧ name ≠ "pack.yml") paths

/-- The system refuses a look at the skill files of a pack. -/
def PackRefuses (files : FileSystem) (dir : String) (e : SystemFailure) : Prop :=
  if files.isDirectory (Path.joinName dir "skills") then
    Refuses files (Path.joinName dir "skills") (isYaml · = true) e
  else Refuses files dir (isYaml · = true) e

variable {source : Source} {files : FileSystem} {dir path name : String} {e : SystemFailure}

variable {candidate kind other : String → Prop} {paths : List String}

theorem Lists.congr (h : Lists files dir candidate kind paths)
    (hkind : ∀ name, kind name ↔ other name) : Lists files dir candidate other paths := by
  rwa [show other = kind from funext fun name => propext (hkind name).symm]

theorem Lists.filter (h : Lists files dir candidate kind paths) (test : String → Bool)
    (hisName : ∀ name, kind name → Path.IsName name) :
    Lists files dir candidate (fun name => kind name ∧ test name = true)
      (paths.filter fun path => test (Path.basename path)) := by
  obtain ⟨hseen, names, hascending, hnames, rfl⟩ := h
  refine ⟨hseen, names.filter test, hascending.filter _, fun name => ?_, ?_⟩
  · rw [List.mem_filter, hnames]
  · rw [List.filter_map]
    refine congrArg _ (List.filter_congr fun name hname => ?_)
    exact congrArg test (Path.basename_joinName (hisName name ((hnames name).mp hname)))

theorem stat_of_isDirectory (h : files.isDirectory path = true) :
    files.stat path = .ok .directory := by
  rw [FileSystem.isDirectory] at h
  split at h
  · next node hstat =>
    cases node with
    | file text => cases h
    | directory => exact hstat
  · cases h

/-- A directory whose calls are not refused is listed, and what stands in it can be looked at. -/
theorem not_refuses {kind : String → Prop} (h : ∀ call path, files.refusal? call path = none)
    (hdir : files.isDirectory dir = true) : ¬Refuses files dir kind e := by
  rintro (hlist | ⟨name, -, -, hstands, hstat⟩)
  · have hreach : files.reach .listDirectory dir = .ok .directory :=
      FileSystem.reach_eq_ok.mpr
        ⟨h _ _, (FileSystem.reach_eq_ok.mp (stat_of_isDirectory hdir)).2⟩
    rw [FileSystem.list, hreach] at hlist
    cases hlist
  · rw [← FileSystem.lookup_isSome_iff] at hstands
    obtain ⟨node, hnode⟩ := Option.isSome_iff_exists.mp hstands
    cases hstat.symm.trans (FileSystem.reach_eq_ok.mpr ⟨h .stat _, hnode⟩)

/-- One thing after the other is loaded, up to the one at which loading breaks off. -/
inductive InTurn {α : Type} (P : α → List Skill → Option SystemFailure → Prop) :
    List α → List Skill → Option SystemFailure → Prop
  | done : InTurn P [] [] none
  | next {a : α} {rest : List α} {skills more : List Skill} {stop? : Option SystemFailure}
      (first : P a skills none) (others : InTurn P rest more stop?) :
      InTurn P (a :: rest) (skills ++ more) stop?
  | stop {a : α} {rest : List α} {skills : List Skill} {e : SystemFailure}
      (last : P a skills (some e)) : InTurn P (a :: rest) skills (some e)

theorem InTurn.exists_stop {α : Type} {P : α → List Skill → Option SystemFailure → Prop}
    {l : List α} {skills : List Skill} {stop? : Option SystemFailure} (h : InTurn P l skills stop?)
    {e : SystemFailure} (hstop : stop? = some e) : ∃ a ∈ l, ∃ skills, P a skills (some e) := by
  induction h with
  | done => cases hstop
  | next first others ih =>
    obtain ⟨a, hmem, skills, hlast⟩ := ih hstop
    exact ⟨a, List.mem_cons_of_mem _ hmem, skills, hlast⟩
  | stop last =>
    obtain rfl := Option.some.inj hstop
    exact ⟨_, List.mem_cons_self, _, last⟩

/-- Work that registers these skills one after the other, in whatever session, and returns how many
they are, or breaks off at the failure. -/
def Registers (work : Work Nat) (skills : List Skill) (stop? : Option SystemFailure) : Prop :=
  ∀ s, (work.run.run s).2.registry = skills.foldl Registry.register s.registry ∧
    (work.run.run s).1 = match stop? with
      | none => .ok skills.length
      | some e => .error (.exception (.system e))

def Silent {α : Type} (work : StateM Session α) : Prop :=
  ∀ s, (work.run s).2.registry = s.registry

section

variable {α : Type} {skills more : List Skill} {stop? : Option SystemFailure} {v w : Work Nat}

theorem Silent.bind {β : Type} {w : StateM Session α} {f : α → StateM Session β} (hw : Silent w)
    (hf : ∀ a, Silent (f a)) : Silent (w >>= f) := by
  intro s
  rw [StateT.run_bind]
  exact (hf _ _).trans (hw s)

theorem run_liftM (w : StateM Session α) (s : Session) :
    (liftM w : Work α).run.run s = (.ok (w.run s).1, (w.run s).2) := rfl

theorem Silent.before {w : StateM Session α} {k : α → Work Nat} (hw : Silent w)
    (hk : ∀ a, Registers (k a) skills stop?) : Registers (liftM w >>= k) skills stop? := by
  intro s
  obtain ⟨hregistry, hanswer⟩ := hk (w.run s).1 (w.run s).2
  rw [hw s] at hregistry
  rw [ExceptT.run_bind, Work.run_bind_eq (run_liftM w s)]
  exact ⟨hregistry, hanswer⟩

theorem Registers.stop {k : Nat → Work Nat} {e : SystemFailure} (hv : Registers v skills (some e)) :
    Registers (v >>= k) skills (some e) := by
  intro s
  obtain ⟨hregistry, hanswer⟩ := hv s
  rw [ExceptT.run_bind, Work.run_bind_eq (Prod.ext hanswer rfl)]
  exact ⟨hregistry, rfl⟩

theorem Registers.bind {k : Nat → Work Nat} (hv : Registers v skills none)
    (hk : ∀ s, ((k skills.length).run.run s).2.registry = more.foldl Registry.register s.registry ∧
      ((k skills.length).run.run s).1 = match stop? with
        | none => .ok (skills ++ more).length
        | some e => .error (.exception (.system e))) :
    Registers (v >>= k) (skills ++ more) stop? := by
  intro s
  obtain ⟨hregistry, hanswer⟩ := hv s
  obtain ⟨hlast, htotal⟩ := hk (v.run.run s).2
  rw [ExceptT.run_bind, Work.run_bind_eq (Prod.ext hanswer rfl), List.foldl_append, ← hregistry]
  exact ⟨hlast, htotal⟩

theorem Registers.add (hv : Registers v skills none) (hw : Registers w more stop?) :
    Registers (do return (← v) + (← w)) (skills ++ more) stop? := by
  refine hv.bind fun s => ?_
  obtain ⟨hregistry, hanswer⟩ := hw s
  rw [bind_pure_comp, Work.run_map, hregistry, hanswer]
  refine ⟨rfl, ?_⟩
  cases stop? with
  | none => rw [List.length_append]; rfl
  | some e => rfl

theorem Registers.noted {k : Nat → StateM Session Unit} (hv : Registers v skills stop?)
    (hk : ∀ n, Silent (k n)) : Registers (do let n ← v; k n; return n) skills stop? := by
  cases stop? with
  | some e => exact hv.stop
  | none =>
    rw [← List.append_nil skills]
    refine hv.bind fun s => ⟨hk _ s, ?_⟩
    rw [List.append_nil]
    rfl

end

section

variable [reader : SkillReader]

/-- A text is a document of entries each of which defines a skill. -/
def Defines (source : Source) (path text : String) (skills : List Skill) : Prop :=
  ∃ v entries, reader.parse text = some v ∧ SkillEntry.ofFile? v = some entries ∧
    List.Forall₂
      (fun entry skill => (Skill.ofDocument source.known path entry).outcome.1 = .ok skill)
      entries skills

/-- What comes of loading a file: all of its skills are registered, none if it is invalid, and if it
cannot be read loading breaks off. -/
inductive LoadsFile (source : Source) (path : String) : List Skill → Option SystemFailure → Prop
  | valid {text : String} {skills : List Skill} (read : source.files.read path = .ok text)
      (defines : Defines source path text skills) : LoadsFile source path skills none
  | invalid {text : String} (read : source.files.read path = .ok text)
      (undefined : ∀ skills, ¬Defines source path text skills) : LoadsFile source path [] none
  | unread {e : SystemFailure} (unread : source.files.read path = .error e) :
      LoadsFile source path [] (some e)

inductive LoadsPack (source : Source) (dir : String) : List Skill → Option SystemFailure → Prop
  | listed {paths : List String} {skills : List Skill} {stop? : Option SystemFailure}
      (lists : PackLists source.files dir paths)
      (loads : InTurn (LoadsFile source) paths skills stop?) : LoadsPack source dir skills stop?
  | refused {e : SystemFailure} (refuses : PackRefuses source.files dir e) :
      LoadsPack source dir [] (some e)

/-- What comes of loading a directory: its own files are loaded, and then its packs. -/
inductive Loads (source : Source) (dir : String) : List Skill → Option SystemFailure → Prop
  | absent (absent : source.files.isDirectory dir = false) : Loads source dir [] none
  | refused {e : SystemFailure} (directory : source.files.isDirectory dir = true)
      (refuses : Refuses source.files dir (isYaml · = true) e) : Loads source dir [] (some e)
  | broken {own : List String} {skills : List Skill} {e : SystemFailure}
      (directory : source.files.isDirectory dir = true)
      (files : ListsFiles source.files dir own)
      (loads : InTurn (LoadsFile source) own skills (some e)) : Loads source dir skills (some e)
  | refusedPacks {own : List String} {skills : List Skill} {e : SystemFailure}
      (directory : source.files.isDirectory dir = true)
      (files : ListsFiles source.files dir own)
      (loads : InTurn (LoadsFile source) own skills none)
      (refuses : Refuses source.files dir (Text.startsWith · "." = false) e) :
      Loads source dir skills (some e)
  | listed {own packs : List String} {skills more : List Skill} {stop? : Option SystemFailure}
      (directory : source.files.isDirectory dir = true)
      (files : ListsFiles source.files dir own)
      (loads : InTurn (LoadsFile source) own skills none)
      (directories : ListsPacks source.files dir packs)
      (loadsPacks : InTurn (LoadsPack source) packs more stop?) :
      Loads source dir (skills ++ more) stop?

variable {source : Source} {dir path : String}

variable {e : SystemFailure} {skills : List Skill}

theorem not_unread (h : ∀ call path, source.files.refusal? call path = none)
    (hfile : source.files.isFile path = true) : ¬LoadsFile source path skills (some e) := by
  rintro ⟨⟩
  next hread =>
    rw [FileSystem.isFile] at hfile
    split at hfile
    · next node hstat =>
      cases node with
      | directory => cases hfile
      | file text =>
        have hreach : source.files.reach .openFile path = .ok (.file text) :=
          FileSystem.reach_eq_ok.mpr ⟨h _ _, (FileSystem.reach_eq_ok.mp hstat).2⟩
        rw [FileSystem.read, hreach] at hread
        cases hread
    · cases hfile

theorem not_stops {candidate kind : String → Prop} {paths : List String}
    (h : ∀ call path, source.files.refusal? call path = none)
    (hlists : Lists source.files dir candidate kind paths)
    (hkind : ∀ name, kind name → IsSkillFile source.files dir name) :
    ¬InTurn (LoadsFile source) paths skills (some e) := by
  intro hloads
  obtain ⟨path, hpath, skills, hlast⟩ := hloads.exists_stop rfl
  obtain ⟨-, names, -, hnames, rfl⟩ := hlists
  obtain ⟨name, hname, rfl⟩ := List.mem_map.mp hpath
  exact not_unread h (hkind name ((hnames name).mp hname)).file hlast

theorem not_pack_stops (h : ∀ call path, source.files.refusal? call path = none)
    (hdir : source.files.isDirectory dir = true) : ¬LoadsPack source dir skills (some e) := by
  intro hloads
  cases hloads with
  | listed lists loads =>
    rw [PackLists] at lists
    split at lists
    · exact not_stops h lists (fun _ hname => hname) loads
    · exact not_stops h lists (fun _ hname => hname.1) loads
  | refused refuses =>
    rw [PackRefuses] at refuses
    split at refuses
    · next hskills => exact not_refuses h hskills refuses
    · exact not_refuses h hdir refuses

theorem Loads.complete {stop? : Option SystemFailure} (hloads : Loads source dir skills stop?)
    (h : ∀ call path, source.files.refusal? call path = none) : stop? = none := by
  cases hloads with
  | absent => rfl
  | refused directory refuses => exact absurd refuses (not_refuses h directory)
  | broken directory lists loads => exact absurd loads (not_stops h lists fun _ hname => hname)
  | refusedPacks directory _ _ refuses => exact absurd refuses (not_refuses h directory)
  | listed directory _ _ directories loadsPacks =>
    refine Option.eq_none_iff_forall_ne_some.mpr fun e hstop => ?_
    obtain ⟨pack, hpack, skills, hlast⟩ := loadsPacks.exists_stop hstop
    obtain ⟨-, names, -, hnames, rfl⟩ := directories
    obtain ⟨name, hname, rfl⟩ := List.mem_map.mp hpack
    exact not_pack_stops h ((hnames name).mp hname).directory hlast

end

end SkillPipeline.Loading
