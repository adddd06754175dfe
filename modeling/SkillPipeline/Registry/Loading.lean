import SkillPipeline.Catalogue.Builtin
import SkillPipeline.Files.FileSystem
import SkillPipeline.Registry.Session

namespace SkillPipeline.Loading

variable [reader : SkillReader]

/-- Where skill files are found, and which handlers they may name. -/
structure Source where
  files : FileSystem
  known : String → Bool

def countOf (n : Nat) : Value := .number (Float.ofNat n)

def note (level : Level) (message : String) (fields : List (String × Value)) :
    StateM Session Unit := modify (·.note [{ level, message, fields }])

/-- What the system answers; a call that fails is an exception. -/
def answered {α : Type} (answer : Except SystemFailure α) : Work α :=
  match answer with
  | .ok a => pure a
  | .error f => throw (.exception (.system f))

def isYaml (name : String) : Bool :=
  [".yaml", ".yml"].contains (Text.lower (Path.extension name))

def yamlFiles (files : FileSystem) (dir : String) : Except SystemFailure (List String) := do
  files.select (·.isFile) (((← files.list dir).filter isYaml).map (Path.joinName dir))

def registerAll (path : String) (skills : List Skill) : StateM Session Unit :=
  skills.forM fun s => do
    modify (·.register s)
    note .info "Loaded custom skill" [("skill", .string s.name), ("source", .string path)]

/-- Registers the skills that the text of a file defines; their number. A file counts as a whole: if
one definition in it is invalid, none of it is registered, and the other files are loaded all the
same. -/
def registerText (source : Source) (path text : String) : StateM Session Nat := do
  match ← Session.defining (Skill.ofText source.known path text) with
  | .ok skills =>
    registerAll path skills
    return skills.length
  | .error f =>
    note .warn "Skipping invalid skill file"
      [("source", .string path), ("error", .string f.message)]
    return 0

def loadFile (source : Source) (path : String) : Work Nat := do
  let text ← answered (source.files.read path)
  registerText source path text

def loadFiles (source : Source) (paths : List String) : Work Nat := do
  return (← paths.mapM (loadFile source)).foldl (· + ·) 0

/-- The name that a pack gives itself in a file, unless that is unusable. -/
def readPackName (files : FileSystem) (path : String) : StateM Session (Option String) := do
  let unreadable (detail : String) : StateM Session (Option String) := do
    note .warn "Ignoring unreadable pack.yaml" [("source", .string path), ("error", .string detail)]
    return none
  match files.read path with
  | .error f => unreadable f.message
  | .ok text =>
    match reader.parse text with
    | none => unreadable yamlErrorText
    | some v =>
      match reader.pack v with
      | .ok name => return some name
      | .error issues =>
        note .warn "Ignoring invalid pack.yaml"
          [("source", .string path),
           ("error", .string (Text.join "; " (issues.map (·.text "(root)"))))]
        return none

def packFileNames : List String := ["pack.yaml", "pack.yml"]

def packFiles (files : FileSystem) (dir : String) : Except SystemFailure (List String) := do
  let skillsDir := Path.joinName dir "skills"
  if files.isDirectory skillsDir then yamlFiles files skillsDir
  else return (← yamlFiles files dir).filter fun path =>
    !packFileNames.contains (Path.basename path)

/-- The name of a pack: the one it gives itself, or else that of its directory. -/
def packName (files : FileSystem) (dir : String) : StateM Session String := do
  match (packFileNames.map (Path.joinName dir)).find? files.exists? with
  | some path => return (← readPackName files path).getD (Path.basename dir)
  | none => return Path.basename dir

def pack (source : Source) (dir : String) : Work Nat := do
  let name ← packName source.files dir
  let loaded ← loadFiles source (← answered (packFiles source.files dir))
  note .debug "Loaded skill pack" [("pack", .string name), ("skills", countOf loaded)]
  return loaded

/-- The packs in a directory, in ascending order; hidden ones do not count. -/
def packs (files : FileSystem) (dir : String) : Except SystemFailure (List String) := do
  files.select (·.isDirectory) (((← files.list dir).filter fun name =>
    !Text.startsWith name ".").map (Path.joinName dir))

/-- Loads a skill directory, which holds skill files and packs; the number of skills registered. A
path that cannot be looked at or read breaks the loading off; what has been registered by then
stays. -/
def directory (source : Source) (dir : String) : Work Nat := do
  if !source.files.isDirectory dir then
    note .warn "Skill directory not found" [("dir", .string dir)]
    return 0
  let single ← loadFiles source (← answered (yamlFiles source.files dir))
  let packed ← (← answered (packs source.files dir)).mapM (pack source)
  let total := single + packed.foldl (· + ·) 0
  if total > 0 then
    note .info "Loaded custom skills" [("dir", .string dir), ("count", countOf total)]
  return total

/-- The number of skills that loading has registered, also where it breaks off. -/
def counted (load : Work Nat) : StateM Session Nat := do
  let before := (← get).registry.revision
  match ← load.run with
  | .ok n => return n
  | .error _ => return (← get).registry.revision - before

def loadPack (source : Source) (dir : String) : StateM Session Nat := counted (pack source dir)

def loadDirectory (source : Source) (dir : String) : StateM Session Nat :=
  counted (directory source dir)

def problems : StateM Session (List String) := Session.reading Registry.verify

def startFrom (source : Source) (path : String) : Work Nat := do
  let text ← answered (source.files.read path)
  match ← Session.defining (Skill.ofText source.known path text) with
  | .error f => throw (.configuration f)
  | .ok skills =>
    skills.forM fun s => modify (·.register { s with source := "builtin" })
    return skills.length

/-- Registers the skills to start from, those of a directory or else the catalogue, and returns how
many they are. -/
def start (source : Source) : Option String → Work Nat
  | none => do
    Catalogue.builtin.forM fun s => modify (·.register s)
    return Catalogue.builtin.length
  | some dir => do
    let names ← answered (source.files.list dir)
    return (← ((names.filter isYaml).map (Path.joinName dir)).mapM (startFrom source)).foldl
      (· + ·) 0

/-- Fills a registry with the skills to start from and then with those of directories. The former
must all be sound; of the latter it is only said which cannot be expanded. -/
def fill (source : Source) (startDir? : Option String) (dirs : List String) : Work Unit := do
  let builtins ← start source startDir?
  let broken ← problems
  if !broken.isEmpty then throw (.configuration (.inconsistentCatalogue broken))
  dirs.forM fun dir => discard (directory source dir)
  let doubtful ← problems
  doubtful.forM fun problem =>
    note .warn "Sub-pipeline will fail to compile" [("problem", .string problem)]
  note .debug "Registry ready"
    [("builtins", countOf builtins), ("total", countOf (← get).registry.size)]

end SkillPipeline.Loading
