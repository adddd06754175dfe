import SkillPipeline.Text.Basic

namespace SkillPipeline.Path

def isAbsolute (path : String) : Bool := Text.startsWith path "/"

def segments (path : String) : List String := Text.splitAt '/' path

/-- One more segment after a normal path, given in reverse. -/
def step (reversed : List String) (segment : String) : List String :=
  if segment = "" ∨ segment = "." then reversed
  else if segment = ".." then reversed.drop 1
  else segment :: reversed

def normalSegments (parts : List String) : List String := (parts.foldl step []).reverse

def ofSegments (parts : List String) : String := "/" ++ Text.join "/" parts

/-- The normal form of a path, seen from a working directory: absolute, with no empty segment, no
`.` and no `..`. -/
def resolve (workingDir path : String) : String :=
  ofSegments (normalSegments
    (if isAbsolute path then segments path else segments workingDir ++ segments path))

def basename (path : String) : String :=
  ((segments path).filter (· != "")).getLastD ""

def dirname (path : String) : String := ofSegments ((segments path).filter (· != "")).dropLast

/-- A name in a directory. Leading `..` of a relative directory stay. -/
def joinName (dir name : String) : String :=
  let parts := (segments dir).filter fun s => s != "" && s != "."
  let below := parts.foldl keepUp []
  let path := Text.join "/" (below.reverse ++ [name])
  if isAbsolute dir then "/" ++ path else path
where
  keepUp (reversed : List String) (segment : String) : List String :=
    if segment != ".." then segment :: reversed
    else match reversed with
      | [] => if isAbsolute dir then [] else [".."]
      | last :: rest => if last = ".." then ".." :: last :: rest else rest

/-- The characters from the last point on, if something other than points alone precedes it. -/
def extensionOf (name : List Char) : List Char :=
  let after := name.reverse.takeWhile (· != '.')
  let upTo := name.length - after.length
  if upTo ≤ 1 || name == ['.', '.'] then [] else name.drop (upTo - 1)

/-- The extension of the last segment, with its point; empty if there is none. A name that starts
with its only point has none. -/
def extension (path : String) : String := String.ofList (extensionOf (basename path).toList)

def hasTraversal (path : String) : Bool :=
  (Text.splitBy (fun c => c == '/' || c == '\\') path.toList).any (· == ['.', '.'])

end SkillPipeline.Path

namespace SkillPipeline

inductive FileNode where
  | file (text : String)
  | directory
  deriving DecidableEq, Repr

namespace FileNode

def isFile : FileNode → Bool
  | .file _ => true
  | .directory => false

def isDirectory : FileNode → Bool
  | .file _ => false
  | .directory => true

end FileNode

/-- What the system is asked of a path: what stands there, to open it, to read what is open, or to
list a directory. -/
inductive SystemCall where
  | stat
  | openFile
  | readFile
  | listDirectory
  deriving DecidableEq, Repr

def SystemCall.name : SystemCall → String
  | .stat => "stat"
  | .openFile => "open"
  | .readFile => "read"
  | .listDirectory => "scandir"

structure Refusal where
  code : String
  reason : String
  deriving DecidableEq, Repr

namespace Refusal

def noEntry : Refusal := ⟨"ENOENT", "no such file or directory"⟩

def notDirectory : Refusal := ⟨"ENOTDIR", "not a directory"⟩

def isDirectory : Refusal := ⟨"EISDIR", "illegal operation on a directory"⟩

def isAbsence (r : Refusal) : Bool := r.code == noEntry.code || r.code == notDirectory.code

end Refusal

/-- A call that failed. The path is the one given, not the one it resolves to. -/
structure SystemFailure where
  refusal : Refusal
  call : SystemCall
  path? : Option String
  deriving DecidableEq, Repr

def SystemFailure.message (f : SystemFailure) : String :=
  s!"{f.refusal.code}: {f.refusal.reason}, {f.call.name}"
    ++ (match f.path? with
      | some path => s!" '{path}'"
      | none => "")

structure FileSystem where
  workingDir : String
  home : String
  nodes : List (String × FileNode)
  /-- The calls on absolute paths that are refused for a reason of their own. -/
  refusal? : SystemCall → String → Option Refusal := fun _ _ => none

namespace FileSystem

def resolve (fs : FileSystem) (path : String) : String := Path.resolve fs.workingDir path

def reach (fs : FileSystem) (call : SystemCall) (path : String) : Except SystemFailure FileNode :=
  match fs.refusal? call (fs.resolve path) with
  | some refusal => .error ⟨refusal, call, some path⟩
  | none =>
    match fs.nodes.lookup (fs.resolve path) with
    | some node => .ok node
    | none => .error ⟨.noEntry, call, some path⟩

def stat (fs : FileSystem) (path : String) : Except SystemFailure FileNode := fs.reach .stat path

def exists? (fs : FileSystem) (path : String) : Bool := (fs.stat path).isOk

def isFile (fs : FileSystem) (path : String) : Bool :=
  match fs.stat path with
  | .ok node => node.isFile
  | .error _ => false

def isDirectory (fs : FileSystem) (path : String) : Bool :=
  match fs.stat path with
  | .ok node => node.isDirectory
  | .error _ => false

def lookUp (fs : FileSystem) (path : String) : Except SystemFailure (Option FileNode) :=
  match fs.stat path with
  | .ok node => .ok (some node)
  | .error f => if f.refusal.isAbsence then .ok none else .error f

def read (fs : FileSystem) (path : String) : Except SystemFailure String :=
  match fs.reach .openFile path with
  | .ok (.file text) => .ok text
  | .ok .directory => .error ⟨.isDirectory, .readFile, none⟩
  | .error f => .error f

def nameIn? (directory path : List String) : Option String :=
  if path.dropLast = directory then path.getLast? else none

def names (fs : FileSystem) (directory : String) : List String :=
  let parts := (Path.segments (fs.resolve directory)).filter (· != "")
  Text.sort (fs.nodes.filterMap fun (path, _) =>
    nameIn? parts ((Path.segments path).filter (· != "")))

def list (fs : FileSystem) (path : String) : Except SystemFailure (List String) :=
  match fs.reach .listDirectory path with
  | .ok .directory => .ok (fs.names path)
  | .ok (.file _) => .error ⟨.notDirectory, .listDirectory, some path⟩
  | .error f => .error f

/-- The paths at which something wanted stands. Each is looked at in turn. -/
def select (fs : FileSystem) (wanted : FileNode → Bool) :
    List String → Except SystemFailure (List String)
  | [] => .ok []
  | path :: rest => do
    let node ← fs.stat path
    let others ← fs.select wanted rest
    return if wanted node then path :: others else others

/-- The same files with one more, and with the directories above it. -/
def withNode (fs : FileSystem) (path : String) (node : FileNode) : FileSystem :=
  let path := fs.resolve path
  let parts := (Path.segments path).filter (· != "")
  let above := (List.range parts.length).map fun n => Path.ofSegments (parts.take n)
  let missing := above.filter fun dir => !fs.nodes.any (·.1 == dir)
  { fs with nodes := (path, node) :: fs.nodes.filter (·.1 != path)
      ++ missing.map fun dir => (dir, .directory) }

end FileSystem

end SkillPipeline
