import SkillPipeline.Fault
import SkillPipeline.Text.Basic

namespace SkillPipeline.FileSystem

/-- The absolute path of a file for a purpose. A path is refused if it is blank, holds a NUL, climbs
with `..`, has an extension that its purpose does not allow, or names no regular file where one must
be read; if the system refuses to look whether there is one, that is no refusal of the path but an
exception. -/
def accept (fs : FileSystem) (path : String) (purpose : Purpose) (mustExist : Bool := true) :
    Except Fault String :=
  let refuse (why : PathFault) : Except Fault String := .error (.sanitization path why)
  let resolved := fs.resolve path
  let extension := Text.lower (Path.extension resolved)
  if Text.isBlankText path then refuse (.empty purpose)
  else if path.toList.contains '\x00' then refuse (.nulCharacter purpose)
  else if Path.hasTraversal path then refuse .traversal
  else if !purpose.extensions.contains extension then refuse (.extension extension purpose)
  else if !mustExist then .ok resolved
  else match fs.lookUp resolved with
    | .error f => .error (.exception (.system f))
    | .ok none => refuse (.missing resolved)
    | .ok (some node) => if node.isFile then .ok resolved else refuse (.notAFile resolved)

/-- Directories that no output may land in. -/
def systemDirectories : List String :=
  ["/bin", "/boot", "/dev", "/etc", "/lib", "/lib64", "/proc", "/sbin", "/sys", "/usr",
   "/System", "/Library", "C:\\Windows", "C:\\Program Files", "C:\\Program Files (x86)"]

/-- Whether a path starts with a drive letter; such paths use backslashes and ignore case. -/
def hasDrive (path : String) : Bool :=
  match path.toList with
  | c :: ':' :: '\\' :: _ => c.isAlpha
  | _ => false

def isSystemPath (path : String) : Bool :=
  let drive := hasDrive path
  let fold (s : String) := if drive then Text.lower s else s
  let separator := if drive then "\\" else "/"
  systemDirectories.any fun dir =>
    fold path == fold dir || Text.startsWith (fold path) (fold dir ++ separator)

def acceptOutput (fs : FileSystem) (path : String) : Except Fault String := do
  let resolved ← fs.accept path .media false
  if isSystemPath resolved then .error (.sanitization path (.systemDirectory resolved))
  else .ok resolved

end SkillPipeline.FileSystem
