import SkillPipeline.CommandLine.Mentions
import SkillPipeline.CommandLine.Run

namespace SkillPipeline.Program

/-- What stands at a path. Only the start of a media file is read. -/
def nodeAt? (path : String) : IO (Option FileNode) := do
  try
    if (MediaKind.ofPath? path).isSome then
      let handle ← IO.FS.Handle.mk path .read
      let _ ← handle.read 1
      return some (.file "")
    else
      let bytes ← IO.FS.readBinFile path
      return some (.file ((String.fromUTF8? bytes).getD ""))
  catch
    | .inappropriateType .. => return some .directory
    | _ => return none

def takeIn (files : FileSystem) (names : List String) : IO FileSystem :=
  names.foldlM (fun files name => do
    match ← nodeAt? (files.resolve name) with
    | some node => return files.withNode name node
    | none => return files) files

/-- The text that is left on a stream. -/
partial def readAll (stream : IO.FS.Stream) (text : String) : IO String := do
  let line ← stream.getLine
  if line = "" then return text else readAll stream (text ++ line)

/-- The files that a run may look at. -/
def surroundingFiles (args : List String) (env : Environment) : IO FileSystem := do
  let workingDir := (← IO.getEnv "PWD").getD "/"
  let home := (← IO.getEnv "HOME").getD ""
  let named := Settings.fileName :: (env "SKILLC_CONFIG").toList
    ++ args.flatMap CommandLine.mentionedBy ++ Text.splitAt ':' ((env "SKILLC_SKILL_DIRS").getD "")
  let files ← takeIn { workingDir, home, nodes := [("/", .directory)] } (named.filter (· != ""))
  let texts := files.nodes.filterMap fun
    | (_, .file text) => some text
    | (_, .directory) => none
  takeIn files ((texts.flatMap CommandLine.mentionedIn).filter (· != ""))

end SkillPipeline.Program

open SkillPipeline in
/-- Takes in the files that the arguments and their contents mention, runs the command line on them,
and writes what comes of it. Directories are seen, but what is in them is not listed. -/
def main (args : List String) : IO UInt32 := do
  let names := ["LOG_LEVEL", "SKILLC_CONFIG", "SKILLC_SKILL_DIRS"]
  let values ← names.mapM fun name => do return (name, ← IO.getEnv name)
  let env : Environment := fun name => (values.lookup name).join
  let standardInput ← if args.contains "-" then Program.readAll (← IO.getStdin) "" else pure ""
  let files ← Program.surroundingFiles args env
  let outcome := CommandLine.run { files, env, standardInput } args
  for line in Notice.lines files.home outcome.level outcome.notices do
    IO.eprintln line
  IO.eprint outcome.err
  IO.print outcome.out
  return outcome.code.toUInt32
