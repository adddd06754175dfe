import SkillPipeline.Text.Basic
import SkillPipeline.Document.Json.Printer

namespace SkillPipeline.Journal

/-- The home directory is written `~` wherever it occurs, so no log line names the account; the root
is no home. -/
def redactChars (home s : List Char) : List Char :=
  if home = [] ∨ home = ['/'] then s else Text.replaceAll home ['~'] s

def redact (home s : String) : String := String.ofList (redactChars home.toList s.toList)

end SkillPipeline.Journal

namespace SkillPipeline

inductive Level where
  | debug
  | info
  | warn
  | error
  deriving DecidableEq, Repr

namespace Level

def name : Level → String
  | .debug => "debug"
  | .info => "info"
  | .warn => "warn"
  | .error => "error"

def rank : Level → Nat
  | .debug => 0
  | .info => 1
  | .warn => 2
  | .error => 3

def ofName? (s : String) : Option Level := [debug, info, warn, error].find? (·.name == s)

end Level

structure Notice where
  level : Level
  message : String
  fields : List (String × Value) := []

namespace Notice

/-- What is said of a notice: its level, the time if there is a clock, its message with the home
directory redacted, and its fields. A field takes the place of what has its name. -/
def document (home : String) (n : Notice) (time? : Option Instant) : Value :=
  .object (Members.ofList (("level", .string n.level.name) ::
    (time?.map fun t => ("ts", Value.string t.isoText)).toList ++
      ("msg", .string (Journal.redact home n.message)) :: n.fields))

def line (home : String) (n : Notice) (time? : Option Instant := none) : String :=
  Journal.redact home (Json.print (n.document home time?))

def lines (home : String) (level : Level) (notices : List Notice) : List String :=
  (notices.filter fun n => level.rank ≤ n.level.rank).map fun n => n.line home

end Notice

end SkillPipeline

namespace SkillPipeline

abbrev Logged (ε : Type) := ExceptT ε (StateM (List Notice))

namespace Logged

variable {ε α : Type}

def note (notices : List Notice) : Logged ε Unit := modify (· ++ notices)

def outcome (work : Logged ε α) : Except ε α × List Notice := (ExceptT.run work).run []

end Logged

end SkillPipeline
