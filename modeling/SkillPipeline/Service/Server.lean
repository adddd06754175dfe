import SkillPipeline.Registry.Loading
import SkillPipeline.Service.Routes
import SkillPipeline.Settings

namespace SkillPipeline.Service

/-- What the caller fixes; the rest comes from the environment and from the settings. -/
structure Options where
  host? : Option String := none
  port? : Option Float := none
  settings? : Option Settings := none

structure Server where
  host : String
  port : Float
  compiler : Compiler

/-- The integer that a text starts with, white space in front aside; otherwise no number. -/
def leadingInteger (s : String) : Float :=
  let (negative, digits) := match Text.trimLeft s.toList with
    | '-' :: rest => (true, rest)
    | '+' :: rest => (false, rest)
    | rest => (false, rest)
  match Number.radixValue 10 (digits.takeWhile Number.isDigit) with
  | none => 0 / 0
  | some n =>
    let x := Number.Decimal.toFloat ⟨n, 0⟩
    if negative then -x else x

/-- The port: what the caller fixes, else that of the environment, else that of the settings. -/
def portOf (options : Options) (settings : Settings) (env : Environment) : Float :=
  options.port?.getD (((env "SKILLC_API_PORT").map leadingInteger).getD settings.port)

def hostOf (options : Options) (settings : Settings) (env : Environment) : String :=
  (options.host?.or (env "SKILLC_API_HOST")).getD settings.host

def exposure (host : String) : List Notice :=
  if loopbackHosts.contains host then []
  else [{ level := .warn
          message := "Non-loopback bind requested; the compile API has no authentication."
          fields := [("host", .string host)] }]

/-- Sets up the service. With `load` it fills its own registry; otherwise it takes over that of the
session. -/
def create (files : FileSystem) (env : Environment) (options : Options) (load : Bool) :
    Work Server := do
  let settings ← match options.settings? with
    | some s => pure s
    | none =>
      match Settings.load files files.workingDir none env with
      | .ok s => pure s
      | .error f => throw (.configuration f)
  let host := hostOf options settings env
  modify (·.note (exposure host))
  if load then
    Loading.fill ⟨files, HandlerTable.builtin.has⟩ none settings.skillDirs
  return { host, port := portOf options settings env,
           compiler := { defaults := settings.defaults, files } }

end SkillPipeline.Service
