import SkillPipeline.Document.Value
import SkillPipeline.Files.FileSystem
import SkillPipeline.Files.Media
import SkillPipeline.Number.Notation

namespace SkillPipeline

/-- Why a value does not fit a parameter. Values are given as messages show them. -/
inductive Rejection where
  | notInteger (shown : String)
  | notNumber (shown : String)
  | belowMinimum (minimum got : Float)
  | aboveMaximum (maximum got : Float)
  | negativeSeconds
  | notClock (text : String)
  | notTime
  | notBoolean (shown : String)
  | notText
  | notColor (shown : String)
  | notChoiceText (choices : List String)
  | notChoice (text : String) (choices : List String)

namespace Rejection

def reason : Rejection → String
  | .notInteger shown => s!"must be an integer (got {shown})"
  | .notNumber shown => s!"must be a number (got {shown})"
  | .belowMinimum minimum got =>
    "must be >= " ++ Number.text minimum ++ " (got " ++ Number.text got ++ ")"
  | .aboveMaximum maximum got =>
    "must be <= " ++ Number.text maximum ++ " (got " ++ Number.text got ++ ")"
  | .negativeSeconds => "must be a non-negative number of seconds"
  | .notClock text => s!"must be seconds or [HH:]MM:SS (got \"{text}\")"
  | .notTime => "must be a time value"
  | .notBoolean shown => s!"must be a boolean (got {shown})"
  | .notText => "must be a string"
  | .notColor shown => s!"must be a colour name or hex value (got {shown})"
  | .notChoiceText choices => "must be one of: " ++ Text.join ", " choices
  | .notChoice text _ => s!"has invalid value \"{text}\""

def hint? : Rejection → Option String
  | .notColor _ => some "e.g. \"white\", \"#FF8800\", \"black@0.5\""
  | .notChoice _ choices => some ("valid choices: " ++ Text.join ", " choices)
  | _ => none

end Rejection

structure ParameterFault where
  skill : String
  param : String
  why : Rejection

def ParameterFault.message (f : ParameterFault) : String :=
  s!"Skill '{f.skill}': parameter '{f.param}' {f.why.reason}"

inductive ConfigurationFault where
  | unknownSkill (name : String) (suggestions : List String)
  | cyclic (path : List String) (skill : String)
  | unknownHandler (skill handler : String)
  | unknownType (skill param type source : String)
  | noChoices (skill param : String)
  | invalidDefault (cause : ParameterFault)
  | undeclaredInTemplate (skill placeholder : String)
  | undeclaredInCall (skill call placeholder : String)
  | invalidDefinition (source : String) (issues : List String)
  | unreadableYaml (source : String)
  | notSkills (source : String)
  | inconsistentCatalogue (problems : List String)
  | settingsMissing (path : String)
  | settingsUnreadable (path detail : String)
  | settingsInvalid (path : String) (issues : List String)

def yamlErrorText : String := "<yaml error>"

def jsonErrorText : String := "<json error>"

namespace ConfigurationFault

def message : ConfigurationFault → String
  | .unknownSkill name _ => s!"Unknown skill '{name}'"
  | .cyclic path _ => "Cyclic sub-pipeline: " ++ Text.join " -> " path
  | .unknownHandler skill handler => s!"Skill '{skill}' names unknown handler '{handler}'"
  | .unknownType skill param type _ =>
    s!"Skill '{skill}' parameter '{param}' has unknown type '{type}'"
  | .noChoices skill param => s!"Skill '{skill}' enum parameter '{param}' declares no choices"
  | .invalidDefault f =>
    s!"Skill '{f.skill}' parameter '{f.param}' has an invalid default: {f.message}"
  | .undeclaredInTemplate skill placeholder =>
    s!"Skill '{skill}' template references undeclared parameter '\x7b{placeholder}\x7d'"
  | .undeclaredInCall skill call placeholder =>
    s!"Skill '{skill}' pipeline step '{call}' references undeclared parameter "
      ++ s!"'\x7b{placeholder}\x7d'"
  | .invalidDefinition source issues =>
    s!"Invalid skill definition in {source}: " ++ Text.join "; " issues
  | .unreadableYaml source => s!"Failed to parse YAML in {source}: {yamlErrorText}"
  | .notSkills source => s!"{source}: top level must be a skill mapping or a list of skills"
  | .inconsistentCatalogue problems =>
    "Built-in catalogue is inconsistent: " ++ Text.join "; " problems
  | .settingsMissing path => s!"Config file not found: {path}"
  | .settingsUnreadable path detail => s!"Failed to read {path}: {detail}"
  | .settingsInvalid path issues => s!"Invalid configuration in {path}: " ++ Text.join "; " issues

def skill? : ConfigurationFault → Option String
  | .unknownSkill name _ => some name
  | .cyclic _ skill | .unknownHandler skill _ | .unknownType skill _ _ _ | .noChoices skill _
  | .undeclaredInTemplate skill _ | .undeclaredInCall skill _ _ => some skill
  | .invalidDefault f => some f.skill
  | _ => none

def param? : ConfigurationFault → Option String
  | .unknownType _ param _ _ | .noChoices _ param => some param
  | .invalidDefault f => some f.param
  | _ => none

def hint? : ConfigurationFault → Option String
  | .unknownSkill _ suggestions =>
    some (if suggestions.isEmpty then "run \x60skillc skills list\x60 to see available skills"
      else "did you mean: " ++ Text.join ", " suggestions ++ "?")
  | .cyclic .. => some "a sub-pipeline may not expand into itself"
  | .unknownType _ _ _ source => some s!"in {source}"
  | _ => none

end ConfigurationFault

inductive LengthUse where
  | spaceFrames
  | placeFadeOut

inductive RequestChannel where
  | commandLine
  | service

inductive ValidationFault where
  | rejected (cause : ParameterFault)
  | unknownParameter (skill key : String) (valid : List String)
  | givenTwice (skill alternative name : String)
  | missingParameter (skill name description : String)
  | templateNeeds (skill name : String)
  | optionNeeds (skill name : String)
  | endNotAfterStart (endText startText : String)
  | unknownLength (skill : String) (purpose : LengthUse)
  | invalidRatio (text : String)
  | noExtra (skill : String) (kinds : List MediaKind)
  | notAnExtra (skill : String) (requested : Float) (kinds : List MediaKind) (given : Nat)
  | extraTaken (index : Nat) (owner skill : String)
  | tooFewInputs (skill : String) (least got : Nat)
  | transitionTooLong (transition hold : Float)
  | fadeTooLong (fade duration : Float)
  | invalidRequest (channel : RequestChannel) (issues : List String)
  | unreadableSource (source : String) (why : SystemFailure)
  | invalidJson (source : String)

namespace ValidationFault

def kindsText (kinds : List MediaKind) : String := Text.join " or " (kinds.map (·.name))

def message : ValidationFault → String
  | .rejected f => f.message
  | .unknownParameter skill key _ => s!"Skill '{skill}': unknown parameter '{key}'"
  | .givenTwice skill alternative name =>
    s!"Skill '{skill}': both '{alternative}' and its canonical name '{name}' were given"
  | .missingParameter skill name _ => s!"Skill '{skill}': missing required parameter '{name}'"
  | .templateNeeds skill name => s!"Skill '{skill}': template needs parameter '{name}'"
  | .optionNeeds skill name => s!"Skill '{skill}': option template needs parameter '{name}'"
  | .endNotAfterStart endText startText =>
    s!"Skill 'trim': end ({endText}) must be after start ({startText})"
  | .unknownLength skill .spaceFrames =>
    s!"Skill '{skill}' needs the input duration to space its frames"
  | .unknownLength skill .placeFadeOut =>
    s!"Skill '{skill}' needs the input duration to place its fade-out"
  | .invalidRatio text => s!"Skill 'aspect': invalid ratio '{text}'"
  | .noExtra skill kinds => s!"Skill '{skill}' needs an extra " ++ kindsText kinds ++ " input"
  | .notAnExtra skill requested kinds _ =>
    s!"Skill '{skill}': input " ++ Number.text requested ++ " is not an extra " ++ kindsText kinds
      ++ " input"
  | .extraTaken index owner skill =>
    s!"Extra input {index} is used by both '{owner}' and '{skill}'"
  | .tooFewInputs skill least got =>
    s!"Skill '{skill}' needs at least {least} visual inputs (got {got})"
  | .transitionTooLong transition hold =>
    "Skill 'slideshow': transition_duration (" ++ Number.text transition
      ++ ") must be shorter than duration_per_image (" ++ Number.text hold ++ ")"
  | .fadeTooLong fade duration =>
    "Skill 'fade_text': fade (" ++ Number.text fade ++ ") must fit twice into duration ("
      ++ Number.text duration ++ ")"
  | .invalidRequest .. => "Invalid pipeline request"
  | .unreadableSource source why => s!"Cannot read {source}: {why.message}"
  | .invalidJson source => s!"Invalid JSON in {source}: {jsonErrorText}"

def skill? : ValidationFault → Option String
  | .rejected f => some f.skill
  | .unknownParameter skill _ _ | .givenTwice skill _ _ | .missingParameter skill _ _
  | .templateNeeds skill _ | .optionNeeds skill _ | .unknownLength skill _ | .noExtra skill _
  | .notAnExtra skill _ _ _ | .extraTaken _ _ skill | .tooFewInputs skill _ _ => some skill
  | .endNotAfterStart .. => some "trim"
  | .invalidRatio _ => some "aspect"
  | .transitionTooLong .. => some "slideshow"
  | .fadeTooLong .. => some "fade_text"
  | _ => none

def param? : ValidationFault → Option String
  | .rejected f => some f.param
  | .unknownParameter _ key _ => some key
  | .givenTwice _ _ name | .missingParameter _ name _ | .templateNeeds _ name
  | .optionNeeds _ name => some name
  | .endNotAfterStart .. => some "end"
  | .invalidRatio _ => some "ratio"
  | .notAnExtra .. | .extraTaken .. => some "input"
  | .transitionTooLong .. => some "transition_duration"
  | .fadeTooLong .. => some "fade"
  | _ => none

def hint? : ValidationFault → Option String
  | .rejected f => f.why.hint?
  | .unknownParameter _ _ valid =>
    some (if valid.isEmpty then "this skill takes no parameters"
      else "valid parameters: " ++ Text.join ", " valid)
  | .missingParameter _ _ description => some description
  | .unknownLength .. => some "set duration in the pipeline context (--duration)"
  | .invalidRatio _ => some "use W:H such as 16:9, or a number such as 2.35"
  | .noExtra .. => some "add the file to the pipeline context extra inputs"
  | .notAnExtra _ _ _ given => some s!"extra inputs are numbered from 1; {given} given"
  | .extraTaken .. => some "give each multi-input step its own extra input"
  | .tooFewInputs .. => some "add video or image files to the pipeline context extra inputs"
  | .invalidRequest .commandLine _ =>
    some "pass --input and --output, or put them under \"context\""
  | .invalidRequest .service _ =>
    some "expected \x7bsteps: [\x7bskill, params\x7d], context: \x7binput, output, ...\x7d\x7d"
  | _ => none

/-- Every single issue; most faults are their own only issue. -/
def issues : ValidationFault → List String
  | .invalidRequest _ issues => issues
  | f => [f.message]

end ValidationFault

inductive PathFault where
  | empty (purpose : Purpose)
  | nulCharacter (purpose : Purpose)
  | traversal
  | extension (found : String) (purpose : Purpose)
  | missing (resolved : String)
  | notAFile (resolved : String)
  | systemDirectory (resolved : String)

def PathFault.message (path : String) : PathFault → String
  | .empty purpose => s!"{purpose.name} path cannot be empty"
  | .nulCharacter purpose => s!"{purpose.name} path contains a NUL byte"
  | .traversal => s!"Path contains directory traversal (..): {path}"
  | .extension found purpose =>
    let shown := if found = "" then "(none)" else found
    let allowed := Text.join ", " purpose.extensions
    s!"Extension \"{shown}\" is not allowed for {purpose.name} files (allowed: {allowed})"
  | .missing resolved => s!"File not found: {resolved}"
  | .notAFile resolved => s!"Path is not a regular file: {resolved}"
  | .systemDirectory resolved => s!"Refusing to write output into a system directory: {resolved}"

inductive InvariantFault where
  | notText (kindName : String)
  | unmintedText
  | notFinite (n : Float)
  | noTemplateValue (name : String)
  | noValue (skill param : String)
  | notNumeric (skill param : String)
  | notBoolean (skill param : String)
  | notTime (skill param : String)
  | noReservedInput (skill : String)
  | labelRepeated (step label : String)
  | labelUndeclared (step label : String)
  | outputUndeclared (step label : String)
  | mainNotReplaced (step : String) (media : String)
  | producedTwice (label : String)
  | consumedTwice (label : String)
  | neverConsumed (label : String)
  | closed
  | graphAndFilters (skill : String)
  | unexpanded (skill : String)
  | handlerFailed (skill detail : String)
  | duplicateMaps (maps : List String)
  | outputUnmapped (label : String) (skill : Option String)
  | inputFlag

namespace InvariantFault

def message : InvariantFault → String
  | .notText kindName => s!"escaper invoked on a {kindName} value"
  | .unmintedText => "SafeText can only be created by the escaping module"
  | .notFinite n => "non-finite number in filter text: " ++ Number.text n
  | .noTemplateValue name => s!"template placeholder '\x7b{name}\x7d' has no value"
  | .noValue skill param => s!"Skill '{skill}' read parameter '{param}' with no value or default"
  | .notNumeric skill param => s!"Parameter '{param}' of '{skill}' is not numeric"
  | .notBoolean skill param => s!"Parameter '{param}' of '{skill}' is not boolean"
  | .notTime skill param => s!"Parameter '{param}' of '{skill}' is not a time value"
  | .noReservedInput skill => s!"Skill '{skill}' compiled without its reserved input"
  | .labelRepeated step label => s!"step {step} produces label '{label}' twice"
  | .labelUndeclared step label => s!"step {step} reads undeclared label '{label}'"
  | .outputUndeclared step label => s!"step {step} declares unknown output label '{label}'"
  | .mainNotReplaced step media =>
    s!"step {step} consumed the main {media} stream without replacing it"
  | .producedTwice label => s!"filter graph label '{label}' is produced twice"
  | .consumedTwice label => s!"filter graph label '{label}' is consumed twice"
  | .neverConsumed label => s!"filter graph label '{label}' is never consumed"
  | .closed => "merger is finalized; no further steps may be added"
  | .graphAndFilters skill => s!"Skill '{skill}' returned both a graph fragment and simple filters"
  | .unexpanded skill => s!"sub-pipeline '{skill}' reached the compile pass unexpanded"
  | .handlerFailed skill detail => s!"handler for '{skill}' failed: {detail}"
  | .duplicateMaps maps => "duplicate stream specifier in mapping list: " ++ Text.join " " maps
  | .outputUnmapped label _ => s!"filter graph output [{label}] is missing from the mapping list"
  | .inputFlag => "an input flag ended up among the output flags"

def skill? : InvariantFault → Option String
  | .graphAndFilters skill | .handlerFailed skill _ => some skill
  | .outputUnmapped _ skill => skill
  | _ => none

end InvariantFault

inductive FaultKind where
  | configuration
  | validation
  | sanitization
  | invariant
  deriving DecidableEq, Repr

namespace FaultKind

def code : FaultKind → String
  | .configuration => "configuration"
  | .validation => "validation"
  | .sanitization => "sanitization"
  | .invariant => "invariant"

def title : FaultKind → String
  | .configuration => "ConfigurationError"
  | .validation => "ValidationError"
  | .sanitization => "SanitizationError"
  | .invariant => "CompileInvariantViolation"

end FaultKind

/-- An exception: a value that was to be shown has no plain text, or a call to the system failed. -/
inductive Exception where
  | noText
  | system (failure : SystemFailure)

namespace Exception

def title : Exception → String
  | .noText => "TypeError"
  | .system _ => "Error"

def message : Exception → String
  | .noText => "Cannot convert object to primitive value"
  | .system f => f.message

end Exception

/-- Something that is wrong, as its cause. A configuration fault lies in skills and settings, a
validation fault in a request, a sanitization fault in a path, and an invariant fault in the
compiler itself or in an embedder's handler. An exception is none of these: it comes from the system
or the language, and nobody has made a fault of it. -/
inductive Fault where
  | configuration (cause : ConfigurationFault)
  | validation (cause : ValidationFault)
  | sanitization (path : String) (cause : PathFault)
  | invariant (cause : InvariantFault)
  | exception (cause : Exception)

namespace Fault

/-- The kind of a fault; an exception has none. -/
def kind? : Fault → Option FaultKind
  | .configuration _ => some .configuration
  | .validation _ => some .validation
  | .sanitization _ _ => some .sanitization
  | .invariant _ => some .invariant
  | .exception _ => none

def title : Fault → String
  | .configuration _ => FaultKind.configuration.title
  | .validation _ => FaultKind.validation.title
  | .sanitization _ _ => FaultKind.sanitization.title
  | .invariant _ => FaultKind.invariant.title
  | .exception e => e.title

def message : Fault → String
  | .configuration c => c.message
  | .validation c => c.message
  | .sanitization path c => c.message path
  | .invariant c => c.message
  | .exception e => e.message

def skill? : Fault → Option String
  | .configuration c => c.skill?
  | .validation c => c.skill?
  | .sanitization _ _ => none
  | .invariant c => c.skill?
  | .exception _ => none

def param? : Fault → Option String
  | .configuration c => c.param?
  | .validation c => c.param?
  | _ => none

def hint? : Fault → Option String
  | .configuration c => c.hint?
  | .validation c => c.hint?
  | _ => none

def issues? : Fault → Option (List String)
  | .validation c => some c.issues
  | _ => none

def path? : Fault → Option String
  | .sanitization path _ => some path
  | _ => none

end Fault

/-- A fault as it is reported to a caller. Of an exception only the name is told. -/
structure Report where
  title : String
  code? : Option String
  message? : Option String
  skill? : Option String
  param? : Option String
  hint? : Option String
  issues? : Option (List String)

def Report.document (r : Report) : Value :=
  .record [("error", .string r.title), ("code", .ofOption .string r.code?),
    ("message", .ofOption .string r.message?), ("skill", .ofOption .string r.skill?),
    ("param", .ofOption .string r.param?), ("hint", .ofOption .string r.hint?),
    ("issues", .ofOption .strings r.issues?)]

def Fault.report (f : Fault) : Report :=
  { title := f.title, code? := f.kind?.map (·.code), message? := f.kind?.map fun _ => f.message,
    skill? := f.skill?, param? := f.param?, hint? := f.hint?, issues? := f.issues? }

end SkillPipeline
