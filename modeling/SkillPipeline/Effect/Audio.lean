import SkillPipeline.Effect.Handler

namespace SkillPipeline.Effect

open FilterText Contribution

def audioKinds : List MediaKind := [.audio, .video]

def volume (p : Params) (_ : HandlerContext) : Except Fault Contribution := do
  let level ← p.decimal "level"
  audioOf [.lit "volume=", .sub level]

def normalizeLoudness (p : Params) (_ : HandlerContext) : Except Fault Contribution := do
  let target ← p.decimal "target"
  audioOf [.lit "loudnorm=I=", .sub target, .lit ":TP=-1.5:LRA=11"]

/-- The direction of a fade: out if so chosen, otherwise in. -/
def fadeDirection (p : Params) : Except Fault String := do
  return if (← p.string "type") = "out" then "out" else "in"

def fadeAudio (p : Params) (_ : HandlerContext) : Except Fault Contribution := do
  let direction ← fadeDirection p
  let start ← p.decimal "start"
  let duration ← p.decimal "duration"
  audioOf [.lit "afade=t=", .lit direction, .lit ":st=", .sub start, .lit ":d=", .sub duration]

def removeAudio (_ : Params) (_ : HandlerContext) : Except Fault Contribution :=
  .ok (flags ["-an"])

def extractAudio (_ : Params) (_ : HandlerContext) : Except Fault Contribution :=
  .ok (flags ["-vn", "-c:a", "copy"])

def claimSound (skill : String) (p : Params) (ctx : HandlerContext) : Except Fault (List Nat) := do
  let requested? ← p.requestedInput
  return [← ctx.claimExtra skill audioKinds requested?]

def replaceAudio (_ : Params) (ctx : HandlerContext) : Except Fault Contribution := do
  let source ← ctx.ownExtra "replace_audio"
  return { outputFlags := ["-shortest"], maps? := some [.main .video, .main .audio]
           audioSource? := some source.index }

def audioJoin (source : ExtraInput) (filter : FilterText) : Contribution :=
  let node : GraphNode := ⟨[.main .audio, .input source.index .audio], filter, ["out"]⟩
  graph { nodes := [node], audio? := some "out" }

def audioCrossfade (p : Params) (ctx : HandlerContext) : Except Fault Contribution := do
  let source ← ctx.ownExtra "audio_crossfade"
  let curve ← p.text "curve"
  let duration ← p.decimal "duration"
  let filter ← ofParts [.lit "acrossfade=d=", .sub duration, .lit ":c1=", .sub curve, .lit ":c2=",
    .sub curve]
  return audioJoin source filter

def mixAudio (p : Params) (ctx : HandlerContext) : Except Fault Contribution := do
  let source ← ctx.ownExtra "mix_audio"
  let duration ← p.text "duration"
  let dropout ← p.decimal "dropout_transition"
  let weight ← p.float "weight"
  let extraWeight ← p.float "extra_weight"
  let filter ← ofParts [.lit "amix=inputs=2:duration=", .sub duration,
    .lit ":dropout_transition=", .sub dropout, .lit ":weights='", .num weight, .lit " ",
    .num extraWeight, .lit "'"]
  return audioJoin source filter

def audio : HandlerTable := [
  ("volume", { compile := volume }),
  ("normalize", { compile := normalizeLoudness }),
  ("fade_audio", { compile := fadeAudio }),
  ("remove_audio", { compile := removeAudio }),
  ("extract_audio", { compile := extractAudio }),
  ("replace_audio", { compile := replaceAudio, reserve? := some (claimSound "replace_audio") }),
  ("audio_crossfade",
    { compile := audioCrossfade, reserve? := some (claimSound "audio_crossfade") }),
  ("mix_audio", { compile := mixAudio, reserve? := some (claimSound "mix_audio") })]

end SkillPipeline.Effect
