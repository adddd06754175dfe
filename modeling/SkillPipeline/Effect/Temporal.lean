import SkillPipeline.Effect.Handler
import SkillPipeline.Effect.Measure

namespace SkillPipeline.Effect

open FilterText Contribution

def tempoChain (factor : Float) : Except Fault (List FilterText) :=
  (Tempo.instances factor).mapM fun f => do
    ofParts [.lit "atempo=", .sub (← decimal f)]

/-- An end counts from the start, and wins over a duration. -/
def trim (p : Params) (_ : HandlerContext) : Except Fault Contribution := do
  let start? ← p.time "start"
  let end? ← p.time "end"
  let duration? ← p.time "duration"
  let inputFlags := match start? with
    | some start => ["-ss", start.text]
    | none => []
  match end?, duration? with
  | some «end», _ =>
    let length := «end».seconds - (start?.map (·.seconds)).getD 0
    if length <= 0 then
      .error (.validation (.endNotAfterStart «end».text ((start?.map (·.text)).getD "0")))
    else
      let length ← decimal length
      return { inputFlags, outputFlags := ["-t", length.text] }
  | none, some duration => return { inputFlags, outputFlags := ["-t", duration.text] }
  | none, none => return { inputFlags }

def speed (p : Params) (_ : HandlerContext) : Except Fault Contribution := do
  let factor ← p.float "factor"
  let stretch ← decimal (1 / factor)
  let video ← ofParts [.lit "setpts=", .sub stretch, .lit "*PTS"]
  let audio ← tempoChain factor
  return { videoFilters := [video], audioFilters := audio }

def reverse (_ : Params) (_ : HandlerContext) : Except Fault Contribution :=
  .ok { videoFilters := [wording "reverse"], audioFilters := [wording "areverse"] }

def loop (p : Params) (_ : HandlerContext) : Except Fault Contribution := do
  let count ← p.int "count"
  return { inputFlags := ["-stream_loop", Number.text count] }

/-- Forwards and then backwards. Reversed frames have no audio of their own. -/
def boomerang (p : Params) (_ : HandlerContext) : Except Fault Contribution := do
  let loops ← p.int "loops"
  let split ← GraphNode.of [.main .video] [.lit "split"] ["fwd", "rev"]
  let back ← GraphNode.of [.label "rev"] [.lit "reverse"] ["r"]
  let joined ← GraphNode.of [.label "fwd", .label "r"]
    [.lit "concat=n=2:v=1:a=0,loop=loop=", .num (loops - 1), .lit ":size=32767"] ["out"]
  return { graph? := some { nodes := [split, back, joined], video? := some "out" }
           outputFlags := ["-an"] }

def jumpCut (p : Params) (_ : HandlerContext) : Except Fault Contribution := do
  let threshold ← p.float "threshold"
  let select ← ofParts [.lit "select='gt(scene,", .num threshold,
    .lit ")',setpts=N/FRAME_RATE/TB"]
  return { videoFilters := [select], outputFlags := ["-an"] }

def beatSync (p : Params) (_ : HandlerContext) : Except Fault Contribution := do
  let threshold ← p.float "threshold"
  let interval := Number.larger 1 (Number.truncate (1 / Number.larger threshold 0.01))
  let select ← ofParts [.lit "select='not(mod(n,", .num interval,
    .lit "))',setpts=N/FRAME_RATE/TB"]
  return { videoFilters := [select], outputFlags := ["-an"] }

def freezeFrame (p : Params) (ctx : HandlerContext) : Except Fault Contribution := do
  let at? ← p.time "time"
  let hold? ← p.time "duration"
  let fps := ctx.primary.fps
  let start := Number.nearest ((at?.map (·.seconds)).getD 0 * fps)
  let frames := Number.larger 1 (Number.nearest ((hold?.map (·.seconds)).getD 1 * fps))
  videoOf [.lit "loop=loop=", .num frames, .lit ":size=1:start=", .num start,
    .lit ",setpts=N/FRAME_RATE/TB"]

def frameInterpolation (p : Params) (_ : HandlerContext) : Except Fault Contribution := do
  let fps ← p.int "fps"
  let mode ← p.text "mode"
  videoOf [.lit "minterpolate=fps=", .num fps, .lit ":mi_mode=", .sub mode]

def frameBlend (p : Params) (_ : HandlerContext) : Except Fault Contribution := do
  let n ← p.int "frames"
  let weights := Text.join " " (List.replicate n.toUInt64.toNat "1")
  videoOf [.lit "tmix=frames=", .num n, .lit ":weights='", .sub (escaped weights), .lit "'"]

def temporal : HandlerTable := [
  ("trim", { compile := trim }),
  ("speed", { compile := speed }),
  ("reverse", { compile := reverse }),
  ("loop", { compile := loop }),
  ("boomerang", { compile := boomerang }),
  ("jump_cut", { compile := jumpCut }),
  ("beat_sync", { compile := beatSync }),
  ("freeze_frame", { compile := freezeFrame }),
  ("frame_interpolation", { compile := frameInterpolation }),
  ("frame_blend", { compile := frameBlend })]

end SkillPipeline.Effect
