import SkillPipeline.Effect.Handler

namespace SkillPipeline.Effect

open FilterText Contribution

def rateFactors : List (String × Nat) := [("light", 20), ("medium", 23), ("heavy", 28)]

def videoEncoders : List (String × String) := [
  ("h264", "libx264"), ("h265", "libx265"), ("vp9", "libvpx-vp9"), ("av1", "libaom-av1"),
  ("prores", "prores_ks")]

def audioEncoders : List (String × String) := [
  ("aac", "aac"), ("mp3", "libmp3lame"), ("opus", "libopus"), ("vorbis", "libvorbis"),
  ("flac", "flac")]

def subtitleEncoders : List (String × String) :=
  [("srt", "srt"), ("ass", "ass"), ("vtt", "webvtt")]

def compress (p : Params) (_ : HandlerContext) : Except Fault Contribution := do
  let factor := (rateFactors.lookup (← p.string "preset")).getD 23
  return flags ["-c:v", "libx264", "-crf", toString factor, "-preset", "medium"]

def convert (p : Params) (_ : HandlerContext) : Except Fault Contribution := do
  return flags ["-c:v", (videoEncoders.lookup (← p.string "codec")).getD "libx264"]

def bitrate (p : Params) (_ : HandlerContext) : Except Fault Contribution := do
  let video ← if p.has "video" then do pure ["-b:v", ← p.string "video"] else pure []
  let audio ← if p.has "audio" then do pure ["-b:a", ← p.string "audio"] else pure []
  return flags (video ++ audio)

def quality (p : Params) (_ : HandlerContext) : Except Fault Contribution := do
  let factor ← p.int "crf"
  let preset ← p.string "preset"
  return flags ["-c:v", "libx264", "-crf", Number.text factor, "-preset", preset]

def container (p : Params) (_ : HandlerContext) : Except Fault Contribution := do
  return flags ["-f", ← p.string "format"]

def audioCodec (p : Params) (_ : HandlerContext) : Except Fault Contribution := do
  let codec ← p.string "codec"
  if codec = "copy" then return flags ["-c:a", "copy"]
  let rate ← p.string "bitrate"
  return flags ["-c:a", (audioEncoders.lookup codec).getD codec, "-b:a", rate]

def hardwareDecoding (p : Params) (_ : HandlerContext) : Except Fault Contribution := do
  return { inputFlags := ["-hwaccel", ← p.string "type"] }

/-- One frame: the one at a given time, or else a representative one. -/
def thumbnail (p : Params) (_ : HandlerContext) : Except Fault Contribution := do
  let width ← p.int "width"
  let time ← p.float "time"
  let scale ← if width > 0 then do pure [← ofParts [.lit "scale=", .num width, .lit ":-1"]]
    else pure []
  let outputFlags := ["-frames:v", "1", "-an"]
  if time > 0 then
    return { inputFlags := ["-ss", Number.text time], videoFilters := scale, outputFlags }
  else return { videoFilters := wording "thumbnail" :: scale, outputFlags }

def extractFrames (p : Params) (_ : HandlerContext) : Except Fault Contribution := do
  let rate ← p.decimal "rate"
  let fps ← ofParts [.lit "fps=", .sub rate]
  return { videoFilters := [fps], outputFlags := ["-an"] }

def gif (p : Params) (_ : HandlerContext) : Except Fault Contribution := do
  let fps ← p.int "fps"
  let width ← p.int "width"
  let split ← GraphNode.of [.main .video]
    [.lit "fps=", .num fps, .lit ",scale=", .num width, .lit ":-1:flags=lanczos,split"]
    ["s0", "s1"]
  let palette ← GraphNode.of [.label "s0"] [.lit "palettegen"] ["pal"]
  let applied ← GraphNode.of [.label "s1", .label "pal"] [.lit "paletteuse"] ["out"]
  return { graph? := some { nodes := [split, palette, applied], video? := some "out" }
           outputFlags := ["-an"] }

def extractSubtitles (p : Params) (_ : HandlerContext) : Except Fault Contribution := do
  let track ← p.int "track"
  let format ← p.string "format"
  return { maps? := some [.subtitle 0 track]
           outputFlags := ["-c:s", (subtitleEncoders.lookup format).getD "srt"] }

def spriteSheet (p : Params) (_ : HandlerContext) : Except Fault Contribution := do
  let columns ← p.int "columns"
  let rows ← p.int "rows"
  let tile ← ofParts [.lit "tile=", .num columns, .lit "x", .num rows]
  let interval ← p.decimal "interval"
  let width ← p.int "width"
  let sheet ← ofParts [.lit "fps=1/", .sub interval, .lit ",scale=", .num width, .lit ":-1,",
    .sub tile]
  return { videoFilters := [sheet], outputFlags := ["-frames:v", "1", "-an"] }

def previewStrip (p : Params) (ctx : HandlerContext) : Except Fault Contribution := do
  let frames ← p.int "frames"
  match ctx.primary.duration? with
  | none => .error (.validation (.unknownLength "preview_strip" .spaceFrames))
  | some total =>
    let rate ← places (frames / total) 4
    let width ← p.int "width"
    let strip ← ofParts [.lit "fps=", .sub rate, .lit ",scale=", .num width, .lit ":-1,tile=",
      .num frames, .lit "x1"]
    return { videoFilters := [strip], outputFlags := ["-frames:v", "1", "-an"] }

def encoding : HandlerTable := [
  ("compress", { compile := compress }),
  ("convert", { compile := convert }),
  ("bitrate", { compile := bitrate }),
  ("quality", { compile := quality }),
  ("container", { compile := container }),
  ("audio_codec", { compile := audioCodec }),
  ("hwaccel", { compile := hardwareDecoding }),
  ("thumbnail", { compile := thumbnail }),
  ("extract_frames", { compile := extractFrames }),
  ("gif", { compile := gif }),
  ("extract_subtitles", { compile := extractSubtitles }),
  ("sprite_sheet", { compile := spriteSheet }),
  ("preview_strip", { compile := previewStrip })]

end SkillPipeline.Effect
