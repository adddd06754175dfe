import SkillPipeline.Skill.Basic

namespace SkillPipeline.Catalogue

def temporal : List Skill := [
  { name := "trim"
    category := .temporal
    description := "Keep only part of the clip, from a start time to an end time or for a "
      ++ "duration."
    parameters := [
      { name := "start", type := .time,
        description := "Where the kept section begins (seconds or MM:SS)",
        aliases := ["from", "begin"] },
      { name := "end", type := .time,
        description := "Where the kept section ends",
        aliases := ["to"] },
      { name := "duration", type := .time,
        description := "Length of the kept section when no end is given",
        aliases := ["length"] }]
    strategy := .handler "trim"
    tags := ["cut", "clip", "shorten"]
    examples := ["\x7b\"skill\": \"trim\", \"params\": \x7b\"start\": 5, \"end\": 30\x7d\x7d"]
    aliases := ["cut"] },
  { name := "speed"
    category := .temporal
    description := "Play the clip faster or slower; audio tempo follows."
    parameters := [
      { name := "factor", type := .float,
        description := "Playback rate multiplier (2 = twice as fast)",
        default? := some (.number 2), min? := some 0.1, max? := some 100,
        aliases := ["rate", "multiplier"] }]
    strategy := .handler "speed"
    tags := ["fast", "slow", "tempo"]
    examples := ["\x7b\"skill\": \"speed\", \"params\": \x7b\"factor\": 1.5\x7d\x7d"] },
  { name := "reverse"
    category := .temporal
    description := "Play the clip backwards."
    strategy := .handler "reverse"
    tags := ["backwards", "rewind"] },
  { name := "loop"
    category := .temporal
    description := "Repeat the input a number of extra times."
    parameters := [
      { name := "count", type := .int,
        description := "Extra repetitions",
        default? := some (.number 2), min? := some 1, max? := some 100,
        aliases := ["times"] }]
    strategy := .handler "loop"
    tags := ["repeat"] },
  { name := "boomerang"
    category := .temporal
    description := "Play forward then backward, optionally several times. Drops audio."
    parameters := [
      { name := "loops", type := .int,
        description := "Forward-backward cycles",
        default? := some (.number 1), min? := some 1, max? := some 10 }]
    strategy := .handler "boomerang"
    tags := ["bounce", "ping-pong", "social"] },
  { name := "jump_cut"
    category := .temporal
    description := "Keep only frames at scene changes for an abrupt, energetic cut. Drops audio."
    parameters := [
      { name := "threshold", type := .float,
        description := "Scene-change score a frame must exceed",
        default? := some (.number 0.3), min? := some 0.01, max? := some 1 }]
    strategy := .handler "jump_cut"
    tags := ["edit", "pacing"] },
  { name := "beat_sync"
    category := .temporal
    description := "Keep every n-th frame for a stuttering, rhythmic feel. Drops audio."
    parameters := [
      { name := "threshold", type := .float,
        description := "Higher keeps more frames",
        default? := some (.number 0.5), min? := some 0.01, max? := some 1 }]
    strategy := .handler "beat_sync"
    tags := ["rhythm", "music"] },
  { name := "freeze_frame"
    category := .temporal
    description := "Hold one frame for a while before playback continues."
    parameters := [
      { name := "time", type := .time,
        description := "Frame to hold",
        default? := some (.number 1),
        aliases := ["at"] },
      { name := "duration", type := .time,
        description := "How long to hold it",
        default? := some (.number 2) }]
    strategy := .handler "freeze_frame"
    tags := ["pause", "hold", "still"] },
  { name := "timelapse"
    category := .temporal
    description := "Strongly sped-up playback for long recordings."
    parameters := [
      { name := "factor", type := .float,
        description := "Speed-up factor",
        default? := some (.number 8), min? := some 1, max? := some 100 }]
    strategy := .pipeline [
      { skill := "speed", params := [("factor", .text "\x7bfactor\x7d")] }]
    tags := ["fast", "hyperlapse"] },
  { name := "slowmo"
    category := .temporal
    description := "Slow-motion playback."
    parameters := [
      { name := "factor", type := .float,
        description := "Playback rate below 1",
        default? := some (.number 0.5), min? := some 0.1, max? := some 1 }]
    strategy := .pipeline [
      { skill := "speed", params := [("factor", .text "\x7bfactor\x7d")] }]
    tags := ["slow", "dramatic"]
    aliases := ["slow_motion"] },
  { name := "frame_interpolation"
    category := .temporal
    description := "Raise the frame rate by synthesising in-between frames."
    parameters := [
      { name := "fps", type := .int,
        description := "Target frame rate",
        default? := some (.number 60), min? := some 1, max? := some 240 },
      { name := "mode", type := .enum,
        description := "Motion-compensated, blended or duplicated frames",
        default? := some (.text "mci"),
        choices? := some ["mci", "blend", "dup"] }]
    strategy := .handler "frame_interpolation"
    tags := ["smooth", "fps", "motion"]
    aliases := ["interpolate"] },
  { name := "frame_blend"
    category := .temporal
    description := "Average neighbouring frames into a motion-blur trail."
    parameters := [
      { name := "frames", type := .int,
        description := "Frames mixed together",
        default? := some (.number 5), min? := some 2, max? := some 10 }]
    strategy := .handler "frame_blend"
    tags := ["smear", "trail", "ghosting"]
    aliases := ["motion_blur"] }]

end SkillPipeline.Catalogue
