import SkillPipeline.Skill.Basic

namespace SkillPipeline.Catalogue

def spatial : List Skill := [
  { name := "resize"
    category := .spatial
    description := "Scale the video to an exact size."
    parameters := [
      { name := "width", type := .int,
        description := "Output width in pixels (-1 or -2 keeps the aspect ratio)",
        default? := some (.number 1280), min? := some (-2), max? := some 7680,
        aliases := ["w"] },
      { name := "height", type := .int,
        description := "Output height in pixels (-1 or -2 keeps the aspect ratio)",
        default? := some (.number 720), min? := some (-2), max? := some 4320,
        aliases := ["h"] }]
    strategy := .handler "resize"
    tags := ["scale", "resolution"]
    examples := ["\x7b\"skill\": \"resize\", \"params\": \x7b\"width\": 1920, \"height\": "
      ++ "1080\x7d\x7d"]
    aliases := ["scale"] },
  { name := "crop"
    category := .spatial
    description := "Cut a rectangle out of the frame. Values may be pixel counts or expressions "
      ++ "such as iw/2."
    parameters := [
      { name := "width", type := .string,
        description := "Width of the kept area",
        default? := some (.text "iw/2"),
        aliases := ["w"] },
      { name := "height", type := .string,
        description := "Height of the kept area",
        default? := some (.text "ih/2"),
        aliases := ["h"] },
      { name := "x", type := .string,
        description := "Left edge",
        default? := some (.text "(iw-ow)/2") },
      { name := "y", type := .string,
        description := "Top edge",
        default? := some (.text "(ih-oh)/2") }]
    strategy := .handler "crop"
    tags := ["frame", "reframe"] },
  { name := "pad"
    category := .spatial
    description := "Add borders around the frame."
    parameters := [
      { name := "width", type := .string,
        description := "Padded width",
        default? := some (.text "iw+80") },
      { name := "height", type := .string,
        description := "Padded height",
        default? := some (.text "ih+80") },
      { name := "x", type := .string,
        description := "Position of the original frame from the left",
        default? := some (.text "40") },
      { name := "y", type := .string,
        description := "Position of the original frame from the top",
        default? := some (.text "40") },
      { name := "color", type := .color,
        description := "Border colour",
        default? := some (.text "black") }]
    strategy := .handler "pad"
    tags := ["border", "frame"] },
  { name := "rotate"
    category := .spatial
    description := "Rotate the picture. Quarter turns are lossless transposes."
    parameters := [
      { name := "angle", type := .float,
        description := "Degrees clockwise",
        default? := some (.number 90), min? := some (-360), max? := some 360,
        aliases := ["degrees"] },
      { name := "fill", type := .color,
        description := "Colour for uncovered corners",
        default? := some (.text "black") }]
    strategy := .handler "rotate"
    tags := ["turn", "orientation"] },
  { name := "flip"
    category := .spatial
    description := "Mirror the picture horizontally or vertically."
    parameters := [
      { name := "direction", type := .enum,
        description := "Axis to flip across",
        default? := some (.text "horizontal"),
        choices? := some ["horizontal", "vertical"] }]
    strategy := .handler "flip"
    tags := ["mirror"] },
  { name := "zoom"
    category := .spatial
    description := "Static zoom into the frame."
    parameters := [
      { name := "factor", type := .float,
        description := "Magnification",
        default? := some (.number 1.5), min? := some 1, max? := some 10 },
      { name := "x", type := .float,
        description := "Horizontal focus point, 0 (left) to 1 (right)",
        min? := some 0, max? := some 1 },
      { name := "y", type := .float,
        description := "Vertical focus point, 0 (top) to 1 (bottom)",
        min? := some 0, max? := some 1 }]
    strategy := .handler "zoom"
    tags := ["punch-in", "magnify"] },
  { name := "ken_burns"
    category := .spatial
    description := "Slow zoom or pan across the frame."
    parameters := [
      { name := "direction", type := .enum,
        description := "Motion",
        default? := some (.text "zoom_in"),
        choices? := some ["zoom_in", "zoom_out", "pan_left", "pan_right"] },
      { name := "amount", type := .float,
        description := "Total zoom added over the move",
        default? := some (.number 0.2), min? := some 0.01, max? := some 1 },
      { name := "duration", type := .float,
        description := "Seconds the move takes",
        default? := some (.number 5), min? := some 0.1, max? := some 600 }]
    strategy := .handler "ken_burns"
    tags := ["motion", "documentary", "pan"] },
  { name := "drift"
    category := .spatial
    description := "Slow sideways or vertical camera drift."
    parameters := [
      { name := "direction", type := .enum,
        description := "Drift direction",
        default? := some (.text "right"),
        choices? := some ["right", "left", "up", "down"] },
      { name := "amount", type := .int,
        description := "Pixels travelled",
        default? := some (.number 40), min? := some 1, max? := some 500 }]
    strategy := .handler "drift"
    tags := ["motion"] },
  { name := "aspect"
    category := .spatial
    description := "Change the aspect ratio by padding, cropping or stretching."
    parameters := [
      { name := "ratio", type := .string,
        description := "Target ratio such as 16:9, 9:16, 1:1 or 2.35",
        default? := some (.text "16:9") },
      { name := "mode", type := .enum,
        description := "How to reach the ratio",
        default? := some (.text "pad"),
        choices? := some ["pad", "crop", "stretch"] },
      { name := "color", type := .color,
        description := "Padding colour",
        default? := some (.text "black") }]
    strategy := .handler "aspect"
    tags := ["ratio", "reframe"] },
  { name := "mirror"
    category := .spatial
    description := "Kaleidoscope-style mirror of one half or quarter of the frame."
    parameters := [
      { name := "mode", type := .enum,
        description := "Which part is mirrored",
        default? := some (.text "horizontal"),
        choices? := some ["horizontal", "vertical", "quad"] }]
    strategy := .handler "mirror"
    tags := ["symmetry", "kaleidoscope"] },
  { name := "caption_space"
    category := .spatial
    description := "Add an empty band above or below the picture for captions."
    parameters := [
      { name := "position", type := .enum,
        description := "Where the band goes",
        default? := some (.text "bottom"),
        choices? := some ["bottom", "top"] },
      { name := "height", type := .int,
        description := "Band height in pixels",
        default? := some (.number 200), min? := some 10, max? := some 2000 },
      { name := "color", type := .color,
        description := "Band colour",
        default? := some (.text "black") }]
    strategy := .handler "caption_space"
    tags := ["captions", "subtitles", "layout"] },
  { name := "perspective"
    category := .spatial
    description := "Keystone the picture as if seen at an angle."
    parameters := [
      { name := "preset", type := .enum,
        description := "Direction of the tilt",
        default? := some (.text "tilt_forward"),
        choices? := some ["tilt_forward", "tilt_back", "lean_left", "lean_right"] },
      { name := "strength", type := .float,
        description := "Amount of tilt",
        default? := some (.number 0.3), min? := some 0, max? := some 1 }]
    strategy := .handler "perspective"
    tags := ["3d", "keystone"] },
  { name := "lens_correction"
    category := .spatial
    description := "Correct or add barrel and pincushion distortion."
    parameters := [
      { name := "k1", type := .float,
        description := "Quadratic correction",
        default? := some (.number (-0.2)), min? := some (-1), max? := some 1 },
      { name := "k2", type := .float,
        description := "Double quadratic correction",
        default? := some (.number 0), min? := some (-1), max? := some 1 }]
    strategy := .handler "lens_correction"
    tags := ["fisheye", "distortion"] },
  { name := "scale_2x"
    category := .spatial
    description := "Double the resolution with lanczos resampling."
    strategy := .template "scale=iw*2:ih*2:flags=lanczos" .video
    tags := ["upscale"] },
  { name := "letterbox"
    category := .spatial
    description := "Black cinema bars at the top and bottom of the frame."
    parameters := [
      { name := "bar", type := .float,
        description := "Height of each bar as a fraction of the frame",
        default? := some (.number 0.12), min? := some 0.01, max? := some 0.45 }]
    strategy := .template ("drawbox=x=0:y=0:w=iw:h=ih*\x7bbar\x7d:color=black:t=fill,drawbox=x=0:"
      ++ "y=ih-ih*\x7bbar\x7d:w=iw:h=ih*\x7bbar\x7d:color=black:t=fill") .video
    tags := ["cinema", "widescreen", "bars"] },
  { name := "vertical_video"
    category := .spatial
    description := "Reframe to 9:16 at 1080x1920 for phone screens."
    parameters := [
      { name := "mode", type := .enum,
        description := "Crop to fill, or pad to fit",
        default? := some (.text "crop"),
        choices? := some ["crop", "pad"] }]
    strategy := .pipeline [
      { skill := "aspect", params := [("ratio", .text "9:16"), ("mode", .text "\x7bmode\x7d")] },
      { skill := "resize", params := [("width", .number 1080), ("height", .number 1920)] }]
    tags := ["portrait", "reels", "shorts", "tiktok"] },
  { name := "square_video"
    category := .spatial
    description := "Reframe to 1:1 at 1080x1080."
    parameters := [
      { name := "mode", type := .enum,
        description := "Crop to fill, or pad to fit",
        default? := some (.text "crop"),
        choices? := some ["crop", "pad"] }]
    strategy := .pipeline [
      { skill := "aspect", params := [("ratio", .text "1:1"), ("mode", .text "\x7bmode\x7d")] },
      { skill := "resize", params := [("width", .number 1080), ("height", .number 1080)] }]
    tags := ["square", "instagram"] },
  { name := "spin"
    category := .spatial
    description := "Rotate the frame continuously."
    parameters := [
      { name := "speed", type := .float,
        description := "Degrees per second",
        default? := some (.number 90), min? := some 10, max? := some 720 },
      { name := "direction", type := .enum,
        description := "Rotation direction",
        default? := some (.text "cw"),
        choices? := some ["cw", "ccw"] },
      { name := "fill", type := .color,
        description := "Colour of the uncovered corners",
        default? := some (.text "black") }]
    strategy := .handler "spin"
    tags := ["motion", "rotate", "spinning"] },
  { name := "shake"
    category := .spatial
    description := "Camera-shake jitter."
    parameters := [
      { name := "intensity", type := .enum,
        description := "How far the frame jumps",
        default? := some (.text "medium"),
        choices? := some ["light", "medium", "heavy"] }]
    strategy := .handler "shake"
    tags := ["motion", "earthquake", "handheld"] },
  { name := "pulse"
    category := .spatial
    description := "Rhythmic zoom in and out."
    parameters := [
      { name := "rate", type := .float,
        description := "Pulses per second",
        default? := some (.number 1), min? := some 0.2, max? := some 5 },
      { name := "amount", type := .float,
        description := "Extra zoom at the peak of a pulse",
        default? := some (.number 0.05), min? := some 0.02, max? := some 0.2 }]
    strategy := .handler "pulse"
    tags := ["motion", "beat", "throb"] },
  { name := "bounce"
    category := .spatial
    description := "Bounce the frame up and down."
    parameters := [
      { name := "height", type := .int,
        description := "Bounce height in pixels",
        default? := some (.number 30), min? := some 5, max? := some 100 },
      { name := "speed", type := .float,
        description := "Bounces per second",
        default? := some (.number 2), min? := some 0.5, max? := some 8 }]
    strategy := .handler "bounce"
    tags := ["motion", "jump"] },
  { name := "iris_reveal"
    category := .spatial
    description := "Open the picture from a growing circle in the centre."
    parameters := [
      { name := "duration", type := .float,
        description := "Seconds until fully open",
        default? := some (.number 2), min? := some 0.1, max? := some 60 }]
    strategy := .handler "iris_reveal"
    tags := ["reveal", "intro", "transition"] },
  { name := "wipe"
    category := .spatial
    description := "Reveal the picture with a moving edge."
    parameters := [
      { name := "direction", type := .enum,
        description := "Where the reveal starts",
        default? := some (.text "left"),
        choices? := some ["left", "right", "down", "up"] },
      { name := "duration", type := .float,
        description := "Seconds until fully revealed",
        default? := some (.number 1.5), min? := some 0.1, max? := some 60 }]
    strategy := .handler "wipe"
    tags := ["reveal", "intro", "transition"] },
  { name := "slide_in"
    category := .spatial
    description := "Slide the picture in from one side."
    parameters := [
      { name := "direction", type := .enum,
        description := "Side the picture enters from",
        default? := some (.text "left"),
        choices? := some ["left", "right", "down", "up"] },
      { name := "duration", type := .float,
        description := "Seconds until the picture settles",
        default? := some (.number 1), min? := some 0.1, max? := some 60 }]
    strategy := .handler "slide_in"
    tags := ["reveal", "intro", "motion"] },
  { name := "scroll"
    category := .spatial
    description := "Scroll the picture continuously, wrapping at the edges."
    parameters := [
      { name := "direction", type := .enum,
        description := "Scroll direction",
        default? := some (.text "up"),
        choices? := some ["up", "down", "left", "right"] },
      { name := "speed", type := .float,
        description := "Fraction of the frame per frame",
        default? := some (.number 0.05), min? := some 0.001, max? := some 1 }]
    strategy := .handler "scroll"
    tags := ["motion", "loop"] },
  { name := "fill_borders"
    category := .spatial
    description := "Paint over frame borders, for example to hide edge artefacts."
    parameters := [
      { name := "left", type := .int,
        description := "Left border in pixels",
        default? := some (.number 10), min? := some 0, max? := some 2000 },
      { name := "right", type := .int,
        description := "Right border in pixels",
        default? := some (.number 10), min? := some 0, max? := some 2000 },
      { name := "top", type := .int,
        description := "Top border in pixels",
        default? := some (.number 10), min? := some 0, max? := some 2000 },
      { name := "bottom", type := .int,
        description := "Bottom border in pixels",
        default? := some (.number 10), min? := some 0, max? := some 2000 },
      { name := "mode", type := .enum,
        description := "How the border is filled",
        default? := some (.text "smear"),
        choices? := some ["smear", "mirror", "fixed", "reflect", "wrap", "fade"] }]
    strategy := .handler "fill_borders"
    tags := ["edges", "repair"] },
  { name := "deshake"
    category := .spatial
    description := "Remove small camera shake."
    parameters := [
      { name := "rx", type := .int,
        description := "Largest horizontal correction in pixels",
        default? := some (.number 16), min? := some 0, max? := some 64 },
      { name := "ry", type := .int,
        description := "Largest vertical correction in pixels",
        default? := some (.number 16), min? := some 0, max? := some 64 },
      { name := "edge", type := .enum,
        description := "How uncovered edges are filled",
        default? := some (.text "mirror"),
        choices? := some ["blank", "original", "clamp", "mirror"] }]
    strategy := .handler "deshake"
    tags := ["stabilise", "handheld", "repair"] },
  { name := "stabilize"
    category := .spatial
    description := "Steady handheld footage and trim the wobbling edges."
    parameters := [
      { name := "strength", type := .int,
        description := "Largest correction in pixels",
        default? := some (.number 32), min? := some 0, max? := some 64 }]
    strategy := .pipeline [
      { skill := "deshake",
        params := [("rx", .text "\x7bstrength\x7d"), ("ry", .text "\x7bstrength\x7d"),
          ("edge", .text "mirror")] },
      { skill := "fill_borders",
        params := [("left", .number 4), ("right", .number 4), ("top", .number 4),
          ("bottom", .number 4), ("mode", .text "smear")] }]
    tags := ["stabilise", "steady", "handheld"]
    aliases := ["stabilise"] }]

end SkillPipeline.Catalogue
