import SkillPipeline.Skill.Basic

namespace SkillPipeline.Catalogue

def visual : List Skill := [
  { name := "brightness"
    category := .visual
    description := "Make the picture brighter or darker."
    parameters := [
      { name := "value", type := .float,
        description := "Offset from -1 (black) to 1 (white); 0 leaves it unchanged",
        default? := some (.number 0.1), min? := some (-1), max? := some 1,
        aliases := ["level", "amount"] }]
    strategy := .handler "brightness"
    tags := ["exposure", "light"]
    examples := ["\x7b\"skill\": \"brightness\", \"params\": \x7b\"value\": 0.2\x7d\x7d"] },
  { name := "contrast"
    category := .visual
    description := "Increase or reduce contrast."
    parameters := [
      { name := "value", type := .float,
        description := "Multiplier; 1 leaves it unchanged",
        default? := some (.number 1.2), min? := some 0, max? := some 3,
        aliases := ["level", "amount"] }]
    strategy := .handler "contrast"
    tags := ["punch", "flat"] },
  { name := "saturation"
    category := .visual
    description := "Boost or mute colours."
    parameters := [
      { name := "value", type := .float,
        description := "Multiplier; 0 is greyscale, 1 unchanged",
        default? := some (.number 1.3), min? := some 0, max? := some 3,
        aliases := ["level", "amount"] }]
    strategy := .handler "saturation"
    tags := ["colour", "vibrance"] },
  { name := "hue"
    category := .visual
    description := "Rotate all hues."
    parameters := [
      { name := "value", type := .float,
        description := "Degrees of hue rotation",
        default? := some (.number 30), min? := some (-360), max? := some 360,
        aliases := ["degrees"] }]
    strategy := .handler "hue"
    tags := ["colour", "tint"] },
  { name := "sharpen"
    category := .visual
    description := "Sharpen detail (negative values soften)."
    parameters := [
      { name := "amount", type := .float,
        description := "Unsharp-mask strength",
        default? := some (.number 1), min? := some (-2), max? := some 5 }]
    strategy := .handler "sharpen"
    tags := ["detail", "crisp"] },
  { name := "blur"
    category := .visual
    description := "Soften the whole frame."
    parameters := [
      { name := "radius", type := .int,
        description := "Blur radius in pixels",
        default? := some (.number 5), min? := some 1, max? := some 50,
        aliases := ["amount", "strength"] }]
    strategy := .handler "blur"
    tags := ["soft", "defocus"] },
  { name := "denoise"
    category := .visual
    description := "Reduce video noise."
    parameters := [
      { name := "strength", type := .enum,
        description := "How aggressively to smooth",
        default? := some (.text "medium"),
        choices? := some ["light", "medium", "strong"] }]
    strategy := .handler "denoise"
    tags := ["clean", "grain"] },
  { name := "vignette"
    category := .visual
    description := "Darken the corners of the frame."
    parameters := [
      { name := "intensity", type := .float,
        description := "0 is subtle, 1 is heavy",
        default? := some (.number 0.5), min? := some 0, max? := some 1,
        aliases := ["strength", "amount"] }]
    strategy := .handler "vignette"
    tags := ["corners", "moody"] },
  { name := "fade"
    category := .visual
    description := "Fade the picture in or out from black."
    parameters := [
      { name := "type", type := .enum,
        description := "Fade direction",
        default? := some (.text "in"),
        choices? := some ["in", "out", "both"] },
      { name := "start", type := .float,
        description := "When the fade begins (seconds)",
        default? := some (.number 0), min? := some 0 },
      { name := "duration", type := .float,
        description := "Fade length (seconds)",
        default? := some (.number 1), min? := some 0.1, max? := some 60 }]
    strategy := .handler "fade"
    tags := ["transition", "intro", "outro"] },
  { name := "color_grade"
    category := .visual
    description := "Apply a named colour-grading look."
    parameters := [
      { name := "style", type := .enum,
        description := "Look to apply",
        default? := some (.text "teal_orange"),
        choices? := some ["teal_orange", "warm", "cool", "desaturated", "high_contrast"],
        aliases := ["preset", "look"] }]
    strategy := .handler "color_grade"
    tags := ["grade", "look", "cinematic", "lut"]
    aliases := ["grade"] },
  { name := "chromakey"
    category := .visual
    description := "Remove a solid-colour background (green screen)."
    parameters := [
      { name := "color", type := .color,
        description := "Key colour",
        default? := some (.text "green") },
      { name := "similarity", type := .float,
        description := "How close a pixel must be to the key colour",
        default? := some (.number 0.3), min? := some 0.01, max? := some 1 },
      { name := "blend", type := .float,
        description := "Edge softness",
        default? := some (.number 0.1), min? := some 0, max? := some 1 },
      { name := "background", type := .color,
        description := "Fill colour behind the key, or transparent",
        default? := some (.text "transparent") }]
    strategy := .handler "chromakey"
    tags := ["green_screen", "key", "composite"]
    aliases := ["green_screen", "colorkey"] },
  { name := "lumakey"
    category := .visual
    description := "Remove dark or bright areas by luminance."
    parameters := [
      { name := "threshold", type := .float,
        description := "Luma value to key out",
        default? := some (.number 0), min? := some 0, max? := some 1 },
      { name := "tolerance", type := .float,
        description := "Range around the threshold",
        default? := some (.number 0.01), min? := some 0, max? := some 1 },
      { name := "softness", type := .float,
        description := "Edge softness",
        default? := some (.number 0), min? := some 0, max? := some 1 },
      { name := "background", type := .color,
        description := "Fill colour behind the key, or transparent",
        default? := some (.text "transparent") }]
    strategy := .handler "lumakey"
    tags := ["key", "composite"] },
  { name := "selective_color"
    category := .visual
    description := "Adjust CMYK balance inside one colour range."
    parameters := [
      { name := "color_range", type := .string,
        description := "reds, yellows, greens, cyans, blues, magentas, whites, neutrals or blacks",
        default? := some (.text "reds"),
        aliases := ["range"] },
      { name := "cyan", type := .float,
        description := "Cyan adjustment",
        default? := some (.number 0), min? := some (-1), max? := some 1 },
      { name := "magenta", type := .float,
        description := "Magenta adjustment",
        default? := some (.number 0), min? := some (-1), max? := some 1 },
      { name := "yellow", type := .float,
        description := "Yellow adjustment",
        default? := some (.number 0), min? := some (-1), max? := some 1 },
      { name := "black", type := .float,
        description := "Black adjustment",
        default? := some (.number 0), min? := some (-1), max? := some 1 }]
    strategy := .handler "selective_color"
    tags := ["colour", "isolate"] },
  { name := "monochrome"
    category := .visual
    description := "Tinted monochrome."
    parameters := [
      { name := "preset", type := .enum,
        description := "Tint",
        default? := some (.text "neutral"),
        choices? := some ["neutral", "warm", "cool", "sepia_tone", "blue_tone", "green_tone"] },
      { name := "size", type := .float,
        description := "Colour filter size",
        default? := some (.number 1), min? := some 0.1, max? := some 10 }]
    strategy := .handler "monochrome"
    tags := ["tint", "sepia"] },
  { name := "color_temperature"
    category := .visual
    description := "Warm or cool the picture by colour temperature."
    parameters := [
      { name := "temperature", type := .int,
        description := "Kelvin; lower is warmer",
        default? := some (.number 5500), min? := some 1000, max? := some 40000,
        aliases := ["kelvin"] },
      { name := "mix", type := .float,
        description := "Blend with the original",
        default? := some (.number 1), min? := some 0, max? := some 1 }]
    strategy := .handler "color_temperature"
    tags := ["warm", "cool", "white_balance"] },
  { name := "pixelate"
    category := .visual
    description := "Blocky mosaic look."
    parameters := [
      { name := "factor", type := .int,
        description := "Block size in pixels",
        default? := some (.number 10), min? := some 2, max? := some 100,
        aliases := ["size"] }]
    strategy := .handler "pixelate"
    tags := ["mosaic", "retro", "8bit"] },
  { name := "posterize"
    category := .visual
    description := "Reduce the number of colour levels."
    parameters := [
      { name := "levels", type := .int,
        description := "Levels per channel",
        default? := some (.number 4), min? := some 2, max? := some 256 }]
    strategy := .handler "posterize"
    tags := ["pop_art", "flat"] },
  { name := "glow"
    category := .visual
    description := "Soft bloom around bright areas."
    parameters := [
      { name := "radius", type := .float,
        description := "Spread of the glow",
        default? := some (.number 10), min? := some 0.5, max? := some 100 },
      { name := "strength", type := .float,
        description := "Glow opacity",
        default? := some (.number 0.4), min? := some 0, max? := some 1 }]
    strategy := .handler "glow"
    tags := ["bloom", "dreamy"] },
  { name := "lut_apply"
    category := .visual
    description := "Apply a 3D LUT file (.cube or .3dl)."
    parameters := [
      { name := "path", type := .string,
        description := "LUT file",
        required := true,
        aliases := ["file", "lut"] },
      { name := "intensity", type := .float,
        description := "Blend with the original",
        default? := some (.number 1), min? := some 0, max? := some 1 }]
    strategy := .handler "lut_apply"
    tags := ["grade", "lut"]
    aliases := ["lut"] },
  { name := "fade_to_black"
    category := .visual
    description := "Fade in from and out to black."
    parameters := [
      { name := "in_duration", type := .float,
        description := "Fade-in length (0 skips it)",
        default? := some (.number 1), min? := some 0, max? := some 60 },
      { name := "out_duration", type := .float,
        description := "Fade-out length (0 skips it)",
        default? := some (.number 1), min? := some 0, max? := some 60 }]
    strategy := .handler "fade_to_black"
    tags := ["transition", "intro", "outro"] },
  { name := "fade_to_white"
    category := .visual
    description := "Fade in from and out to white."
    parameters := [
      { name := "in_duration", type := .float,
        description := "Fade-in length (0 skips it)",
        default? := some (.number 1), min? := some 0, max? := some 60 },
      { name := "out_duration", type := .float,
        description := "Fade-out length (0 skips it)",
        default? := some (.number 1), min? := some 0, max? := some 60 }]
    strategy := .handler "fade_to_white"
    tags := ["transition", "dream"] },
  { name := "flash"
    category := .visual
    description := "White flash at a point in time."
    parameters := [
      { name := "time", type := .float,
        description := "When the flash peaks (seconds)",
        default? := some (.number 1), min? := some 0,
        aliases := ["at"] },
      { name := "duration", type := .float,
        description := "Flash length",
        default? := some (.number 0.3), min? := some 0.02, max? := some 5 }]
    strategy := .handler "flash"
    tags := ["transition", "impact"] },
  { name := "deband"
    category := .visual
    description := "Remove colour banding from gradients."
    parameters := [
      { name := "threshold", type := .float,
        description := "Banding detection threshold",
        default? := some (.number 0.02), min? := some 0.003, max? := some 0.5 },
      { name := "range", type := .int,
        description := "Search radius",
        default? := some (.number 16), min? := some 1, max? := some 64 },
      { name := "blur", type := .bool,
        description := "Blur the detected bands",
        default? := some (.flag true) }]
    strategy := .handler "deband"
    tags := ["clean", "gradient"] },
  { name := "chromatic_aberration"
    category := .visual
    description := "Offset colour channels for a lens-fringe look."
    parameters := [
      { name := "amount", type := .int,
        description := "Channel offset in pixels",
        default? := some (.number 4), min? := some 1, max? := some 50 }]
    strategy := .handler "chromatic_aberration"
    tags := ["glitch", "rgb_split"]
    aliases := ["rgb_split"] },
  { name := "sketch"
    category := .visual
    description := "Pencil or ink drawing look from edge detection."
    parameters := [
      { name := "mode", type := .enum,
        description := "Drawing style",
        default? := some (.text "pencil"),
        choices? := some ["pencil", "ink", "color"] }]
    strategy := .handler "sketch"
    tags := ["drawing", "cartoon", "edges"] },
  { name := "ghost_trail"
    category := .visual
    description := "Bright motion leaves a fading trail."
    parameters := [
      { name := "decay", type := .float,
        description := "Trail persistence (clamped to 0.9..0.995)",
        default? := some (.number 0.97), min? := some 0.5, max? := some 1 }]
    strategy := .handler "ghost_trail"
    tags := ["trail", "motion", "dreamy"] },
  { name := "mask_blur"
    category := .visual
    description := "Blur one rectangle of the frame, such as a face or plate."
    parameters := [
      { name := "x", type := .int,
        description := "Left edge of the region",
        default? := some (.number 0), min? := some 0 },
      { name := "y", type := .int,
        description := "Top edge of the region",
        default? := some (.number 0), min? := some 0 },
      { name := "w", type := .int,
        description := "Region width",
        default? := some (.number 200), min? := some 1,
        aliases := ["width"] },
      { name := "h", type := .int,
        description := "Region height",
        default? := some (.number 200), min? := some 1,
        aliases := ["height"] },
      { name := "strength", type := .int,
        description := "Blur radius",
        default? := some (.number 10), min? := some 1, max? := some 50 }]
    strategy := .handler "mask_blur"
    tags := ["privacy", "censor", "anonymize"] },
  { name := "datamosh"
    category := .visual
    description := "Visualise motion vectors for a glitchy look."
    parameters := [
      { name := "mode", type := .string,
        description := "Vector types to draw (pf, bf, bb, combined with +)",
        default? := some (.text "pf+bf+bb") }]
    strategy := .handler "datamosh"
    tags := ["glitch", "motion_vectors"] },
  { name := "noise"
    category := .visual
    description := "Add temporal noise."
    parameters := [
      { name := "amount", type := .int,
        description := "Noise strength",
        default? := some (.number 20), min? := some 0, max? := some 100 }]
    strategy := .template "noise=alls=\x7bamount\x7d:allf=t+u" .video
    tags := ["grain", "texture"] },
  { name := "film_grain"
    category := .visual
    description := "Fine film grain."
    parameters := [
      { name := "strength", type := .int,
        description := "Grain strength",
        default? := some (.number 15), min? := some 0, max? := some 100 }]
    strategy := .template "noise=alls=\x7bstrength\x7d:allf=t" .video
    tags := ["grain", "film", "analog"] },
  { name := "curves"
    category := .visual
    description := "Apply a tone-curve preset."
    parameters := [
      { name := "preset", type := .enum,
        description := "Curve preset",
        default? := some (.text "medium_contrast"),
        choices? := some ["color_negative", "cross_process", "darker", "increase_contrast",
           "lighter", "linear_contrast", "medium_contrast", "negative", "strong_contrast",
           "vintage"] }]
    strategy := .template "curves=preset=\x7bpreset\x7d" .video
    tags := ["tone", "contrast"] },
  { name := "emboss"
    category := .visual
    description := "Embossed relief look."
    strategy := .template ("convolution='-2 -1 0 -1 1 1 0 1 2:-2 -1 0 -1 1 1 0 1 2:-2 -1 0 -1 1 1 "
      ++ "0 1 2:-2 -1 0 -1 1 1 0 1 2'") .video
    tags := ["relief", "texture"] },
  { name := "deinterlace"
    category := .visual
    description := "Remove interlacing artefacts."
    parameters := [
      { name := "mode", type := .int,
        description := "0 one frame per frame, 1 one frame per field",
        default? := some (.number 0), min? := some 0, max? := some 3 }]
    strategy := .template "yadif=mode=\x7bmode\x7d" .video
    tags := ["interlaced", "broadcast"] },
  { name := "black_and_white"
    category := .visual
    description := "Greyscale with a contrast lift."
    parameters := [
      { name := "contrast", type := .float,
        description := "Contrast multiplier",
        default? := some (.number 1.1), min? := some 0.5, max? := some 3 }]
    strategy := .template "hue=s=0,eq=contrast=\x7bcontrast\x7d" .video
    tags := ["greyscale", "monochrome"]
    aliases := ["grayscale", "greyscale"] },
  { name := "day_for_night"
    category := .visual
    description := "Make daylight footage read as night."
    parameters := [
      { name := "darkness", type := .float,
        description := "How much to darken",
        default? := some (.number 0.25), min? := some 0, max? := some 1 }]
    strategy := .template ("eq=brightness=-\x7bdarkness\x7d:saturation=0.5,colorbalance=bs=0.3:"
      ++ "bm=0.2:rs=-0.1") .video
    tags := ["night", "blue"] },
  { name := "cinematic"
    category := .visual
    description := "Letterbox bars, teal-and-orange grade and a light vignette."
    parameters := [
      { name := "vignette", type := .float,
        description := "Vignette intensity",
        default? := some (.number 0.3), min? := some 0, max? := some 1 }]
    strategy := .pipeline [
      { skill := "letterbox", params := [("bar", .number 0.12)] },
      { skill := "color_grade", params := [("style", .text "teal_orange")] },
      { skill := "vignette", params := [("intensity", .text "\x7bvignette\x7d")] }]
    tags := ["film", "movie", "look"] },
  { name := "dreamy"
    category := .visual
    description := "Soft glow with gentle colour."
    parameters := [
      { name := "strength", type := .float,
        description := "Glow strength",
        default? := some (.number 0.4), min? := some 0, max? := some 1 }]
    strategy := .pipeline [
      { skill := "glow",
        params := [("radius", .number 15), ("strength", .text "\x7bstrength\x7d")] },
      { skill := "saturation", params := [("value", .number 1.1)] }]
    tags := ["soft", "romantic"] },
  { name := "vintage"
    category := .visual
    description := "Faded film look with grain and vignette."
    strategy := .pipeline [
      { skill := "curves", params := [("preset", .text "vintage")] },
      { skill := "noise", params := [("amount", .number 10)] },
      { skill := "vignette", params := [("intensity", .number 0.4)] }]
    tags := ["retro", "film", "old"] },
  { name := "vhs"
    category := .visual
    description := "Worn tape look with colour fringing and noise."
    strategy := .pipeline [
      { skill := "chromatic_aberration", params := [("amount", .number 3)] },
      { skill := "noise", params := [("amount", .number 15)] },
      { skill := "blur", params := [("radius", .number 1)] },
      { skill := "saturation", params := [("value", .number 1.3)] }]
    tags := ["retro", "tape", "80s", "glitch"] },
  { name := "lofi"
    category := .visual
    description := "Low frame rate, noisy, muted colour."
    strategy := .pipeline [
      { skill := "fps", params := [("rate", .number 12)] },
      { skill := "noise", params := [("amount", .number 12)] },
      { skill := "saturation", params := [("value", .number 0.8)] }]
    tags := ["retro", "chill"] },
  { name := "noir"
    category := .visual
    description := "High-contrast black and white with heavy vignette and grain."
    strategy := .pipeline [
      { skill := "black_and_white", params := [("contrast", .number 1.4)] },
      { skill := "vignette", params := [("intensity", .number 0.6)] },
      { skill := "film_grain", params := [("strength", .number 12)] }]
    tags := ["film_noir", "moody", "monochrome"] },
  { name := "neon"
    category := .visual
    description := "Saturated colours with a strong glow."
    strategy := .pipeline [
      { skill := "saturation", params := [("value", .number 1.8)] },
      { skill := "glow", params := [("radius", .number 8), ("strength", .number 0.6)] }]
    tags := ["vivid", "night", "club"] },
  { name := "sepia"
    category := .visual
    description := "Brown-toned antique colour."
    parameters := [
      { name := "intensity", type := .float,
        description := "0 leaves the colours, 1 is full sepia",
        default? := some (.number 0.8), min? := some 0, max? := some 1 }]
    strategy := .handler "sepia"
    tags := ["antique", "brown", "old"] },
  { name := "tilt_shift"
    category := .visual
    description := "Keep a horizontal band sharp and blur above and below it."
    parameters := [
      { name := "focus_position", type := .float,
        description := "Vertical centre of the sharp band, 0 top to 1 bottom",
        default? := some (.number 0.5), min? := some 0, max? := some 1 },
      { name := "blur_amount", type := .float,
        description := "Blur strength outside the band",
        default? := some (.number 8), min? := some 1, max? := some 50 }]
    strategy := .handler "tilt_shift"
    tags := ["miniature", "toy", "focus"] },
  { name := "halftone"
    category := .visual
    description := "Black-and-white print dot pattern."
    parameters := [
      { name := "dot_size", type := .int,
        description := "Dot pitch in pixels",
        default? := some (.number 8), min? := some 2, max? := some 64 }]
    strategy := .handler "halftone"
    tags := ["print", "comic", "dots"] },
  { name := "false_color"
    category := .visual
    description := "Map brightness to a colour palette."
    parameters := [
      { name := "palette", type := .enum,
        description := "Colour palette",
        default? := some (.text "heat"),
        choices? := some ["heat", "thermal", "electric", "blues", "rainbow"] }]
    strategy := .handler "false_color"
    tags := ["pseudocolor", "heatmap", "scientific"]
    aliases := ["pseudocolor"] },
  { name := "thermal"
    category := .visual
    description := "Thermal camera look."
    strategy := .pipeline [
      { skill := "false_color", params := [("palette", .text "thermal")] }]
    tags := ["infrared", "heat", "camera"] },
  { name := "color_channel_swap"
    category := .visual
    description := "Swap or remix the red, green and blue channels."
    parameters := [
      { name := "preset", type := .enum,
        description := "Channel remix",
        default? := some (.text "swap_rb"),
        choices? := some ["swap_rb", "swap_rg", "swap_gb", "nightvision", "matrix"] }]
    strategy := .handler "color_channel_swap"
    tags := ["channels", "surreal", "remix"] },
  { name := "colorhold"
    category := .visual
    description := "Keep one colour and turn everything else grey."
    parameters := [
      { name := "color", type := .color,
        description := "Colour to keep",
        default? := some (.text "red") },
      { name := "similarity", type := .float,
        description := "How close a colour must be to stay",
        default? := some (.number 0.3), min? := some 0.01, max? := some 1 },
      { name := "blend", type := .float,
        description := "Softness of the transition to grey",
        default? := some (.number 0.1), min? := some 0, max? := some 1 }]
    strategy := .handler "colorhold"
    tags := ["splash", "isolate", "selective"]
    aliases := ["color_splash"] },
  { name := "despill"
    category := .visual
    description := "Remove green or blue spill left by a keyed background."
    parameters := [
      { name := "type", type := .enum,
        description := "Screen colour",
        default? := some (.text "green"),
        choices? := some ["green", "blue"] },
      { name := "mix", type := .float,
        description := "How the spill map is computed",
        default? := some (.number 0.5), min? := some 0, max? := some 1 },
      { name := "expand", type := .float,
        description := "How much spill is removed",
        default? := some (.number 0), min? := some 0, max? := some 1 },
      { name := "brightness", type := .float,
        description := "Brightness restored to despilled pixels",
        default? := some (.number 0), min? := some (-10), max? := some 10 }]
    strategy := .handler "despill"
    tags := ["green_screen", "key", "cleanup"] },
  { name := "comic_book"
    category := .visual
    description := "Inked outlines over flat posterised colour."
    parameters := [
      { name := "style", type := .enum,
        description := "Colour treatment",
        default? := some (.text "classic"),
        choices? := some ["classic", "manga", "pop_art"] }]
    strategy := .handler "comic_book"
    tags := ["cartoon", "ink", "comic"]
    aliases := ["cartoon"] },
  { name := "scanlines"
    category := .visual
    description := "Horizontal CRT scan lines."
    parameters := [
      { name := "spacing", type := .int,
        description := "Pixels between lines",
        default? := some (.number 4), min? := some 2, max? := some 64 },
      { name := "opacity", type := .float,
        description := "Line opacity",
        default? := some (.number 0.5), min? := some 0, max? := some 1 }]
    strategy := .template "drawgrid=w=iw:h=\x7bspacing\x7d:t=1:c=black@\x7bopacity\x7d" .video
    tags := ["crt", "retro", "tv"] },
  { name := "glitch"
    category := .visual
    description := "Digital glitch with split colour channels and static."
    parameters := [
      { name := "amount", type := .int,
        description := "Channel offset in pixels",
        default? := some (.number 8), min? := some 1, max? := some 50 }]
    strategy := .pipeline [
      { skill := "chromatic_aberration", params := [("amount", .text "\x7bamount\x7d")] },
      { skill := "noise", params := [("amount", .number 30)] },
      { skill := "contrast", params := [("value", .number 1.2)] }]
    tags := ["digital", "error", "distortion"] },
  { name := "super8"
    category := .visual
    description := "Home movie look with warm grain and soft edges."
    strategy := .pipeline [
      { skill := "fps", params := [("rate", .number 18)] },
      { skill := "color_temperature", params := [("temperature", .number 4500)] },
      { skill := "film_grain", params := [("strength", .number 25)] },
      { skill := "vignette", params := [("intensity", .number 0.5)] },
      { skill := "blur", params := [("radius", .number 1)] }]
    tags := ["film", "home_movie", "retro"] },
  { name := "old_tv"
    category := .visual
    description := "Black-and-white CRT set with scan lines and static."
    strategy := .pipeline [
      { skill := "black_and_white" },
      { skill := "scanlines", params := [("spacing", .number 3), ("opacity", .number 0.4)] },
      { skill := "noise", params := [("amount", .number 25)] },
      { skill := "vignette", params := [("intensity", .number 0.6)] }]
    tags := ["crt", "retro", "tv", "broadcast"] },
  { name := "polaroid"
    category := .visual
    description := "Instant-photo colour with lifted blacks and a soft vignette."
    strategy := .pipeline [
      { skill := "color_temperature", params := [("temperature", .number 6500)] },
      { skill := "curves", params := [("preset", .text "lighter")] },
      { skill := "saturation", params := [("value", .number 0.85)] },
      { skill := "vignette", params := [("intensity", .number 0.3)] }]
    tags := ["photo", "instant", "warm"] },
  { name := "faded"
    category := .visual
    description := "Washed-out, low-contrast colour."
    strategy := .pipeline [
      { skill := "contrast", params := [("value", .number 0.8)] },
      { skill := "saturation", params := [("value", .number 0.6)] },
      { skill := "brightness", params := [("value", .number 0.05)] }]
    tags := ["washed", "muted", "soft"] },
  { name := "damaged_film"
    category := .visual
    description := "Scratched, flickering old print."
    strategy := .pipeline [
      { skill := "sepia", params := [("intensity", .number 0.6)] },
      { skill := "film_grain", params := [("strength", .number 40)] },
      { skill := "noise", params := [("amount", .number 20)] },
      { skill := "vignette", params := [("intensity", .number 0.7)] }]
    tags := ["film", "scratches", "old"] },
  { name := "horror"
    category := .visual
    description := "Dark, desaturated and cold."
    strategy := .pipeline [
      { skill := "saturation", params := [("value", .number 0.4)] },
      { skill := "brightness", params := [("value", .number (-0.1))] },
      { skill := "color_temperature", params := [("temperature", .number 9000)] },
      { skill := "vignette", params := [("intensity", .number 0.8)] }]
    tags := ["scary", "dark", "cold"] },
  { name := "underwater"
    category := .visual
    description := "Blue-green tint with soft focus."
    strategy := .pipeline [
      { skill := "color_temperature", params := [("temperature", .number 11000)] },
      { skill := "hue", params := [("value", .number (-20))] },
      { skill := "blur", params := [("radius", .number 2)] },
      { skill := "saturation", params := [("value", .number 1.2)] }]
    tags := ["ocean", "blue", "water"] },
  { name := "sunset"
    category := .visual
    description := "Golden-hour warmth."
    strategy := .pipeline [
      { skill := "color_temperature", params := [("temperature", .number 3000)] },
      { skill := "saturation", params := [("value", .number 1.3)] },
      { skill := "contrast", params := [("value", .number 1.1)] }]
    tags := ["golden_hour", "warm", "orange"] },
  { name := "cyberpunk"
    category := .visual
    description := "Neon magenta and teal with hard contrast."
    strategy := .pipeline [
      { skill := "hue", params := [("value", .number (-30))] },
      { skill := "saturation", params := [("value", .number 1.8)] },
      { skill := "contrast", params := [("value", .number 1.3)] },
      { skill := "glow", params := [("radius", .number 12), ("strength", .number 0.3)] }]
    tags := ["neon", "futuristic", "night"] },
  { name := "miniature"
    category := .visual
    description := "Toy-town tilt-shift with punchy colour."
    parameters := [
      { name := "focus_position", type := .float,
        description := "Vertical centre of the sharp band",
        default? := some (.number 0.5), min? := some 0, max? := some 1 }]
    strategy := .pipeline [
      { skill := "tilt_shift", params := [("focus_position", .text "\x7bfocus_position\x7d")] },
      { skill := "saturation", params := [("value", .number 1.5)] },
      { skill := "contrast", params := [("value", .number 1.2)] }]
    tags := ["toy", "tilt_shift", "model"] },
  { name := "surveillance"
    category := .visual
    description := "Grainy green security-camera footage."
    strategy := .pipeline [
      { skill := "black_and_white" },
      { skill := "color_channel_swap", params := [("preset", .text "nightvision")] },
      { skill := "noise", params := [("amount", .number 30)] },
      { skill := "fps", params := [("rate", .number 15)] }]
    tags := ["cctv", "security", "camera"] },
  { name := "music_video"
    category := .visual
    description := "High-energy look with vivid colour and a glow."
    strategy := .pipeline [
      { skill := "saturation", params := [("value", .number 1.6)] },
      { skill := "contrast", params := [("value", .number 1.25)] },
      { skill := "glow", params := [("radius", .number 8), ("strength", .number 0.25)] },
      { skill := "vignette", params := [("intensity", .number 0.3)] }]
    tags := ["vivid", "energetic", "performance"] },
  { name := "anime"
    category := .visual
    description := "Flat bright colour with crisp edges."
    strategy := .pipeline [
      { skill := "posterize", params := [("levels", .number 8)] },
      { skill := "saturation", params := [("value", .number 1.5)] },
      { skill := "sharpen", params := [("amount", .number 1.5)] }]
    tags := ["cartoon", "cel", "animation"] },
  { name := "hdr_look"
    category := .visual
    description := "Punchy local contrast like a tone-mapped HDR photo."
    strategy := .pipeline [
      { skill := "curves", params := [("preset", .text "increase_contrast")] },
      { skill := "saturation", params := [("value", .number 1.4)] },
      { skill := "sharpen", params := [("amount", .number 1.2)] }]
    tags := ["hdr", "punchy", "detail"] },
  { name := "meme"
    category := .visual
    description := "Deep-fried meme look."
    strategy := .pipeline [
      { skill := "saturation", params := [("value", .number 3)] },
      { skill := "contrast", params := [("value", .number 2)] },
      { skill := "sharpen", params := [("amount", .number 5)] },
      { skill := "noise", params := [("amount", .number 40)] }]
    tags := ["deep_fried", "funny", "oversaturated"]
    aliases := ["deep_fried"] }]

end SkillPipeline.Catalogue
