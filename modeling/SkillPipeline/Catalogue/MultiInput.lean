import SkillPipeline.Skill.Basic

namespace SkillPipeline.Catalogue

def multiInput : List Skill := [
  { name := "concat"
    category := .multiInput
    description := "Join the main clip and every free extra input end to end. Stills are held for "
      ++ "a fixed time."
    parameters := [
      { name := "width", type := .int,
        description := "Canvas width (defaults to the main clip's)",
        min? := some 16, max? := some 7680 },
      { name := "height", type := .int,
        description := "Canvas height (defaults to the main clip's)",
        min? := some 16, max? := some 4320 },
      { name := "still_duration", type := .float,
        description := "Seconds each still image is shown",
        min? := some 0.1, max? := some 600 },
      { name := "background", type := .color,
        description := "Letterbox colour when sizes differ",
        default? := some (.text "black") }]
    strategy := .handler "concat"
    tags := ["join", "sequence", "merge"]
    aliases := ["join"] },
  { name := "xfade"
    category := .multiInput
    description := "Join the main clip and the extra inputs with transitions between them."
    parameters := [
      { name := "transition", type := .enum,
        description := "Transition style",
        default? := some (.text "fade"),
        choices? := some ["fade", "fadeblack", "fadewhite", "dissolve", "wipeleft", "wiperight",
           "wipeup", "wipedown", "slideleft", "slideright", "slideup", "slidedown", "circlecrop",
           "rectcrop", "circleopen", "circleclose", "radial", "smoothleft", "smoothright",
           "distance", "pixelize"] },
      { name := "duration", type := .float,
        description := "Transition length (seconds)",
        default? := some (.number 1), min? := some 0.1, max? := some 10 },
      { name := "still_duration", type := .float,
        description := "Seconds each still image is shown",
        min? := some 0.1, max? := some 600 },
      { name := "width", type := .int,
        description := "Canvas width (defaults to the main clip's)",
        min? := some 16, max? := some 7680 },
      { name := "height", type := .int,
        description := "Canvas height (defaults to the main clip's)",
        min? := some 16, max? := some 4320 },
      { name := "background", type := .color,
        description := "Letterbox colour when sizes differ",
        default? := some (.text "black") }]
    strategy := .handler "xfade"
    tags := ["transition", "crossfade", "join"]
    examples := ["\x7b\"skill\": \"xfade\", \"params\": \x7b\"transition\": \"fade\", "
      ++ "\"duration\": 1.0\x7d\x7d"]
    aliases := ["crossfade", "transition"] },
  { name := "grid"
    category := .multiInput
    description := "Show several inputs at once in a grid."
    parameters := [
      { name := "columns", type := .int,
        description := "Cells per row",
        default? := some (.number 2), min? := some 1, max? := some 8,
        aliases := ["cols"] },
      { name := "gap", type := .int,
        description := "Pixels between cells",
        default? := some (.number 0), min? := some 0, max? := some 100 },
      { name := "duration", type := .float,
        description := "Output length (seconds); also how long stills are held",
        default? := some (.number 5), min? := some 0.1, max? := some 3600 },
      { name := "cell_width", type := .int,
        description := "Width of one cell",
        default? := some (.number 640), min? := some 16, max? := some 3840 },
      { name := "cell_height", type := .int,
        description := "Height of one cell",
        default? := some (.number 360), min? := some 16, max? := some 2160 },
      { name := "background", type := .color,
        description := "Colour behind and between cells",
        default? := some (.text "black") },
      { name := "include_video", type := .bool,
        description := "Put the main clip in the first cell",
        default? := some (.flag true) }]
    strategy := .handler "grid"
    tags := ["collage", "mosaic", "layout"]
    aliases := ["collage"] },
  { name := "slideshow"
    category := .multiInput
    description := "Slideshow of the extra inputs, optionally with fades between slides."
    parameters := [
      { name := "duration_per_image", type := .float,
        description := "Seconds per slide",
        default? := some (.number 3), min? := some 0.5, max? := some 600 },
      { name := "transition", type := .enum,
        description := "Between-slide transition",
        default? := some (.text "fade"),
        choices? := some ["fade", "none"] },
      { name := "transition_duration", type := .float,
        description := "Fade length (seconds)",
        default? := some (.number 0.5), min? := some 0.1, max? := some 5 },
      { name := "include_video", type := .bool,
        description := "Start with the main clip",
        default? := some (.flag false) },
      { name := "width", type := .int,
        description := "Canvas width (defaults to the main clip's)",
        min? := some 16, max? := some 7680 },
      { name := "height", type := .int,
        description := "Canvas height (defaults to the main clip's)",
        min? := some 16, max? := some 4320 },
      { name := "background", type := .color,
        description := "Letterbox colour",
        default? := some (.text "black") }]
    strategy := .handler "slideshow"
    tags := ["photos", "images", "gallery"] },
  { name := "overlay_image"
    category := .multiInput
    description := "Place one or more extra images or videos over the main clip."
    parameters := [
      { name := "position", type := .enum,
        description := "Corner of the first overlay; more overlays go clockwise",
        default? := some (.text "top_right"),
        choices? := some ["top_left", "top_right", "bottom_left", "bottom_right", "center"] },
      { name := "scale", type := .float,
        description := "Overlay size relative to its own size",
        default? := some (.number 0.25), min? := some 0.01, max? := some 1 },
      { name := "opacity", type := .float,
        description := "Overlay opacity",
        default? := some (.number 1), min? := some 0, max? := some 1 },
      { name := "margin", type := .int,
        description := "Distance from the frame edge",
        default? := some (.number 20), min? := some 0, max? := some 1000 },
      { name := "count", type := .int,
        description := "How many free extra inputs to overlay",
        default? := some (.number 1), min? := some 1, max? := some 8 },
      { name := "input", type := .int,
        description := "Overlay exactly this extra input",
        min? := some 1 }]
    strategy := .handler "overlay_image"
    tags := ["logo", "sticker", "composite"]
    aliases := ["overlay"] },
  { name := "watermark"
    category := .multiInput
    description := "Semi-transparent logo in a corner."
    parameters := [
      { name := "position", type := .enum,
        description := "Corner of the watermark",
        default? := some (.text "bottom_right"),
        choices? := some ["top_left", "top_right", "bottom_left", "bottom_right", "center"] },
      { name := "scale", type := .float,
        description := "Logo size relative to its own size",
        default? := some (.number 0.15), min? := some 0.01, max? := some 1 },
      { name := "opacity", type := .float,
        description := "Logo opacity",
        default? := some (.number 0.7), min? := some 0, max? := some 1 },
      { name := "margin", type := .int,
        description := "Distance from the frame edge",
        default? := some (.number 20), min? := some 0, max? := some 1000 },
      { name := "count", type := .int,
        description := "How many free extra inputs to use",
        default? := some (.number 1), min? := some 1, max? := some 8 },
      { name := "input", type := .int,
        description := "Use exactly this extra input",
        min? := some 1 }]
    strategy := .handler "watermark"
    tags := ["logo", "branding"] },
  { name := "split_screen"
    category := .multiInput
    description := "Main clip and extra inputs side by side or stacked."
    parameters := [
      { name := "layout", type := .enum,
        description := "Arrangement",
        default? := some (.text "horizontal"),
        choices? := some ["horizontal", "vertical"] },
      { name := "width", type := .int,
        description := "Width of each panel",
        default? := some (.number 960), min? := some 16, max? := some 3840 },
      { name := "height", type := .int,
        description := "Height of each panel",
        default? := some (.number 540), min? := some 16, max? := some 2160 },
      { name := "duration", type := .float,
        description := "Output length (0 runs to the end)",
        default? := some (.number 0), min? := some 0, max? := some 3600 },
      { name := "background", type := .color,
        description := "Letterbox colour inside panels",
        default? := some (.text "black") }]
    strategy := .handler "split_screen"
    tags := ["comparison", "side_by_side", "reaction"]
    aliases := ["side_by_side"] },
  { name := "pip"
    category := .multiInput
    description := "Picture-in-picture; an extra video plays in a corner."
    parameters := [
      { name := "position", type := .enum,
        description := "Corner of the inset",
        default? := some (.text "bottom_right"),
        choices? := some ["top_left", "top_right", "bottom_left", "bottom_right", "center"] },
      { name := "scale", type := .float,
        description := "Inset size relative to its own width",
        default? := some (.number 0.3), min? := some 0.05, max? := some 1 },
      { name := "margin", type := .int,
        description := "Distance from the frame edge",
        default? := some (.number 20), min? := some 0, max? := some 1000 },
      { name := "input", type := .int,
        description := "Extra input to inset",
        min? := some 1 }]
    strategy := .handler "pip"
    tags := ["inset", "reaction", "facecam"]
    aliases := ["picture_in_picture"] },
  { name := "blend"
    category := .multiInput
    description := "Double exposure; an extra input is scaled to the frame and blended over it."
    parameters := [
      { name := "mode", type := .enum,
        description := "Blend mode",
        default? := some (.text "screen"),
        choices? := some ["addition", "average", "darken", "difference", "hardlight", "lighten",
           "multiply", "overlay", "screen", "softlight"] },
      { name := "opacity", type := .float,
        description := "Strength of the extra layer",
        default? := some (.number 0.5), min? := some 0, max? := some 1 },
      { name := "input", type := .int,
        description := "Extra input to blend",
        min? := some 1 }]
    strategy := .handler "blend"
    tags := ["double_exposure", "mix", "layer"]
    aliases := ["double_exposure"] }]

end SkillPipeline.Catalogue
