import SkillPipeline.Skill.Basic

namespace SkillPipeline.Catalogue

def text : List Skill := [
  { name := "text_overlay"
    category := .text
    description := "Draw text over the video. Text inputs supplied with the request override the "
      ++ "text and styling."
    parameters := [
      { name := "text", type := .string,
        description := "Text to display",
        default? := some (.text "Hello"),
        aliases := ["content", "caption"] },
      { name := "size", type := .int,
        description := "Font size",
        default? := some (.number 48), min? := some 8, max? := some 400,
        aliases := ["fontsize", "font_size"] },
      { name := "color", type := .color,
        description := "Text colour",
        default? := some (.text "white"),
        aliases := ["fontcolor", "font_color"] },
      { name := "position", type := .enum,
        description := "Where the text sits",
        default? := some (.text "bottom"),
        choices? := some ["center", "top", "bottom", "top_left", "top_right", "bottom_left",
           "bottom_right"] },
      { name := "start", type := .float,
        description := "When the text appears (seconds)",
        default? := some (.number 0), min? := some 0 },
      { name := "duration", type := .float,
        description := "How long it stays (0 for the rest of the clip)",
        default? := some (.number 0), min? := some 0 },
      { name := "margin", type := .int,
        description := "Distance from the frame edge in pixels",
        default? := some (.number 24), min? := some 0, max? := some 1000 },
      { name := "border", type := .bool,
        description := "Outline the glyphs",
        default? := some (.flag true) },
      { name := "border_color", type := .color,
        description := "Outline colour",
        default? := some (.text "black") },
      { name := "background", type := .color,
        description := "Box colour behind the text, such as black@0.5" },
      { name := "blink", type := .float,
        description := "Blink period in seconds (0 disables blinking)",
        default? := some (.number 0), min? := some 0, max? := some 10 },
      { name := "font", type := .string,
        description := "Font family name or font file path",
        default? := some (.text "Sans") }]
    strategy := .handler "text_overlay"
    tags := ["title", "caption", "words"]
    examples := ["\x7b\"skill\": \"text_overlay\", \"params\": \x7b\"text\": \"Summer 2024\", "
      ++ "\"position\": \"top\"\x7d\x7d"]
    aliases := ["text", "caption", "add_text"] },
  { name := "lower_third"
    category := .text
    description := "Broadcast-style name plate in the lower third."
    parameters := [
      { name := "text", type := .string,
        description := "Main line, usually a name",
        default? := some (.text "Name"),
        aliases := ["name", "title"] },
      { name := "subtext", type := .string,
        description := "Second line, usually a role",
        default? := some (.text ""),
        aliases := ["subtitle", "role"] },
      { name := "fontsize", type := .int,
        description := "Main line font size",
        default? := some (.number 36), min? := some 8, max? := some 200,
        aliases := ["size"] },
      { name := "fontcolor", type := .color,
        description := "Text colour",
        default? := some (.text "white"),
        aliases := ["color"] },
      { name := "background", type := .color,
        description := "Plate colour",
        default? := some (.text "black@0.6") },
      { name := "start", type := .float,
        description := "When the plate appears",
        default? := some (.number 0), min? := some 0 },
      { name := "duration", type := .float,
        description := "How long it stays",
        default? := some (.number 5), min? := some 0.1 }]
    strategy := .handler "lower_third"
    tags := ["name", "interview", "broadcast"] },
  { name := "countdown"
    category := .text
    description := "Large countdown timer in the centre of the frame."
    parameters := [
      { name := "start_from", type := .int,
        description := "First number shown",
        default? := some (.number 10), min? := some 1, max? := some 3600,
        aliases := ["from", "seconds"] },
      { name := "fontsize", type := .int,
        description := "Font size",
        default? := some (.number 96), min? := some 8, max? := some 400,
        aliases := ["size"] },
      { name := "fontcolor", type := .color,
        description := "Text colour",
        default? := some (.text "white"),
        aliases := ["color"] }]
    strategy := .handler "countdown"
    tags := ["timer", "intro"] },
  { name := "scrolling_text"
    category := .text
    description := "Credits-style text rolling up the screen."
    parameters := [
      { name := "text", type := .string,
        description := "Text to scroll",
        default? := some (.text "Thanks for watching") },
      { name := "speed", type := .int,
        description := "Pixels per second",
        default? := some (.number 60), min? := some 1, max? := some 1000 },
      { name := "fontsize", type := .int,
        description := "Font size",
        default? := some (.number 36), min? := some 8, max? := some 200,
        aliases := ["size"] },
      { name := "fontcolor", type := .color,
        description := "Text colour",
        default? := some (.text "white"),
        aliases := ["color"] }]
    strategy := .handler "scrolling_text"
    tags := ["credits", "crawl"] },
  { name := "typewriter_text"
    category := .text
    description := "Text that appears one character at a time."
    parameters := [
      { name := "text", type := .string,
        description := "Text to type out",
        default? := some (.text "Typewriter") },
      { name := "size", type := .int,
        description := "Font size",
        default? := some (.number 48), min? := some 8, max? := some 400,
        aliases := ["fontsize"] },
      { name := "color", type := .color,
        description := "Text colour",
        default? := some (.text "white"),
        aliases := ["fontcolor"] },
      { name := "font", type := .string,
        description := "Font family name or font file path",
        default? := some (.text "Monospace") },
      { name := "position", type := .enum,
        description := "Where the text sits",
        default? := some (.text "center"),
        choices? := some ["center", "top", "bottom", "top_left", "top_right", "bottom_left",
           "bottom_right"] },
      { name := "speed", type := .float,
        description := "Characters per second",
        default? := some (.number 8), min? := some 0.5, max? := some 100 },
      { name := "start", type := .float,
        description := "When typing begins",
        default? := some (.number 0), min? := some 0 }]
    strategy := .handler "typewriter_text"
    tags := ["animated", "title"] },
  { name := "burn_subtitles"
    category := .text
    description := "Render a subtitle file into the picture."
    parameters := [
      { name := "path", type := .string,
        description := "Subtitle file (.srt, .ass, .ssa or .vtt)",
        required := true,
        aliases := ["file", "subtitles"] },
      { name := "fontsize", type := .int,
        description := "Font size",
        default? := some (.number 24), min? := some 8, max? := some 200,
        aliases := ["size"] },
      { name := "fontcolor", type := .string,
        description := "white, black, red, green, blue, yellow, cyan or magenta",
        default? := some (.text "white"),
        aliases := ["color"] }]
    strategy := .handler "burn_subtitles"
    tags := ["captions", "srt", "accessibility"]
    aliases := ["subtitles"] },
  { name := "animated_text"
    category := .text
    description := "Centred title that fades or slides into place."
    parameters := [
      { name := "text", type := .string,
        description := "Text to show",
        default? := some (.text "Title") },
      { name := "animation", type := .enum,
        description := "Entrance animation",
        default? := some (.text "fade_in"),
        choices? := some ["fade_in", "slide_up", "slide_down", "static"] },
      { name := "fontsize", type := .int,
        description := "Font size",
        default? := some (.number 64), min? := some 8, max? := some 400,
        aliases := ["size"] },
      { name := "fontcolor", type := .color,
        description := "Text colour",
        default? := some (.text "white"),
        aliases := ["color"] },
      { name := "speed", type := .int,
        description := "Slide speed in pixels per second",
        default? := some (.number 300), min? := some 10, max? := some 5000 },
      { name := "start", type := .float,
        description := "When the text appears",
        default? := some (.number 0), min? := some 0 },
      { name := "duration", type := .float,
        description := "How long it stays",
        default? := some (.number 4), min? := some 0.1 }]
    strategy := .handler "animated_text"
    tags := ["title", "intro", "motion"] },
  { name := "ticker"
    category := .text
    description := "News-style crawl along the top or bottom edge."
    parameters := [
      { name := "text", type := .string,
        description := "Crawl text",
        default? := some (.text "Breaking news") },
      { name := "position", type := .enum,
        description := "Edge of the frame",
        default? := some (.text "bottom"),
        choices? := some ["bottom", "top"] },
      { name := "speed", type := .int,
        description := "Pixels per second",
        default? := some (.number 120), min? := some 10, max? := some 2000 },
      { name := "fontsize", type := .int,
        description := "Font size",
        default? := some (.number 32), min? := some 8, max? := some 200,
        aliases := ["size"] },
      { name := "fontcolor", type := .color,
        description := "Text colour",
        default? := some (.text "white"),
        aliases := ["color"] },
      { name := "background", type := .color,
        description := "Band colour",
        default? := some (.text "black@0.6") }]
    strategy := .handler "ticker"
    tags := ["news", "crawl", "marquee"]
    aliases := ["news_ticker"] },
  { name := "bounce_text"
    category := .text
    description := "Text that drops in and bounces to rest in the centre."
    parameters := [
      { name := "text", type := .string,
        description := "Text to show",
        default? := some (.text "Bounce") },
      { name := "height", type := .int,
        description := "Height of the first bounce in pixels",
        default? := some (.number 200), min? := some 10, max? := some 2000 },
      { name := "fontsize", type := .int,
        description := "Font size",
        default? := some (.number 72), min? := some 8, max? := some 400,
        aliases := ["size"] },
      { name := "fontcolor", type := .color,
        description := "Text colour",
        default? := some (.text "yellow"),
        aliases := ["color"] },
      { name := "start", type := .float,
        description := "When the text appears",
        default? := some (.number 0), min? := some 0 },
      { name := "duration", type := .float,
        description := "How long it stays",
        default? := some (.number 3), min? := some 0.1 }]
    strategy := .handler "bounce_text"
    tags := ["title", "playful", "motion"] },
  { name := "fade_text"
    category := .text
    description := "Text that fades in, holds, and fades out."
    parameters := [
      { name := "text", type := .string,
        description := "Text to show",
        default? := some (.text "Fade") },
      { name := "position", type := .enum,
        description := "Where the text sits",
        default? := some (.text "center"),
        choices? := some ["center", "top", "bottom", "top_left", "top_right", "bottom_left",
           "bottom_right"] },
      { name := "fontsize", type := .int,
        description := "Font size",
        default? := some (.number 56), min? := some 8, max? := some 400,
        aliases := ["size"] },
      { name := "fontcolor", type := .color,
        description := "Text colour",
        default? := some (.text "white"),
        aliases := ["color"] },
      { name := "start", type := .float,
        description := "When the fade-in begins",
        default? := some (.number 0), min? := some 0 },
      { name := "duration", type := .float,
        description := "Total time on screen, fades included",
        default? := some (.number 4), min? := some 0.2 },
      { name := "fade", type := .float,
        description := "Length of each fade",
        default? := some (.number 1), min? := some 0.1, max? := some 30 }]
    strategy := .handler "fade_text"
    tags := ["title", "subtle", "intro"] },
  { name := "karaoke_text"
    category := .text
    description := "Sing-along line whose words light up one after another."
    parameters := [
      { name := "text", type := .string,
        description := "Lyric line",
        default? := some (.text "Sing along with me"),
        aliases := ["lyrics"] },
      { name := "fontsize", type := .int,
        description := "Font size",
        default? := some (.number 48), min? := some 8, max? := some 400,
        aliases := ["size"] },
      { name := "base_color", type := .color,
        description := "Colour of words not yet sung",
        default? := some (.text "white") },
      { name := "fill_color", type := .color,
        description := "Colour of sung words",
        default? := some (.text "yellow") },
      { name := "x", type := .int,
        description := "Left edge of the line",
        default? := some (.number 60), min? := some 0 },
      { name := "margin", type := .int,
        description := "Distance from the bottom edge",
        default? := some (.number 60), min? := some 0, max? := some 2000 },
      { name := "start", type := .float,
        description := "When the line appears",
        default? := some (.number 0), min? := some 0 },
      { name := "duration", type := .float,
        description := "Time to sing the whole line",
        default? := some (.number 5), min? := some 0.1 }]
    strategy := .handler "karaoke_text"
    tags := ["lyrics", "music", "sing"] }]

end SkillPipeline.Catalogue
