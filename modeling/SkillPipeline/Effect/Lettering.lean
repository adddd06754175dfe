import SkillPipeline.Effect.Handler
import SkillPipeline.Effect.TextPayload
import SkillPipeline.Effect.Measure
import SkillPipeline.Files.Access

namespace SkillPipeline.Effect

open FilterText Contribution

def textPositions : List String :=
  ["center", "top", "bottom", "top_left", "top_right", "bottom_left", "bottom_right"]

structure Placement where
  x : FilterText
  y : FilterText

def placement (position : String) (margin : Float) : Except Fault Placement := do
  let near ← ofParts [.num margin]
  let right ← ofParts [.lit "w-text_w-", .num margin]
  let bottom ← ofParts [.lit "h-text_h-", .num margin]
  let middleX := wording "(w-text_w)/2"
  let middleY := wording "(h-text_h)/2"
  return match position with
    | "top" => ⟨middleX, near⟩
    | "bottom" => ⟨middleX, bottom⟩
    | "top_left" => ⟨near, near⟩
    | "top_right" => ⟨right, near⟩
    | "bottom_left" => ⟨near, bottom⟩
    | "bottom_right" => ⟨right, bottom⟩
    | _ => ⟨middleX, middleY⟩

def looksLikeFontFile (font : String) : Bool :=
  Text.contains font "/" || Text.contains font "\\"
    || Purpose.font.extensions.any (Text.endsWith (Text.lower font))

def fontOption (files : FileSystem) (font : String) : Except Fault FilterText := do
  if looksLikeFontFile font then
    return wording "fontfile=" ++ escaped (← files.accept font .font)
  else return wording "font=" ++ escaped font

def enableBetween (start stop : Float) : Except Fault FilterText :=
  ofParts [.lit ":enable='between(t,", .num start, .lit ",", .num stop, .lit ")'"]

structure OverlayStyle where
  text : String
  size : Float
  color : String
  position : String
  window : TextWindow Float

namespace OverlayStyle

def ofParams (p : Params) : Except Fault OverlayStyle := do
  let text ← p.string "text"
  let size ← p.int "size"
  let color ← p.string "color"
  let position ← p.string "position"
  let start ← p.float "start"
  let duration ← p.float "duration"
  return { text, size, color, position, window := ⟨start, duration⟩ }

/-- The text of an input counts before that of the step, and so does what an envelope says of
style. -/
def override (style : OverlayStyle) : Option TextPayload → OverlayStyle
  | none => style
  | some (.literal text) => { style with text }
  | some (.envelope e) =>
    { text := e.text
      size := match e.fontSize? with
        | some n => Number.nearest n
        | none => style.size
      color := (e.fontColor?.filter (· != "")).getD style.color
      position := (e.position?.filter textPositions.contains).getD style.position
      window := style.window.override e.startTime? e.endTime? }

end OverlayStyle

/-- A blinking text ignores its window. -/
def overlayEnable (blink : Float) (window : TextWindow Float) : Except Fault FilterText :=
  if blink > 0 then
    ofParts [.lit ":enable='lt(mod(t\\,", .num blink, .lit ")\\,", .num (blink / 2), .lit ")'"]
  else match window.visible with
    | .always => .ok .empty
    | .since start => ofParts [.lit ":enable='gte(t,", .num start, .lit ")'"]
    | .between start stop => enableBetween start stop

def textOverlay (p : Params) (ctx : HandlerContext) : Except Fault Contribution := do
  let style := (← OverlayStyle.ofParams p).override (TextPayload.first? ctx.textInputs)
  let position ← placement style.position (← p.int "margin")
  let border := if ← p.bool "border" then 2 else 0
  let box ← if p.has "background" then do
      let background ← p.text "background"
      ofParts [.lit ":box=1:boxcolor=", .sub background, .lit ":boxborderw=8"]
    else pure .empty
  let enable ← overlayEnable (← p.float "blink") style.window
  let font ← fontOption ctx.files (← p.string "font")
  let borderColor ← p.text "border_color"
  videoOf [.lit "drawtext=text=", .sub (escaped style.text), .lit ":", .sub font,
    .lit ":fontsize=", .num style.size, .lit ":fontcolor=", .sub (escaped style.color),
    .lit ":borderw=", .num border, .lit ":bordercolor=", .sub borderColor, .lit ":x=",
    .sub position.x, .lit ":y=", .sub position.y, .sub box, .sub enable]

/-- The text inputs passed over, once the step's own style is read. -/
def overlayNotices (p : Params) (ctx : HandlerContext) : List Notice :=
  match OverlayStyle.ofParams p with
  | .ok _ => TextPayload.skipped ctx.textInputs
  | .error _ => []

def lowerThird (p : Params) (_ : HandlerContext) : Except Fault Contribution := do
  let size ← p.int "fontsize"
  let color ← p.text "fontcolor"
  let background ← p.text "background"
  let start ← p.float "start"
  let enable ← enableBetween start (start + (← p.float "duration"))
  let text ← p.text "text"
  let title ← ofParts [.lit "drawtext=text=", .sub text, .lit ":fontsize=", .num size,
    .lit ":fontcolor=", .sub color, .lit ":x=40:y=h-text_h-60:box=1:boxcolor=", .sub background,
    .lit ":boxborderw=12:borderw=1:bordercolor=black", .sub enable]
  let subtext ← p.string "subtext"
  if subtext = "" then return .video [title]
  else
    let subSize := Number.larger (size - 10) 16
    let subtitle ← ofParts [.lit "drawtext=text=", .sub (escaped subtext), .lit ":fontsize=",
      .num subSize, .lit ":fontcolor=", .sub color, .lit "@0.8:x=40:y=h-", .num subSize,
      .lit "-25:box=1:boxcolor=", .sub background, .lit ":boxborderw=8", .sub enable]
    return .video [title, subtitle]

def countdown (p : Params) (_ : HandlerContext) : Except Fault Contribution := do
  let first ← p.int "start_from"
  let size ← p.int "fontsize"
  let color ← p.text "fontcolor"
  videoOf [.lit "drawtext=text='%\x7beif\\:", .num first, .lit "-t\\:d\x7d':fontsize=", .num size,
    .lit ":fontcolor=", .sub color,
    .lit ":x=(w-text_w)/2:y=(h-text_h)/2:borderw=3:bordercolor=black:enable='lte(t,", .num first,
    .lit ")'"]

def scrollingText (p : Params) (_ : HandlerContext) : Except Fault Contribution := do
  let text ← p.text "text"
  let size ← p.int "fontsize"
  let color ← p.text "fontcolor"
  let speed ← p.int "speed"
  videoOf [.lit "drawtext=text=", .sub text, .lit ":fontsize=", .num size, .lit ":fontcolor=",
    .sub color, .lit ":borderw=2:bordercolor=black:x=(w-text_w)/2:y=h-t*", .num speed]

/-- What all layers of a typed text share. -/
structure TypingStyle where
  size : Float
  color : FilterText
  font : FilterText
  position : Placement
  speed : Float
  start : Float

/-- The layer with the first `shown` characters of a text. The last layer stays. -/
def typingLayer (style : TypingStyle) (chars : List Char) (shown : Nat) :
    Except Fault FilterText := do
  let opening ← places (Typing.opening style.start style.speed (shown - 1)) 4
  let enable ← if shown < chars.length then do
      let closing ← places (Typing.opening style.start style.speed shown) 4
      ofParts [.lit ":enable='between(t\\,", .sub opening, .lit "\\,", .sub closing, .lit ")'"]
    else ofParts [.lit ":enable='gte(t\\,", .sub opening, .lit ")'"]
  ofParts [.lit "drawtext=text=", .sub (escaped (String.ofList (chars.take shown))), .lit ":",
    .sub style.font, .lit ":fontsize=", .num style.size, .lit ":fontcolor=", .sub style.color,
    .lit ":borderw=2:bordercolor=black:x=", .sub style.position.x, .lit ":y=",
    .sub style.position.y, .sub enable]

def typingLayers (style : TypingStyle) (chars : List Char) : Except Fault (List FilterText) :=
  (List.range chars.length).mapM fun n => typingLayer style chars (n + 1)

def typewriterText (p : Params) (ctx : HandlerContext) : Except Fault Contribution := do
  let text ← p.string "text"
  let size ← p.int "size"
  let color ← p.text "color"
  let font ← fontOption ctx.files (← p.string "font")
  let position ← placement (← p.string "position") 24
  let speed ← p.float "speed"
  let start ← p.float "start"
  return .video (← typingLayers { size, color, font, position, speed, start } text.toList)

def subtitleColors : List (String × String) := [
  ("white", "&H00FFFFFF"), ("black", "&H00000000"), ("red", "&H000000FF"),
  ("green", "&H0000FF00"), ("blue", "&H00FF0000"), ("yellow", "&H0000FFFF"),
  ("cyan", "&H00FFFF00"), ("magenta", "&H00FF00FF")]

/-- The subtitle colour that a name stands for, white if it names none. The name of something that
every object inherits finds that, which is no text to escape. -/
def subtitleColor (name : String) : Except Fault String :=
  match Members.find subtitleColors (Text.lower name) with
  | .own color => .ok color
  | .nothing => .ok "&H00FFFFFF"
  | .inherited m => .error (.invariant (.notText m.kindName))

def burnSubtitles (p : Params) (ctx : HandlerContext) : Except Fault Contribution := do
  let path ← ctx.files.accept (← p.string "path") .subtitle
  let color ← subtitleColor (← p.string "fontcolor")
  let size ← p.int "fontsize"
  videoOf [.lit "subtitles=", .sub (escaped path), .lit ":force_style='FontSize=", .num size,
    .lit "\\,PrimaryColour=", .sub (escaped color), .lit "'"]

/-- The vertical movement of an animated text, by the time since it appeared. -/
def textMotion (p : Params) (since : FilterText) : Except Fault FilterText := do
  match ← p.string "animation" with
  | "fade_in" => ofParts [.lit "y=(h-text_h)/2:alpha='min(", .sub since, .lit ",1)'"]
  | "slide_up" =>
    let speed ← p.int "speed"
    ofParts [.lit "y='max(h-", .sub since, .lit "*", .num speed, .lit ",(h-text_h)/2)'"]
  | "slide_down" =>
    let speed ← p.int "speed"
    ofParts [.lit "y='min(", .sub since, .lit "*", .num speed, .lit "-text_h,(h-text_h)/2)'"]
  | _ => return wording "y=(h-text_h)/2"

def animatedText (p : Params) (_ : HandlerContext) : Except Fault Contribution := do
  let start ← p.float "start"
  let since ← ofParts [.lit "(t-", .num start, .lit ")"]
  let motion ← textMotion p since
  let text ← p.text "text"
  let size ← p.int "fontsize"
  let color ← p.text "fontcolor"
  let enable ← enableBetween start (start + (← p.float "duration"))
  videoOf [.lit "drawtext=text=", .sub text, .lit ":fontsize=", .num size, .lit ":fontcolor=",
    .sub color, .lit ":borderw=2:bordercolor=black:x=(w-text_w)/2:", .sub motion, .sub enable]

def ticker (p : Params) (_ : HandlerContext) : Except Fault Contribution := do
  let size ← p.int "fontsize"
  let y := if (← p.string "position") = "top" then "12" else "h-text_h-12"
  let text ← p.text "text"
  let color ← p.text "fontcolor"
  let background ← p.text "background"
  let speed ← p.int "speed"
  videoOf [.lit "drawtext=text=", .sub text, .lit ":fontsize=", .num size, .lit ":fontcolor=",
    .sub color, .lit ":box=1:boxcolor=", .sub background, .lit ":boxborderw=8:x=w-mod(t*",
    .num speed, .lit "\\,w+text_w):y=", .lit y]

def bounceText (p : Params) (_ : HandlerContext) : Except Fault Contribution := do
  let start ← p.float "start"
  let since ← ofParts [.lit "(t-", .num start, .lit ")"]
  let height ← p.int "height"
  let y ← ofParts [.lit "(h-text_h)/2-abs(sin(", .sub since, .lit "*5)*", .num height,
    .lit "*max(0,1-", .sub since, .lit "*2))"]
  let text ← p.text "text"
  let size ← p.int "fontsize"
  let color ← p.text "fontcolor"
  let enable ← enableBetween start (start + (← p.float "duration"))
  videoOf [.lit "drawtext=text=", .sub text, .lit ":fontsize=", .num size, .lit ":fontcolor=",
    .sub color, .lit ":borderw=2:bordercolor=black:x=(w-text_w)/2:y='", .sub y, .lit "'",
    .sub enable]

def fadeText (p : Params) (_ : HandlerContext) : Except Fault Contribution := do
  let start ← p.float "start"
  let stop := start + (← p.float "duration")
  let fade ← p.float "fade"
  if fade * 2 > stop - start then .error (.validation (.fadeTooLong fade (stop - start)))
  else
    let alpha ← ofParts [.lit "if(lt(t,", .num (start + fade), .lit "),(t-", .num start, .lit ")/",
      .num fade, .lit ",if(gt(t,", .num (stop - fade), .lit "),(", .num stop, .lit "-t)/",
      .num fade, .lit ",1))"]
    let position ← placement (← p.string "position") 24
    let text ← p.text "text"
    let size ← p.int "fontsize"
    let color ← p.text "fontcolor"
    let enable ← enableBetween start stop
    videoOf [.lit "drawtext=text=", .sub text, .lit ":fontsize=", .num size, .lit ":fontcolor=",
      .sub color, .lit ":borderw=2:bordercolor=black:x=", .sub position.x, .lit ":y=",
      .sub position.y, .lit ":alpha='", .sub alpha, .lit "'", .sub enable]

def wordLine (words : List (List Char)) : String := Text.join " " (words.map String.ofList)

/-- The line up to a word, in the fill colour from the time the word is sung. -/
def karaokeLayer (p : Params) (head : FilterText) (words : List (List Char))
    (start step stop : Float) (index : Nat) : Except Fault FilterText := do
  let opening ← places (start + Float.ofNat index * step) 3
  let color ← p.text "fill_color"
  ofParts [.lit "drawtext=text=", .sub (escaped (wordLine (words.take (index + 1)))), .lit ":",
    .sub head, .lit ":fontcolor=", .sub color, .lit ":enable='between(t,", .sub opening, .lit ",",
    .num stop, .lit ")'"]

/-- The whole line first, then its beginnings in the fill colour, lit one after another. They share
the left edge of the line. -/
def karaokeText (p : Params) (_ : HandlerContext) : Except Fault Contribution := do
  let words := Text.words (← p.string "text").toList
  let size ← p.int "fontsize"
  let start ← p.float "start"
  let stop := start + (← p.float "duration")
  let step := (stop - start) / Number.larger (Float.ofNat words.length) 1
  let x ← p.int "x"
  let margin ← p.int "margin"
  let head ← ofParts [.lit "fontsize=", .num size, .lit ":borderw=2:bordercolor=black:x=", .num x,
    .lit ":y=h-", .num size, .lit "-", .num margin]
  let color ← p.text "base_color"
  let enable ← enableBetween start stop
  let base ← ofParts [.lit "drawtext=text=", .sub (escaped (wordLine words)), .lit ":", .sub head,
    .lit ":fontcolor=", .sub color, .sub enable]
  let layers ← (List.range words.length).mapM (karaokeLayer p head words start step stop)
  return .video (base :: layers)

def lettering : HandlerTable := [
  ("text_overlay", { compile := textOverlay, notices := overlayNotices }),
  ("lower_third", { compile := lowerThird }),
  ("countdown", { compile := countdown }),
  ("scrolling_text", { compile := scrollingText }),
  ("typewriter_text", { compile := typewriterText }),
  ("burn_subtitles", { compile := burnSubtitles }),
  ("animated_text", { compile := animatedText }),
  ("ticker", { compile := ticker }),
  ("bounce_text", { compile := bounceText }),
  ("fade_text", { compile := fadeText }),
  ("karaoke_text", { compile := karaokeText })]

end SkillPipeline.Effect
