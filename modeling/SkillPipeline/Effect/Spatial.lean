import SkillPipeline.Effect.Handler

namespace SkillPipeline.Effect

open FilterText Contribution

def corners (preset : String) (s : FilterText) : Except Fault FilterText :=
  match preset with
  | "tilt_back" => ofParts [.lit "x0=0:y0=0:x1=W:y1=0:x2=0+", .sub s, .lit ":y2=H:x3=W-", .sub s,
      .lit ":y3=H"]
  | "lean_left" => ofParts [.lit "x0=0:y0=0+", .sub s, .lit ":x1=W:y1=0:x2=0:y2=H:x3=W:y3=H-",
      .sub s]
  | "lean_right" => ofParts [.lit "x0=0:y0=0:x1=W:y1=0+", .sub s, .lit ":x2=0:y2=H-", .sub s,
      .lit ":x3=W:y3=H"]
  | _ => ofParts [.lit "x0=0+", .sub s, .lit ":y0=0:x1=W-", .sub s,
      .lit ":y1=0:x2=0:y2=H:x3=W:y3=H"]

/-- A positive ratio: two numbers with a colon between them, or one number. -/
def parseRatio (text : String) : Option Float :=
  (value? (Text.splitAt ':' text)).filter fun ratio => ratio.isFinite && ratio > 0
where
  value? : List String → Option Float
    | [a, b] => do return (← Number.read a) / (← Number.read b)
    | _ => Number.read text

def resize (p : Params) (_ : HandlerContext) : Except Fault Contribution := do
  let width ← p.int "width"
  let height ← p.int "height"
  videoOf [.lit "scale=", .num width, .lit ":", .num height]

def crop (p : Params) (_ : HandlerContext) : Except Fault Contribution := do
  let width ← p.text "width"
  let height ← p.text "height"
  let x ← p.text "x"
  let y ← p.text "y"
  videoOf [.lit "crop=", .sub width, .lit ":", .sub height, .lit ":", .sub x, .lit ":", .sub y]

def pad (p : Params) (_ : HandlerContext) : Except Fault Contribution := do
  let width ← p.text "width"
  let height ← p.text "height"
  let x ← p.text "x"
  let y ← p.text "y"
  let color ← p.text "color"
  videoOf [.lit "pad=", .sub width, .lit ":", .sub height, .lit ":", .sub x, .lit ":", .sub y,
    .lit ":", .sub color]

/-- Quarter and half turns move pixels exactly; other angles are interpolated. -/
def rotate (p : Params) (_ : HandlerContext) : Except Fault Contribution := do
  let angle ← p.float "angle"
  if angle == 90 || angle == -270 then videoOf [.lit "transpose=1"]
  else if angle == -90 || angle == 270 then videoOf [.lit "transpose=2"]
  else if angle.abs == 180 then videoOf [.lit "transpose=1,transpose=1"]
  else
    let radians ← places (angle * Number.pi / 180) 6
    let fill ← p.text "fill"
    videoOf [.lit "rotate=", .sub radians, .lit ":fillcolor=", .sub fill]

def flip (p : Params) (_ : HandlerContext) : Except Fault Contribution := do
  let direction ← p.string "direction"
  return .video [wording (if direction = "vertical" then "vflip" else "hflip")]

def zoomOffset (p : Params) (name size : String) (factor : Float) : Except Fault FilterText := do
  if p.has name then
    let middle ← p.float name
    ofParts [.lit size, .lit "*", .num middle, .lit "-", .lit size, .lit "/", .num factor,
      .lit "/2"]
  else ofParts [.lit "(", .lit size, .lit "-", .lit size, .lit "/", .num factor, .lit ")/2"]

def zoom (p : Params) (_ : HandlerContext) : Except Fault Contribution := do
  let f ← p.float "factor"
  let x ← zoomOffset p "x" "iw" f
  let y ← zoomOffset p "y" "ih" f
  videoOf [.lit "crop=iw/", .num f, .lit ":ih/", .num f, .lit ":", .sub x, .lit ":", .sub y,
    .lit ",scale=iw*", .num f, .lit ":ih*", .num f]

def kenBurns (p : Params) (ctx : HandlerContext) : Except Fault Contribution := do
  let amount ← p.float "amount"
  let seconds ← p.float "duration"
  let fps := ctx.primary.fps
  let size ← ofParts [.lit "s=", .num ctx.primary.width, .lit "x", .num ctx.primary.height,
    .lit ":fps=", .num fps]
  let even := "scale='trunc(iw/2)*2':'trunc(ih/2)*2'"
  let center := "y='ih/2-(ih/zoom/2)'"
  let rate ← places (amount / seconds / fps) 6
  let zf := 1 + amount
  match ← p.string "direction" with
  | "zoom_out" =>
    videoOf [.lit even, .lit ",zoompan=z='max(if(eq(on\\,1)\\,", .num zf, .lit "\\,zoom)-",
      .sub rate, .lit "\\,1)':d=1:x='iw/2-(iw/zoom/2)':", .lit center, .lit ":", .sub size]
  | "pan_right" =>
    let drift ← places amount 4
    videoOf [.lit even, .lit ",zoompan=z='", .num zf, .lit "':d=1:x='min(on*", .sub drift,
      .lit "*iw/", .num seconds, .lit "/", .num fps, .lit "\\,(iw-iw/", .num zf, .lit "))':",
      .lit center, .lit ":", .sub size]
  | "pan_left" =>
    let drift ← places amount 4
    videoOf [.lit even, .lit ",zoompan=z='", .num zf, .lit "':d=1:x='max((iw-iw/", .num zf,
      .lit ")-on*", .sub drift, .lit "*iw/", .num seconds, .lit "/", .num fps, .lit "\\,0)':",
      .lit center, .lit ":", .sub size]
  | _ =>
    videoOf [.lit even, .lit ",zoompan=z='min(max(zoom\\,pzoom)+", .sub rate, .lit "\\,", .num zf,
      .lit ")':d=1:x='iw/2-(iw/zoom/2)':", .lit center, .lit ":", .sub size]

def drift (p : Params) (_ : HandlerContext) : Except Fault Contribution := do
  let amount ← p.int "amount"
  let speed := if amount > 10 then Number.larger 1 (Number.floor (amount / 10)) else amount
  match ← p.string "direction" with
  | "left" =>
    videoOf [.lit "pad=iw+", .num amount, .lit ":ih:", .num amount, .lit ":0:black,crop=iw-",
      .num amount, .lit ":ih:max(", .num amount, .lit "-", .num speed, .lit "*t\\,0):0"]
  | "down" =>
    videoOf [.lit "pad=iw:ih+", .num amount, .lit ":0:0:black,crop=iw:ih-", .num amount,
      .lit ":0:min(", .num speed, .lit "*t\\,", .num amount, .lit ")"]
  | "up" =>
    videoOf [.lit "pad=iw:ih+", .num amount, .lit ":0:", .num amount, .lit ":black,crop=iw:ih-",
      .num amount, .lit ":0:max(", .num amount, .lit "-", .num speed, .lit "*t\\,0)"]
  | _ =>
    videoOf [.lit "pad=iw+", .num amount, .lit ":ih:0:0:black,crop=iw-", .num amount,
      .lit ":ih:min(", .num speed, .lit "*t\\,", .num amount, .lit "):0"]

def aspect (p : Params) (_ : HandlerContext) : Except Fault Contribution := do
  let ratio ← p.string "ratio"
  match parseRatio ratio with
  | none => .error (.validation (.invalidRatio ratio))
  | some r =>
    let wide ← ofParts [.lit "gt(iw/ih\\,", .num r, .lit ")"]
    match ← p.string "mode" with
    | "crop" =>
      videoOf [.lit "crop=if(", .sub wide, .lit "\\,ih*", .num r, .lit "\\,iw):if(", .sub wide,
        .lit "\\,ih\\,iw/", .num r, .lit ")"]
    | "stretch" =>
      videoOf [.lit "scale=if(", .sub wide, .lit "\\,iw\\,ih*", .num r, .lit "):if(", .sub wide,
        .lit "\\,iw/", .num r, .lit "\\,ih)"]
    | _ =>
      let color ← p.text "color"
      videoOf [.lit "pad=if(", .sub wide, .lit "\\,iw\\,ih*", .num r, .lit "):if(", .sub wide,
        .lit "\\,iw/", .num r, .lit "\\,ih):(ow-iw)/2:(oh-ih)/2:", .sub color]

def fixedNode (inputs : List Pad) (filter : String) (outputs : List String) : GraphNode :=
  ⟨inputs, wording filter, outputs⟩

def mirrorNodes (mode : String) : List GraphNode :=
  match mode with
  | "vertical" => [
      fixedNode [.main .video] "crop=iw:ih/2:0:0,split" ["top", "bottom"],
      fixedNode [.label "bottom"] "vflip" ["flipped"],
      fixedNode [.label "top", .label "flipped"] "vstack" ["out"]]
  | "quad" => [
      fixedNode [.main .video] "crop=iw/2:ih/2:0:0,split=4" ["a", "b", "c", "d"],
      fixedNode [.label "b"] "hflip" ["bh"],
      fixedNode [.label "c"] "vflip" ["cv"],
      fixedNode [.label "d"] "hflip,vflip" ["dh"],
      fixedNode [.label "a", .label "bh"] "hstack" ["upper"],
      fixedNode [.label "cv", .label "dh"] "hstack" ["lower"],
      fixedNode [.label "upper", .label "lower"] "vstack" ["out"]]
  | _ => [
      fixedNode [.main .video] "crop=iw/2:ih:0:0,split" ["left", "right"],
      fixedNode [.label "right"] "hflip" ["flipped"],
      fixedNode [.label "left", .label "flipped"] "hstack" ["out"]]

def mirror (p : Params) (_ : HandlerContext) : Except Fault Contribution := do
  return graph { nodes := mirrorNodes (← p.string "mode"), video? := some "out" }

def captionSpace (p : Params) (_ : HandlerContext) : Except Fault Contribution := do
  let height ← p.int "height"
  let y := if (← p.string "position") = "top" then height else 0
  let color ← p.text "color"
  videoOf [.lit "pad=iw:ih+", .num height, .lit ":0:", .num y, .lit ":", .sub color]

/-- Corners move by a quarter of the width at full strength. -/
def perspective (p : Params) (_ : HandlerContext) : Except Fault Contribution := do
  let preset ← p.string "preset"
  let strength ← p.float "strength"
  let offset ← ofParts [.lit "W*", .num strength, .lit "/4"]
  let expr ← corners preset offset
  videoOf [.lit "perspective=", .sub expr, .lit ":interpolation=linear:sense=source"]

def lensCorrection (p : Params) (_ : HandlerContext) : Except Fault Contribution := do
  let k1 ← p.decimal "k1"
  let k2 ← p.decimal "k2"
  videoOf [.lit "lenscorrection=k1=", .sub k1, .lit ":k2=", .sub k2, .lit ":i=bilinear"]

def shakeOffsets : List (String × Float) := [("light", 5), ("medium", 12), ("heavy", 25)]

def fillModes : List (String × Float) :=
  [("smear", 0), ("mirror", 1), ("fixed", 2), ("reflect", 3), ("wrap", 4), ("fade", 5)]

def deshakeEdges : List (String × Float) :=
  [("blank", 0), ("original", 1), ("clamp", 2), ("mirror", 3)]

def spin (p : Params) (_ : HandlerContext) : Except Fault Contribution := do
  let speed ← p.float "speed"
  let rate := speed * Number.pi / 180
  let signed := if (← p.string "direction") = "ccw" then -rate else rate
  let rate ← places signed 6
  let fill ← p.text "fill"
  videoOf [.lit "rotate=", .sub rate, .lit "*t:fillcolor=", .sub fill]

def shake (p : Params) (_ : HandlerContext) : Except Fault Contribution := do
  let a := (shakeOffsets.lookup (← p.string "intensity")).getD 12
  videoOf [.lit "crop=iw-", .num (2 * a), .lit ":ih-", .num (2 * a), .lit ":", .num a, .lit "+",
    .num a, .lit "*random(1):", .num a, .lit "+", .num a, .lit "*random(2),scale=iw+",
    .num (2 * a), .lit ":ih+", .num (2 * a)]

def pulse (p : Params) (ctx : HandlerContext) : Except Fault Contribution := do
  let fps := ctx.primary.fps
  let amount ← places (← p.float "amount") 3
  let rate ← p.decimal "rate"
  let z ← ofParts [.lit "1+", .sub amount, .lit "*(1+sin(2*PI*", .sub rate, .lit "*on/", .num fps,
    .lit "))/2"]
  videoOf [.lit "scale='trunc(iw/2)*2':'trunc(ih/2)*2',zoompan=z='", .sub z,
    .lit "':d=1:x='iw/2-(iw/zoom/2)':y='ih/2-(ih/zoom/2)':s=", .num ctx.primary.width, .lit "x",
    .num ctx.primary.height, .lit ":fps=", .num fps]

def bounce (p : Params) (_ : HandlerContext) : Except Fault Contribution := do
  let h ← p.int "height"
  let speed ← p.decimal "speed"
  videoOf [.lit "pad=iw:ih+", .num (2 * h), .lit ":0:", .num h, .lit ":black,crop=iw:ih-",
    .num (2 * h), .lit ":0:", .num h, .lit "*abs(sin(", .sub speed, .lit "*PI*t))"]

/-- Keeps the pixels where a condition holds and blackens the others. -/
def revealMask (cond : FilterText) : Except Fault Contribution :=
  videoOf [.lit "geq=lum='if(", .sub cond, .lit ",lum(X,Y),0)':cb='if(", .sub cond,
    .lit ",cb(X,Y),128)':cr='if(", .sub cond, .lit ",cr(X,Y),128)'"]

def irisReveal (p : Params) (_ : HandlerContext) : Except Fault Contribution := do
  let d ← p.decimal "duration"
  let cond ← ofParts [.lit "lte(hypot(X-W/2,Y-H/2),hypot(W/2,H/2)*min(T/", .sub d, .lit ",1))"]
  revealMask cond

def wipe (p : Params) (_ : HandlerContext) : Except Fault Contribution := do
  let d ← p.decimal "duration"
  let progress ← ofParts [.lit "min(T/", .sub d, .lit ",1)"]
  match ← p.string "direction" with
  | "right" => do revealMask (← ofParts [.lit "gte(X,W*(1-", .sub progress, .lit "))"])
  | "down" => do revealMask (← ofParts [.lit "lte(Y,H*", .sub progress, .lit ")"])
  | "up" => do revealMask (← ofParts [.lit "gte(Y,H*(1-", .sub progress, .lit "))"])
  | _ => do revealMask (← ofParts [.lit "lte(X,W*", .sub progress, .lit ")"])

def slideIn (p : Params) (_ : HandlerContext) : Except Fault Contribution := do
  let d ← p.decimal "duration"
  let done ← ofParts [.lit "min(t/", .sub d, .lit "\\,1)"]
  match ← p.string "direction" with
  | "right" => videoOf [.lit "pad=iw*2:ih:iw:0:black,crop=iw/2:ih:iw/2*", .sub done, .lit ":0"]
  | "down" =>
    videoOf [.lit "pad=iw:ih*2:0:0:black,crop=iw:ih/2:0:ih/2*(1-", .sub done, .lit ")"]
  | "up" => videoOf [.lit "pad=iw:ih*2:0:ih:black,crop=iw:ih/2:0:ih/2*", .sub done]
  | _ => videoOf [.lit "pad=iw*2:ih:0:0:black,crop=iw/2:ih:iw/2*(1-", .sub done, .lit "):0"]

def scroll (p : Params) (_ : HandlerContext) : Except Fault Contribution := do
  let s ← p.float "speed"
  let (axis, signed) := match ← p.string "direction" with
    | "down" => ("vertical", s)
    | "left" => ("horizontal", s)
    | "right" => ("horizontal", -s)
    | _ => ("vertical", -s)
  videoOf [.lit "scroll=", .lit axis, .lit "=", .sub (← decimal signed)]

def fillBorders (p : Params) (_ : HandlerContext) : Except Fault Contribution := do
  let left ← p.int "left"
  let right ← p.int "right"
  let top ← p.int "top"
  let bottom ← p.int "bottom"
  let mode := (fillModes.lookup (← p.string "mode")).getD 0
  videoOf [.lit "fillborders=left=", .num left, .lit ":right=", .num right, .lit ":top=", .num top,
    .lit ":bottom=", .num bottom, .lit ":mode=", .num mode]

def deshake (p : Params) (_ : HandlerContext) : Except Fault Contribution := do
  let rx ← p.int "rx"
  let ry ← p.int "ry"
  let edge := (deshakeEdges.lookup (← p.string "edge")).getD 1
  videoOf [.lit "deshake=rx=", .num rx, .lit ":ry=", .num ry, .lit ":edge=", .num edge]

def spatial : HandlerTable := [
  ("resize", { compile := resize }),
  ("crop", { compile := crop }),
  ("pad", { compile := pad }),
  ("rotate", { compile := rotate }),
  ("flip", { compile := flip }),
  ("zoom", { compile := zoom }),
  ("ken_burns", { compile := kenBurns }),
  ("drift", { compile := drift }),
  ("aspect", { compile := aspect }),
  ("mirror", { compile := mirror }),
  ("caption_space", { compile := captionSpace }),
  ("perspective", { compile := perspective }),
  ("lens_correction", { compile := lensCorrection }),
  ("spin", { compile := spin }),
  ("shake", { compile := shake }),
  ("pulse", { compile := pulse }),
  ("bounce", { compile := bounce }),
  ("iris_reveal", { compile := irisReveal }),
  ("wipe", { compile := wipe }),
  ("slide_in", { compile := slideIn }),
  ("scroll", { compile := scroll }),
  ("fill_borders", { compile := fillBorders }),
  ("deshake", { compile := deshake })]

end SkillPipeline.Effect
