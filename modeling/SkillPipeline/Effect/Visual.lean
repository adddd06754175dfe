import SkillPipeline.Effect.Handler
import SkillPipeline.Files.Access

namespace SkillPipeline.Effect

open FilterText Contribution

def denoiseStrengths : List (String × String) := [
  ("light", "hqdn3d=2:2:3:3"), ("medium", "hqdn3d=4:3:6:4"), ("strong", "hqdn3d=6:4:9:6")]

def grades : List (String × String) := [
  ("teal_orange", "eq=saturation=1.3:contrast=1.1,hue=h=-10"),
  ("warm", "eq=saturation=1.15:contrast=1.05,colorbalance=rs=0.1:gs=0.05:bs=-0.1"),
  ("cool", "eq=saturation=1.1:contrast=1.05,colorbalance=rs=-0.1:gs=0.0:bs=0.15"),
  ("desaturated", "eq=saturation=0.6:contrast=1.2:brightness=0.02"),
  ("high_contrast", "eq=contrast=1.4:saturation=1.15:brightness=-0.05")]

def tones : List (String × Float × Float) := [
  ("neutral", 0, 0), ("warm", -0.1, 0.2), ("cool", 0.2, -0.1), ("sepia_tone", -0.2, 0.15),
  ("blue_tone", 0.3, -0.05), ("green_tone", 0.1, -0.2)]

def sketches : List (String × String) := [
  ("pencil", "edgedetect=low=0.1:high=0.3,negate"),
  ("ink", "edgedetect=low=0.08:high=0.4,negate"),
  ("color", "edgedetect=low=0.1:high=0.3:mode=colormix")]

def palettes : List (String × String) := [
  ("heat", "pseudocolor=c0='if(lt(val,128),val*2,255)'"
    ++ ":c1='if(lt(val,128),0,(val-128)*2)'"
    ++ ":c2='if(lt(val,64),255-val*4,0)'"),
  ("thermal", "pseudocolor=c0='if(lt(val,85),0,if(lt(val,170),(val-85)*3,255))'"
    ++ ":c1='if(lt(val,85),val*3,if(lt(val,170),255,255-(val-170)*3))'"
    ++ ":c2='if(lt(val,85),255,if(lt(val,170),255-(val-85)*3,0))'"),
  ("electric", "pseudocolor=c0='if(lt(val,128),0,(val-128)*2)':c1='val':c2='255-val'"),
  ("blues", "pseudocolor=c0='val/3':c1='val/2':c2='val'"),
  ("rainbow", "pseudocolor=preset=spectral")]

def channelSwaps : List (String × String) := [
  ("swap_rb", "colorchannelmixer=rr=0:rb=1:br=1:bb=0"),
  ("swap_rg", "colorchannelmixer=rr=0:rg=1:gr=1:gg=0"),
  ("swap_gb", "colorchannelmixer=gg=0:gb=1:bg=1:bb=0"),
  ("nightvision", "colorchannelmixer=rr=0.2:rg=0.4:rb=0.1:gr=0.3:gg=0.9:gb=0.2:br=0.1:bg=0.2"
    ++ ":bb=0.1"),
  ("matrix", "colorchannelmixer=rr=0.1:rg=0.3:rb=0:gr=0.2:gg=1:gb=0.1:br=0:bg=0.2:bb=0.1")]

structure ComicStyle where
  levels : Float
  edges : String
  finish : String

def classicComic : ComicStyle :=
  ⟨6, "edgedetect=low=0.1:high=0.4", "eq=saturation=1.5:contrast=1.3"⟩

def comicStyles : List (String × ComicStyle) := [
  ("classic", classicComic),
  ("manga", ⟨4, "edgedetect=low=0.05:high=0.3", "hue=s=0,eq=contrast=1.6"⟩),
  ("pop_art", ⟨3, "edgedetect=low=0.15:high=0.5", "eq=saturation=2.2:contrast=1.4"⟩)]

/-- The filter of a choice, or a fixed one for a choice that the table does not know. -/
def chosen (table : List (String × String)) (param fallback : String) (p : Params)
    (_ : HandlerContext) : Except Fault Contribution := do
  return .video [wording ((table.lookup (← p.string param)).getD fallback)]

def valued (start param ending : String) (p : Params) (_ : HandlerContext) :
    Except Fault Contribution := do
  let value ← p.float param
  videoOf [.lit start, .num value, .lit ending]

/-- Keys the main video and lays it over a solid colour, unless it stays transparent. -/
def keyed (key : FilterText) (background : String) : Contribution :=
  if background = "transparent" then .video [key]
  else
    let solid := wording "drawbox=c=" ++ escaped background ++ wording ":t=fill"
    graph {
      nodes := [
        ⟨[.main .video], wording "split", ["fg", "bg"]⟩,
        ⟨[.label "fg"], key, ["keyed"]⟩,
        ⟨[.label "bg"], solid, ["solid"]⟩,
        ⟨[.label "solid", .label "keyed"], wording "overlay=format=auto", ["out"]⟩]
      video? := some "out" }

/-- A branch of the main video is treated and joined with the untouched one. -/
def branched (untouched branch treated : String) (treatment : FilterText)
    (joining : FilterText) : Fragment where
  nodes := [
    ⟨[.main .video], wording "split", [untouched, branch]⟩,
    ⟨[.label branch], treatment, [treated]⟩,
    ⟨[.label untouched, .label treated], joining, ["out"]⟩]
  video? := some "out"

/-- A fade-out ends with the clip, so where it starts depends on the length of the clip. -/
def fadeOutStart (skill : String) (ctx : HandlerContext) (length : Float) : Except Fault Float :=
  match ctx.primary.duration? with
  | none => .error (.validation (.unknownLength skill .placeFadeOut))
  | some total => .ok (Number.larger 0 (total - length))

/-- The angle of a vignette goes from a sixth of half a turn to a quarter turn. -/
def vignette (p : Params) (_ : HandlerContext) : Except Fault Contribution := do
  let intensity ← p.float "intensity"
  let angle := Number.pi / 6 + intensity * (Number.pi / 2 - Number.pi / 6)
  videoOf [.lit "vignette=angle=", .sub (← places angle 4)]

def blur (p : Params) (_ : HandlerContext) : Except Fault Contribution := do
  let r ← p.int "radius"
  videoOf [.lit "boxblur=", .num r, .lit ":", .num r]

def fade (p : Params) (ctx : HandlerContext) : Except Fault Contribution := do
  let d ← p.decimal "duration"
  let type ← p.string "type"
  if type = "both" then
    let start ← fadeOutStart "fade" ctx (← p.float "duration")
    let fadeIn ← ofParts [.lit "fade=t=in:st=0:d=", .sub d]
    let fadeOut ← ofParts [.lit "fade=t=out:st=", .sub (← decimal start), .lit ":d=", .sub d]
    return .video [fadeIn, fadeOut]
  else
    let start ← p.decimal "start"
    videoOf [.lit "fade=t=", .lit (if type = "out" then "out" else "in"), .lit ":st=", .sub start,
      .lit ":d=", .sub d]

def chromakey (p : Params) (_ : HandlerContext) : Except Fault Contribution := do
  let color ← p.text "color"
  let similarity ← p.decimal "similarity"
  let blend ← p.decimal "blend"
  let key ← ofParts [.lit "colorkey=color=", .sub color, .lit ":similarity=", .sub similarity,
    .lit ":blend=", .sub blend]
  return keyed key (← p.string "background")

def lumakey (p : Params) (_ : HandlerContext) : Except Fault Contribution := do
  let threshold ← p.decimal "threshold"
  let tolerance ← p.decimal "tolerance"
  let softness ← p.decimal "softness"
  let key ← ofParts [.lit "lumakey=threshold=", .sub threshold, .lit ":tolerance=", .sub tolerance,
    .lit ":softness=", .sub softness]
  return keyed key (← p.string "background")

def selectiveColor (p : Params) (_ : HandlerContext) : Except Fault Contribution := do
  let cyan ← p.float "cyan"
  let magenta ← p.float "magenta"
  let yellow ← p.float "yellow"
  let black ← p.float "black"
  let shares ← ofParts [.num cyan, .lit " ", .num magenta, .lit " ", .num yellow, .lit " ",
    .num black]
  let range ← p.text "color_range"
  videoOf [.lit "selectivecolor=", .sub range, .lit "='", .sub shares, .lit "'"]

def monochrome (p : Params) (_ : HandlerContext) : Except Fault Contribution := do
  let (cb, cr) := (tones.lookup (← p.string "preset")).getD (0, 0)
  let cb ← decimal cb
  let cr ← decimal cr
  let size ← p.decimal "size"
  videoOf [.lit "monochrome=cb=", .sub cb, .lit ":cr=", .sub cr, .lit ":size=", .sub size]

def colorTemperature (p : Params) (_ : HandlerContext) : Except Fault Contribution := do
  let temperature ← p.int "temperature"
  let mix ← p.decimal "mix"
  videoOf [.lit "colortemperature=temperature=", .num temperature, .lit ":mix=", .sub mix]

def pixelate (p : Params) (_ : HandlerContext) : Except Fault Contribution := do
  let f ← p.int "factor"
  videoOf [.lit "scale=iw/", .num f, .lit ":ih/", .num f, .lit ",scale=iw*", .num f, .lit ":ih*",
    .num f, .lit ":flags=neighbor"]

/-- The expression that rounds a value down to a multiple of `step`. -/
def quantised (step : Float) : Except Fault FilterText :=
  ofParts [.lit "trunc(val/", .num step, .lit ")*", .num step]

def posterize (p : Params) (_ : HandlerContext) : Except Fault Contribution := do
  let levels ← p.int "levels"
  let expr ← quantised (Number.larger 1 (Number.floor (256 / levels)))
  videoOf [.lit "lutrgb=r='", .sub expr, .lit "':g='", .sub expr, .lit "':b='", .sub expr, .lit "'"]

def glow (p : Params) (_ : HandlerContext) : Except Fault Contribution := do
  let strength := Number.larger 0.1 (Number.smaller 0.8 (← p.float "strength"))
  let radius ← p.decimal "radius"
  let soft ← ofParts [.lit "gblur=sigma=", .sub radius]
  let joined ← ofParts [.lit "blend=all_mode=screen:all_opacity=", .sub (← decimal strength)]
  return graph (branched "base" "halo" "soft" soft joined)

def applyTable (p : Params) (ctx : HandlerContext) : Except Fault Contribution := do
  let intensity ← p.float "intensity"
  let path ← ctx.files.accept (← p.string "path") .lut
  let lut := wording "lut3d=file=" ++ escaped path
  if intensity <= 0 then return {}
  else if intensity >= 1 then return .video [lut]
  else
    let joined ← ofParts [.lit "blend=all_mode=normal:all_opacity=", .sub (← decimal intensity)]
    return graph (branched "orig" "src" "graded" lut joined)

def fadePair (suffix : String) (p : Params) (ctx : HandlerContext) :
    Except Fault Contribution := do
  let fadeIn ← p.float "in_duration"
  let fadeOut ← p.float "out_duration"
  let first ← if fadeIn > 0 then do
      let d ← decimal fadeIn
      pure [← ofParts [.lit "fade=t=in:st=0:d=", .sub d, .lit suffix]]
    else pure []
  let last ← if fadeOut > 0 then do
      let start ← fadeOutStart p.skill.name ctx fadeOut
      let start ← decimal start
      let d ← decimal fadeOut
      pure [← ofParts [.lit "fade=t=out:st=", .sub start, .lit ":d=", .sub d, .lit suffix]]
    else pure []
  return .video (first ++ last)

def flash (p : Params) (_ : HandlerContext) : Except Fault Contribution := do
  let t ← p.float "time"
  let half := (← p.float "duration") / 2
  let start ← decimal t
  let length ← decimal half
  let turn ← decimal (t + half)
  videoOf [.lit "fade=t=out:st=", .sub start, .lit ":d=", .sub length,
    .lit ":c=white,fade=t=in:st=", .sub turn, .lit ":d=", .sub length, .lit ":c=white"]

def deband (p : Params) (_ : HandlerContext) : Except Fault Contribution := do
  let t ← p.decimal "threshold"
  let range ← p.int "range"
  let blur ← p.bool "blur"
  videoOf [.lit "deband=1thr=", .sub t, .lit ":2thr=", .sub t, .lit ":3thr=", .sub t,
    .lit ":4thr=", .sub t, .lit ":range=", .num range, .lit ":blur=", .num (if blur then 1 else 0)]

def chromaticAberration (p : Params) (_ : HandlerContext) : Except Fault Contribution := do
  let a ← p.int "amount"
  let half := Number.floor (a / 2)
  videoOf [.lit "rgbashift=rh=-", .num a, .lit ":bh=", .num a, .lit ":rv=", .num half,
    .lit ":bv=-", .num half]

def ghostTrail (p : Params) (_ : HandlerContext) : Except Fault Contribution := do
  let decay ← p.float "decay"
  videoOf [.lit "lagfun=decay=", .num (Number.larger 0.9 (Number.smaller 0.995 decay))]

def maskBlur (p : Params) (_ : HandlerContext) : Except Fault Contribution := do
  let x ← p.int "x"
  let y ← p.int "y"
  let w ← p.int "w"
  let h ← p.int "h"
  let strength ← p.int "strength"
  let blurred ← ofParts [.lit "crop=", .num w, .lit ":", .num h, .lit ":", .num x, .lit ":",
    .num y, .lit ",boxblur=", .num strength]
  let joined ← ofParts [.lit "overlay=", .num x, .lit ":", .num y, .lit ":shortest=1"]
  return graph (branched "base" "region" "blurred" blurred joined)

def datamosh (p : Params) (_ : HandlerContext) : Except Fault Contribution := do
  let mode ← p.text "mode"
  return { videoFilters := [wording "codecview=mv=" ++ mode]
           inputFlags := ["-flags2", "+export_mvs"] }

def sepiaCell (intensity : Float) (onDiagonal : Bool) (weight : Float) :
    Except Fault FilterText :=
  places ((if onDiagonal then 1 - intensity else 0) + intensity * weight) 3

def sepia (p : Params) (_ : HandlerContext) : Except Fault Contribution := do
  let i ← p.float "intensity"
  let rr ← sepiaCell i true 0.393
  let rg ← sepiaCell i false 0.769
  let rb ← sepiaCell i false 0.189
  let gr ← sepiaCell i false 0.349
  let gg ← sepiaCell i true 0.686
  let gb ← sepiaCell i false 0.168
  let br ← sepiaCell i false 0.272
  let bg ← sepiaCell i false 0.534
  let bb ← sepiaCell i true 0.131
  videoOf [.lit "colorchannelmixer=rr=", .sub rr, .lit ":rg=", .sub rg, .lit ":rb=", .sub rb,
    .lit ":gr=", .sub gr, .lit ":gg=", .sub gg, .lit ":gb=", .sub gb, .lit ":br=", .sub br,
    .lit ":bg=", .sub bg, .lit ":bb=", .sub bb]

def tiltShift (p : Params) (_ : HandlerContext) : Except Fault Contribution := do
  let focus ← p.float "focus_position"
  let low ← places (Number.larger 0 (focus - 0.15)) 2
  let high ← places (Number.smaller 1 (focus + 0.15)) 2
  let amount ← p.decimal "blur_amount"
  let blurred ← ofParts [.lit "gblur=sigma=", .sub amount]
  let joined ← ofParts [.lit "blend=all_expr='if(between(Y/H\\,", .sub low, .lit "\\,", .sub high,
    .lit ")\\,A\\,B)'"]
  return graph (branched "sharp" "soft" "blurred" blurred joined)

def halftone (p : Params) (_ : HandlerContext) : Except Fault Contribution := do
  let f ← places (2 * Number.pi / (← p.int "dot_size")) 4
  videoOf [.lit "format=gray,geq=lum='if(gt(lum(X\\,Y)\\,128+127*sin(X*", .sub f,
    .lit ")*sin(Y*", .sub f, .lit "))\\,255\\,0)'"]

def colorhold (p : Params) (_ : HandlerContext) : Except Fault Contribution := do
  let color ← p.text "color"
  let similarity ← p.decimal "similarity"
  let blend ← p.decimal "blend"
  videoOf [.lit "colorhold=color=", .sub color, .lit ":similarity=", .sub similarity,
    .lit ":blend=", .sub blend]

def despill (p : Params) (_ : HandlerContext) : Except Fault Contribution := do
  let type ← p.text "type"
  let mix ← p.decimal "mix"
  let expand ← p.decimal "expand"
  let brightness ← p.decimal "brightness"
  videoOf [.lit "despill=type=", .sub type, .lit ":mix=", .sub mix, .lit ":expand=", .sub expand,
    .lit ":brightness=", .sub brightness]

def comicBook (p : Params) (_ : HandlerContext) : Except Fault Contribution := do
  let style := (comicStyles.lookup (← p.string "style")).getD classicComic
  let expr ← quantised (Number.floor (256 / style.levels))
  let flat ← ofParts [.lit "lutrgb=r='", .sub expr, .lit "':g='", .sub expr, .lit "':b='",
    .sub expr, .lit "',", .lit style.finish]
  return graph {
    nodes := [
      ⟨[.main .video], wording "split", ["base", "lines"]⟩,
      ⟨[.label "lines"], wording style.edges ++ wording ",negate", ["ink"]⟩,
      ⟨[.label "base"], flat, ["flat"]⟩,
      ⟨[.label "flat", .label "ink"], wording "blend=all_mode=multiply", ["out"]⟩]
    video? := some "out" }

def visual : HandlerTable := [
  ("brightness", { compile := valued "eq=brightness=" "value" "" }),
  ("contrast", { compile := valued "eq=contrast=" "value" "" }),
  ("saturation", { compile := valued "eq=saturation=" "value" "" }),
  ("hue", { compile := valued "hue=h=" "value" "" }),
  ("sharpen", { compile := valued "unsharp=5:5:" "amount" ":5:5:0" }),
  ("blur", { compile := blur }),
  ("denoise", { compile := chosen denoiseStrengths "strength" "hqdn3d=4:3:6:4" }),
  ("vignette", { compile := vignette }),
  ("fade", { compile := fade }),
  ("color_grade", { compile := chosen grades "style" "eq=saturation=1.3:contrast=1.1,hue=h=-10" }),
  ("chromakey", { compile := chromakey }),
  ("lumakey", { compile := lumakey }),
  ("selective_color", { compile := selectiveColor }),
  ("monochrome", { compile := monochrome }),
  ("color_temperature", { compile := colorTemperature }),
  ("pixelate", { compile := pixelate }),
  ("posterize", { compile := posterize }),
  ("glow", { compile := glow }),
  ("lut_apply", { compile := applyTable }),
  ("fade_to_black", { compile := fadePair "" }),
  ("fade_to_white", { compile := fadePair ":c=white" }),
  ("flash", { compile := flash }),
  ("deband", { compile := deband }),
  ("chromatic_aberration", { compile := chromaticAberration }),
  ("sketch", { compile := chosen sketches "mode" "edgedetect=low=0.1:high=0.3,negate" }),
  ("ghost_trail", { compile := ghostTrail }),
  ("mask_blur", { compile := maskBlur }),
  ("datamosh", { compile := datamosh }),
  ("sepia", { compile := sepia }),
  ("tilt_shift", { compile := tiltShift }),
  ("halftone", { compile := halftone }),
  ("false_color", { compile := chosen palettes "palette" "pseudocolor=preset=spectral" }),
  ("color_channel_swap",
    { compile := chosen channelSwaps "preset" "colorchannelmixer=rr=0:rb=1:br=1:bb=0" }),
  ("colorhold", { compile := colorhold }),
  ("despill", { compile := despill }),
  ("comic_book", { compile := comicBook })]

end SkillPipeline.Effect
