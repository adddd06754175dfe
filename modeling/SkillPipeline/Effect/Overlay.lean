import SkillPipeline.Effect.Sequence

namespace SkillPipeline.Effect

open FilterText Contribution

def cornerCycle : List String := ["top_left", "top_right", "bottom_right", "bottom_left"]

def overlayCorner (position : String) (margin : Float) : Except Fault FilterText :=
  match position with
  | "top_left" => ofParts [.num margin, .lit ":", .num margin]
  | "top_right" => ofParts [.lit "W-w-", .num margin, .lit ":", .num margin]
  | "bottom_left" => ofParts [.num margin, .lit ":H-h-", .num margin]
  | "center" => ofParts [.lit "(W-w)/2:(H-h)/2"]
  | _ => ofParts [.lit "W-w-", .num margin, .lit ":H-h-", .num margin]

/-- The position of one of several overlays: they start at the wanted corner and go round. -/
def cornerFor (position : String) (index count : Nat) : String :=
  if count = 1 then position
  else
    let start := (cornerCycle.findIdx? (· == position)).getD 0
    cornerCycle.getD ((start + index) % cornerCycle.length) position

def claimOverlays (skill : String) (p : Params) (ctx : HandlerContext) :
    Except Fault (List Nat) := do
  match ← p.requestedInput with
  | some n => return [← ctx.claimExtra skill visualKinds (some n)]
  | none => ctx.claimExtras skill visualKinds (← p.int "count")

def overlaidLabel (index count : Nat) : String :=
  if index + 1 = count then "out" else numbered "tmp" index

def overlayBase (count : Nat) : (index : Nat) → Pad
  | 0 => .main .video
  | index + 1 => .label (overlaidLabel index count)

def overlayNodes (scale opacity margin : Float) (position : String) (count : Nat)
    (indexed : Nat × Nat) : Except Fault (List GraphNode) := do
  let (source, i) := indexed
  let fade ← if opacity < 1 then do
      ofParts [.lit ",colorchannelmixer=aa=", .sub (← decimal opacity)]
    else pure .empty
  let factor ← decimal scale
  let scaled ← GraphNode.of [.input source .video]
    [.lit "format=rgba,scale=iw*", .sub factor, .lit ":ih*", .sub factor, .sub fade]
    [numbered "ovl" i]
  let place ← overlayCorner (cornerFor position i count) margin
  let laid ← GraphNode.of [overlayBase count i, .label (numbered "ovl" i)]
    [.lit "overlay=", .sub place] [overlaidLabel i count]
  return [scaled, laid]

def overlayImages (p : Params) (ctx : HandlerContext) : Except Fault Contribution := do
  let scale ← p.float "scale"
  let opacity ← p.float "opacity"
  let margin ← p.int "margin"
  let position ← p.string "position"
  let sources := ctx.ownInputs
  let nodes ← sources.zipIdx.mapM (overlayNodes scale opacity margin position sources.length)
  return graph { nodes := nodes.flatten, video? := some "out" }

def pictureCorner (position : String) (margin : Float) : Except Fault FilterText :=
  match position with
  | "bottom_left" => ofParts [.num margin, .lit ":main_h-overlay_h-", .num margin]
  | "top_right" => ofParts [.lit "main_w-overlay_w-", .num margin, .lit ":", .num margin]
  | "top_left" => ofParts [.num margin, .lit ":", .num margin]
  | "center" => ofParts [.lit "(main_w-overlay_w)/2:(main_h-overlay_h)/2"]
  | _ => ofParts [.lit "main_w-overlay_w-", .num margin, .lit ":main_h-overlay_h-", .num margin]

/-- Videos come before still images. -/
def claimPicture (p : Params) (ctx : HandlerContext) : Except Fault (List Nat) := do
  match ← p.requestedInput with
  | some n => return [← ctx.claimExtra "pip" visualKinds (some n)]
  | none =>
    match ctx.freeExtras [.video] with
    | e :: _ => return [e.index]
    | [] => return [← ctx.claimExtra "pip" visualKinds none]

def pictureInPicture (p : Params) (ctx : HandlerContext) : Except Fault Contribution := do
  let source ← ctx.ownExtra "pip"
  let small ← GraphNode.of [.input source.index .video]
    [.lit "scale=iw*", .sub (← p.decimal "scale"), .lit ":-1"] ["pip"]
  let position ← p.string "position"
  let place ← pictureCorner position (← p.int "margin")
  let laid ← GraphNode.of [.main .video, .label "pip"]
    [.lit "overlay=", .sub place, .lit ":shortest=1"] ["out"]
  return graph { nodes := [small, laid], video? := some "out" }

def claimLayer (p : Params) (ctx : HandlerContext) : Except Fault (List Nat) := do
  let requested? ← p.requestedInput
  return [← ctx.claimExtra "blend" visualKinds requested?]

/-- A double exposure: an extra input scaled to the frame and blended over the main video. -/
def blend (p : Params) (ctx : HandlerContext) : Except Fault Contribution := do
  let extra ← ctx.ownExtra "blend"
  let still := if extra.kind = .image then "loop=loop=-1:size=1:start=0," else ""
  let top ← GraphNode.of [.input extra.index .video]
    [.lit still, .lit "scale=", .num ctx.primary.width, .lit ":", .num ctx.primary.height,
     .lit ",setsar=1"] ["top"]
  let mode ← p.text "mode"
  let opacity ← p.decimal "opacity"
  let blended ← GraphNode.of [.main .video, .label "top"]
    [.lit "blend=all_mode=", .sub mode, .lit ":all_opacity=", .sub opacity, .lit ":shortest=1"]
    ["out"]
  return graph { nodes := [top, blended], video? := some "out" }

def multiInput : HandlerTable := [
  ("concat", sequenceHandler concat),
  ("xfade", sequenceHandler xfade),
  ("grid", sequenceHandler grid),
  ("slideshow", sequenceHandler slideshow),
  ("overlay_image",
    { compile := overlayImages, reserve? := some (claimOverlays "overlay_image") }),
  ("watermark", { compile := overlayImages, reserve? := some (claimOverlays "watermark") }),
  ("split_screen", sequenceHandler splitScreen),
  ("pip", { compile := pictureInPicture, reserve? := some claimPicture }),
  ("blend", { compile := blend, reserve? := some claimLayer })]

end SkillPipeline.Effect
