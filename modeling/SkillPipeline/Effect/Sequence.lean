import SkillPipeline.Effect.Measure
import SkillPipeline.Effect.Handler

namespace SkillPipeline.Effect

open FilterText Contribution

def visualKinds : List MediaKind := [.video, .image]

/-- One part of a sequence; without an extra input it is the main video. -/
structure SequenceSegment where
  pad : Pad
  still : Bool
  extra? : Option ExtraInput

structure Canvas where
  width : Float
  height : Float
  fps : Float
  background : FilterText

def claimRest (_ : Params) (ctx : HandlerContext) : Except Fault (List Nat) :=
  .ok ((ctx.freeExtras visualKinds).map (·.index))

def segmentOf (e : ExtraInput) : SequenceSegment :=
  ⟨.input e.index .video, e.kind == .image, some e⟩

def sequenceSegments (ctx : HandlerContext) (includeMain : Bool) : List SequenceSegment :=
  (if includeMain then [⟨.main .video, false, none⟩] else [])
    ++ (ctx.ownInputs.filterMap ctx.extra?).map segmentOf

def requireSegments (skill : String) (least : Nat) (segments : List SequenceSegment) :
    Except Fault Unit :=
  if segments.length < least then
    .error (.validation (.tooFewInputs skill least segments.length))
  else .ok ()

def canvasOf (p : Params) (ctx : HandlerContext) (width height : String) :
    Except Fault Canvas := do
  let width ← p.int width (some ctx.primary.width)
  let height ← p.int height (some ctx.primary.height)
  let background ← if p.has "background" then p.text "background" else pure (wording "black")
  return { width, height, fps := ctx.primary.fps, background }

/-- Scales a picture into the canvas and fills the rest with the background. -/
def Canvas.fit (c : Canvas) : Except Fault FilterText :=
  ofParts [.lit "scale=", .num c.width, .lit ":", .num c.height,
    .lit ":force_original_aspect_ratio=decrease,pad=", .num c.width, .lit ":", .num c.height,
    .lit ":(ow-iw)/2:(oh-ih)/2:", .sub c.background, .lit ",setsar=1"]

/-- A still image is held for some seconds and fitted; a video is fitted and retimed. -/
def prepareSegment (c : Canvas) (seconds : Float) (retime : FilterText) (s : SequenceSegment) :
    Except Fault FilterText := do
  let fit ← c.fit
  if s.still then
    let frames := Number.truncate (seconds * c.fps)
    ofParts [.lit "loop=loop=", .num frames, .lit ":size=1:start=0,setpts=N/", .num c.fps,
      .lit "/TB,", .sub fit]
  else return fit ++ retime

def numbered (name : String) (index : Nat) : String := name ++ toString index

def numberedLabels (name : String) (count : Nat) : List Pad :=
  (List.range count).map fun i => .label (numbered name i)

/-- The audio of a segment: its own, or silence under a still image. -/
def segmentAudio (s : SequenceSegment) (seconds : Float) (output : String) :
    Except Fault GraphNode := do
  if s.still then
    let length ← decimal seconds
    GraphNode.of [] [.lit "anullsrc=r=44100:cl=stereo,atrim=0:", .sub length,
      .lit ",asetpts=PTS-STARTPTS"] [output]
  else
    let source : Pad := match s.extra? with
      | some e => .input e.index .audio
      | none => .main .audio
    GraphNode.of [source] [.lit "aresample=44100,asetpts=PTS-STARTPTS"] [output]

/-- Starts the time of a segment at zero and brings it to the common frame rate. -/
def restart (c : Canvas) : Except Fault FilterText :=
  ofParts [.lit ",setpts=PTS-STARTPTS,fps=", .num c.fps]

def sameRate (c : Canvas) : Except Fault FilterText := ofParts [.lit ",fps=", .num c.fps]

def concatSegment (c : Canvas) (still : Float) (withAudio : Bool)
    (indexed : SequenceSegment × Nat) : Except Fault (List GraphNode) := do
  let (s, i) := indexed
  let filter ← prepareSegment c still (← restart c) s
  let video : GraphNode := ⟨[s.pad], filter, [numbered "v" i]⟩
  if withAudio then return [video, ← segmentAudio s still (numbered "a" i)]
  else return [video]

/-- The labels that are joined: the video of each segment, followed by its audio. -/
def concatPads (count : Nat) (withAudio : Bool) : List Pad :=
  (List.range count).flatMap fun i =>
    if withAudio then [.label (numbered "v" i), .label (numbered "a" i)]
    else [.label (numbered "v" i)]

def concat (p : Params) (ctx : HandlerContext) : Except Fault Contribution := do
  let segments := sequenceSegments ctx true
  requireSegments "concat" 2 segments
  let c ← canvasOf p ctx "width" "height"
  let still ← p.float "still_duration" (some ctx.stillDuration)
  let withAudio := ctx.primary.hasAudio
  let nodes ← segments.zipIdx.mapM (concatSegment c still withAudio)
  let joined ← GraphNode.of (concatPads segments.length withAudio)
    [.lit "concat=n=", .num (Float.ofNat segments.length), .lit ":v=1:a=",
     .num (if withAudio then 1 else 0)]
    (if withAudio then ["outv", "outa"] else ["outv"])
  return graph { nodes := nodes.flatten ++ [joined], video? := some "outv"
                 audio? := if withAudio then some "outa" else none }

def segmentSeconds (ctx : HandlerContext) (still : Float) (s : SequenceSegment) : Float :=
  match s.extra? with
  | some e => ctx.segmentDuration e still
  | none => ctx.primary.duration?.getD still

def joinedLabel (first later : String) : (count : Nat) → String
  | 0 => first
  | count + 1 => numbered later (count + 1)

def crossfadeNode (transition : FilterText) (length : Float) (indexed : Float × Nat) :
    Except Fault GraphNode := do
  let (offset, k) := indexed
  let duration ← decimal length
  let offset ← decimal offset
  GraphNode.of [.label (joinedLabel "v0" "x" k), .label (numbered "v" (k + 1))]
    [.lit "xfade=transition=", .sub transition, .lit ":duration=", .sub duration, .lit ":offset=",
     .sub offset]
    [numbered "x" (k + 1)]

def audioCrossfadeNode (length : Float) (k : Nat) : Except Fault GraphNode := do
  let duration ← decimal length
  GraphNode.of [.label (joinedLabel "a0" "ax" k), .label (numbered "a" (k + 1))]
    [.lit "acrossfade=d=", .sub duration, .lit ":c1=tri:c2=tri"] [numbered "ax" (k + 1)]

/-- Segments that fade into one another. The audio fades along if two segments at least carry
sound. -/
def xfade (p : Params) (ctx : HandlerContext) : Except Fault Contribution := do
  let segments := sequenceSegments ctx true
  requireSegments "xfade" 2 segments
  let c ← canvasOf p ctx "width" "height"
  let length ← p.float "duration"
  let still ← p.float "still_duration" (some ctx.stillDuration)
  let transition ← p.text "transition"
  let offsets := Crossfade.offsets length (segments.map (segmentSeconds ctx still))
  let video ← segments.zipIdx.mapM fun (s, i) => do
    let filter ← prepareSegment c still (← sameRate c) s
    return (⟨[s.pad], filter, [numbered "v" i]⟩ : GraphNode)
  let fades ← offsets.zipIdx.mapM (crossfadeNode transition length)
  let videoOut := joinedLabel "v0" "x" offsets.length
  let audible := segments.filter (!·.still)
  if !ctx.primary.hasAudio || audible.length < 2 then
    return graph { nodes := video ++ fades, video? := some videoOut }
  else
    let audio ← audible.zipIdx.mapM fun (s, i) => segmentAudio s still (numbered "a" i)
    let audioFades ← (List.range (audible.length - 1)).mapM (audioCrossfadeNode length)
    return graph {
      nodes := video ++ fades ++ audio ++ audioFades
      video? := some videoOut
      audio? := some (joinedLabel "a0" "ax" (audible.length - 1)) }

def gridCell (c : Canvas) (layout : GridLayout Float) (seconds : Float)
    (indexed : SequenceSegment × Nat) : Except Fault (GraphNode × FilterText) := do
  let (s, i) := indexed
  let filter ← prepareSegment c seconds (← sameRate c) s
  let (x, y) := layout.corner i
  let place ← ofParts [.num x, .lit "_", .num y]
  return (⟨[s.pad], filter, [numbered "g" i]⟩, place)

def grid (p : Params) (ctx : HandlerContext) : Except Fault Contribution := do
  let segments := sequenceSegments ctx (← p.bool "include_video")
  requireSegments "grid" 2 segments
  let columns ← p.int "columns"
  let gap ← p.int "gap"
  let seconds ← p.float "duration"
  let c ← canvasOf p ctx "cell_width" "cell_height"
  let layout : GridLayout Float := ⟨columns, c.width, c.height, gap⟩
  let cells ← segments.zipIdx.mapM (gridCell c layout seconds)
  let stacked ← GraphNode.of (numberedLabels "g" segments.length)
    [.lit "xstack=inputs=", .num (Float.ofNat segments.length), .lit ":layout=",
     .sub (FilterText.join "|" (cells.map (·.2))), .lit ":fill=", .sub c.background] ["out"]
  let length ← decimal seconds
  return { graph? := some { nodes := cells.map (·.1) ++ [stacked], video? := some "out" }
           outputFlags := ["-t", length.text] }

/-- One slide. It fades in unless it is the first, and a still image fades out unless it is the
last; the length of a video is not known here, and the next slide covers the cut. -/
def slide (c : Canvas) (hold : Float) (fade? : Option Float) (count : Nat)
    (indexed : SequenceSegment × Nat) : Except Fault GraphNode := do
  let (s, i) := indexed
  let chain ← prepareSegment c hold (← restart c) s
  let chain ← match fade? with
    | none => pure chain
    | some length => do
      let chain ← if i > 0 then do
          ofParts [.sub chain, .lit ",fade=t=in:st=0:d=", .sub (← decimal length)]
        else pure chain
      if i + 1 < count && s.still then do
        let start ← decimal (hold - length)
        ofParts [.sub chain, .lit ",fade=t=out:st=", .sub start, .lit ":d=",
          .sub (← decimal length)]
      else pure chain
  return ⟨[s.pad], chain, [numbered "s" i]⟩

def slideshow (p : Params) (ctx : HandlerContext) : Except Fault Contribution := do
  let segments := sequenceSegments ctx (← p.bool "include_video")
  requireSegments "slideshow" 1 segments
  let c ← canvasOf p ctx "width" "height"
  let hold ← p.float "duration_per_image"
  let fades := (← p.string "transition") = "fade" && segments.length > 1
  let length ← p.float "transition_duration"
  if fades && length ≥ hold then .error (.validation (.transitionTooLong length hold))
  else
    let fade? := if fades then some length else none
    let slides ← segments.zipIdx.mapM (slide c hold fade? segments.length)
    let joined ← GraphNode.of (numberedLabels "s" segments.length)
      [.lit "concat=n=", .num (Float.ofNat segments.length), .lit ":v=1:a=0"] ["out"]
    return graph { nodes := slides ++ [joined], video? := some "out" }

def splitScreen (p : Params) (ctx : HandlerContext) : Except Fault Contribution := do
  let segments := sequenceSegments ctx true
  requireSegments "split_screen" 2 segments
  let seconds ← p.float "duration"
  let c ← canvasOf p ctx "width" "height"
  let hold := if seconds > 0 then seconds else ctx.stillDuration
  let parts ← segments.zipIdx.mapM fun (s, i) => do
    return (⟨[s.pad], ← prepareSegment c hold .empty s, [numbered "c" i]⟩ : GraphNode)
  let stack := if (← p.string "layout") = "vertical" then "vstack" else "hstack"
  let stacked ← GraphNode.of (numberedLabels "c" segments.length)
    [.lit stack, .lit "=inputs=", .num (Float.ofNat segments.length)] ["out"]
  let outputFlags ← if seconds > 0 then do pure ["-t", (← decimal seconds).text] else pure []
  return { graph? := some { nodes := parts ++ [stacked], video? := some "out" }, outputFlags }

/-- A handler that takes every visual extra input that no other step has claimed, and puts these and
the main video together: one after another, or side by side. -/
def sequenceHandler (compile : Params → HandlerContext → Except Fault Contribution) : Handler :=
  { compile, reserve? := some claimRest, reservesLast := true }

end SkillPipeline.Effect
