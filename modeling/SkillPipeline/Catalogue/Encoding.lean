import SkillPipeline.Skill.Basic

namespace SkillPipeline.Catalogue

def encoding : List Skill := [
  { name := "compress"
    category := .encoding
    description := "Re-encode with H.264 at a smaller size."
    parameters := [
      { name := "preset", type := .enum,
        description := "How much to shrink",
        default? := some (.text "medium"),
        choices? := some ["light", "medium", "heavy"],
        aliases := ["level"] }]
    strategy := .handler "compress"
    tags := ["size", "smaller", "h264"] },
  { name := "convert"
    category := .encoding
    description := "Re-encode the video with another codec."
    parameters := [
      { name := "codec", type := .enum,
        description := "Target video codec",
        default? := some (.text "h264"),
        choices? := some ["h264", "h265", "vp9", "av1", "prores"] }]
    strategy := .handler "convert"
    tags := ["codec", "transcode"] },
  { name := "bitrate"
    category := .encoding
    description := "Set target bitrates."
    parameters := [
      { name := "video", type := .string,
        description := "Video bitrate such as 4M" },
      { name := "audio", type := .string,
        description := "Audio bitrate such as 192k" }]
    strategy := .handler "bitrate"
    tags := ["size", "quality"] },
  { name := "quality"
    category := .encoding
    description := "H.264 constant-quality encode."
    parameters := [
      { name := "crf", type := .int,
        description := "Constant rate factor; lower is better",
        default? := some (.number 23), min? := some 0, max? := some 51 },
      { name := "preset", type := .enum,
        description := "Encoder speed preset",
        default? := some (.text "medium"),
        choices? := some ["ultrafast", "superfast", "veryfast", "faster", "fast", "medium", "slow",
           "slower", "veryslow"] }]
    strategy := .handler "quality"
    tags := ["crf", "h264"] },
  { name := "container"
    category := .encoding
    description := "Force the output container format."
    parameters := [
      { name := "format", type := .enum,
        description := "Muxer name",
        default? := some (.text "mp4"),
        choices? := some ["mp4", "mov", "matroska", "webm", "avi", "gif"] }]
    strategy := .handler "container"
    tags := ["format", "mux"] },
  { name := "audio_codec"
    category := .encoding
    description := "Choose the audio encoder."
    parameters := [
      { name := "codec", type := .enum,
        description := "Audio codec",
        default? := some (.text "aac"),
        choices? := some ["aac", "mp3", "opus", "vorbis", "flac", "copy"] },
      { name := "bitrate", type := .string,
        description := "Audio bitrate",
        default? := some (.text "192k") }]
    strategy := .handler "audio_codec"
    tags := ["codec", "audio"] },
  { name := "hwaccel"
    category := .encoding
    description := "Decode with hardware acceleration."
    parameters := [
      { name := "type", type := .enum,
        description := "Acceleration API",
        default? := some (.text "auto"),
        choices? := some ["auto", "cuda", "vaapi", "qsv", "videotoolbox", "d3d11va"] }]
    strategy := .handler "hwaccel"
    tags := ["gpu", "performance"] },
  { name := "thumbnail"
    category := .encoding
    description := "Export one representative frame."
    parameters := [
      { name := "width", type := .int,
        description := "Output width (0 keeps the original)",
        default? := some (.number 0), min? := some 0, max? := some 7680 },
      { name := "time", type := .float,
        description := "Grab the frame at this time (0 picks a representative frame)",
        default? := some (.number 0), min? := some 0 }]
    strategy := .handler "thumbnail"
    tags := ["poster", "preview", "image"] },
  { name := "extract_frames"
    category := .encoding
    description := "Export frames at a fixed rate."
    parameters := [
      { name := "rate", type := .float,
        description := "Frames per second to export",
        default? := some (.number 1), min? := some 0.01, max? := some 120 }]
    strategy := .handler "extract_frames"
    tags := ["images", "sequence"] },
  { name := "gif"
    category := .encoding
    description := "Palette-optimised animated GIF."
    parameters := [
      { name := "fps", type := .int,
        description := "Frame rate",
        default? := some (.number 12), min? := some 1, max? := some 50 },
      { name := "width", type := .int,
        description := "Output width",
        default? := some (.number 480), min? := some 16, max? := some 1920 }]
    strategy := .handler "gif"
    tags := ["animation", "meme"] },
  { name := "fps"
    category := .encoding
    description := "Change the frame rate."
    parameters := [
      { name := "rate", type := .float,
        description := "Frames per second",
        default? := some (.number 30), min? := some 1, max? := some 240,
        aliases := ["fps"] }]
    strategy := .template "fps=\x7brate\x7d" .video
    tags := ["framerate"] },
  { name := "web_optimize"
    category := .encoding
    description := "H.264/AAC with fast-start for streaming on the web."
    parameters := [
      { name := "crf", type := .int,
        description := "Constant rate factor",
        default? := some (.number 23), min? := some 0, max? := some 51 }]
    strategy := .template ("-c:v libx264 -preset fast -crf \x7bcrf\x7d -movflags +faststart -c:a "
      ++ "aac -b:a 128k") .output
    tags := ["web", "streaming", "faststart"] },
  { name := "pixel_format"
    category := .encoding
    description := "Set the output pixel format."
    parameters := [
      { name := "format", type := .enum,
        description := "Pixel format",
        default? := some (.text "yuv420p"),
        choices? := some ["yuv420p", "yuv422p", "yuv444p", "rgb24"] }]
    strategy := .template "-pix_fmt \x7bformat\x7d" .output
    tags := ["compatibility"] },
  { name := "drop_video"
    category := .encoding
    description := "Write only the audio streams."
    strategy := .template "-vn" .output
    tags := ["audio_only"] },
  { name := "two_pass"
    category := .encoding
    description := "Target an average video bitrate for predictable file sizes."
    parameters := [
      { name := "target_bitrate", type := .string,
        description := "Average video bitrate such as 4M or 2500k",
        default? := some (.text "4M"),
        aliases := ["bitrate"] },
      { name := "buffer", type := .string,
        description := "Rate-control buffer size",
        default? := some (.text "8M") }]
    strategy := .template ("-c:v libx264 -b:v \x7btarget_bitrate\x7d -maxrate "
      ++ "\x7btarget_bitrate\x7d -bufsize \x7bbuffer\x7d") .output
    tags := ["bitrate", "size", "delivery"] },
  { name := "hls_package"
    category := .encoding
    description := "Segment the output into an HLS playlist."
    parameters := [
      { name := "segment_duration", type := .int,
        description := "Target segment length in seconds",
        default? := some (.number 6), min? := some 1, max? := some 60 },
      { name := "playlist_type", type := .enum,
        description := "vod keeps every segment; event allows appending",
        default? := some (.text "vod"),
        choices? := some ["vod", "event"] }]
    strategy := .template ("-f hls -hls_time \x7bsegment_duration\x7d -hls_playlist_type "
      ++ "\x7bplaylist_type\x7d -hls_segment_filename segment_%03d.ts") .output
    tags := ["streaming", "hls", "adaptive"]
    aliases := ["hls"] },
  { name := "sprite_sheet"
    category := .encoding
    description := "One image tiling frames taken at a fixed interval."
    parameters := [
      { name := "columns", type := .int,
        description := "Tiles per row",
        default? := some (.number 5), min? := some 1, max? := some 20 },
      { name := "rows", type := .int,
        description := "Rows of tiles",
        default? := some (.number 5), min? := some 1, max? := some 20 },
      { name := "width", type := .int,
        description := "Width of each tile",
        default? := some (.number 160), min? := some 16, max? := some 1920 },
      { name := "interval", type := .float,
        description := "Seconds between sampled frames",
        default? := some (.number 10), min? := some 0.1, max? := some 3600 }]
    strategy := .handler "sprite_sheet"
    tags := ["thumbnails", "scrubbing", "contact_sheet"] },
  { name := "preview_strip"
    category := .encoding
    description := "One image with evenly spaced frames side by side."
    parameters := [
      { name := "frames", type := .int,
        description := "Frames in the strip",
        default? := some (.number 10), min? := some 2, max? := some 50 },
      { name := "width", type := .int,
        description := "Width of each frame",
        default? := some (.number 320), min? := some 16, max? := some 1920 }]
    strategy := .handler "preview_strip"
    tags := ["thumbnails", "storyboard", "filmstrip"] },
  { name := "extract_subtitles"
    category := .encoding
    description := "Write a subtitle track from the input to a subtitle file."
    parameters := [
      { name := "track", type := .int,
        description := "Subtitle track, counted from 0",
        default? := some (.number 0), min? := some 0, max? := some 99 },
      { name := "format", type := .enum,
        description := "Subtitle file format",
        default? := some (.text "srt"),
        choices? := some ["srt", "ass", "vtt"] }]
    strategy := .handler "extract_subtitles"
    tags := ["captions", "srt", "subtitles"] }]

end SkillPipeline.Catalogue
