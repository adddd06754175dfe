import SkillPipeline.Skill.Basic

namespace SkillPipeline.Catalogue

/-- Skills that prepare a video for where it will be shown, by calling other skills. -/
def outcome : List Skill := [
  { name := "instagram_reel"
    category := .outcome
    description := "Vertical 1080x1920 H.264 ready for reels and shorts."
    parameters := [
      { name := "crf", type := .int,
        description := "Constant rate factor",
        default? := some (.number 23), min? := some 0, max? := some 51 }]
    strategy := .pipeline [
      { skill := "vertical_video", params := [("mode", .text "crop")] },
      { skill := "normalize" },
      { skill := "web_optimize", params := [("crf", .text "\x7bcrf\x7d")] }]
    tags := ["social", "vertical", "reels", "shorts"] },
  { name := "youtube_ready"
    category := .outcome
    description := "16:9 1080p with normalised loudness and web-friendly encoding."
    strategy := .pipeline [
      { skill := "aspect", params := [("ratio", .text "16:9"), ("mode", .text "pad")] },
      { skill := "resize", params := [("width", .number 1920), ("height", .number 1080)] },
      { skill := "normalize", params := [("target", .number (-14))] },
      { skill := "web_optimize" }]
    tags := ["upload", "landscape", "web"]
    aliases := ["youtube"] },
  { name := "podcast_audio"
    category := .outcome
    description := "Voice-friendly audio-only export."
    parameters := [
      { name := "target", type := .float,
        description := "Loudness target in LUFS",
        default? := some (.number (-16)), min? := some (-70), max? := some (-5) }]
    strategy := .pipeline [
      { skill := "compress_audio" },
      { skill := "normalize", params := [("target", .text "\x7btarget\x7d")] },
      { skill := "audio_codec", params := [("codec", .text "mp3"), ("bitrate", .text "128k")] },
      { skill := "drop_video" }]
    tags := ["voice", "speech", "mp3"] },
  { name := "social_vertical"
    category := .outcome
    description := "Vertical 9:16 video, compressed for mobile feeds."
    parameters := [
      { name := "mode", type := .enum,
        description := "Crop to fill, or pad to keep the whole frame",
        default? := some (.text "crop"),
        choices? := some ["crop", "pad"] }]
    strategy := .pipeline [
      { skill := "vertical_video", params := [("mode", .text "\x7bmode\x7d")] },
      { skill := "compress", params := [("preset", .text "medium")] }]
    tags := ["social", "vertical", "tiktok", "stories"] },
  { name := "social_square"
    category := .outcome
    description := "Square 1:1 video, compressed for feeds."
    parameters := [
      { name := "mode", type := .enum,
        description := "Crop to fill, or pad to keep the whole frame",
        default? := some (.text "crop"),
        choices? := some ["crop", "pad"] }]
    strategy := .pipeline [
      { skill := "square_video", params := [("mode", .text "\x7bmode\x7d")] },
      { skill := "compress", params := [("preset", .text "medium")] }]
    tags := ["social", "square", "feed"] },
  { name := "twitter"
    category := .outcome
    description := "720p landscape clip within the 140 second upload limit."
    parameters := [
      { name := "max_duration", type := .float,
        description := "Longest clip in seconds",
        default? := some (.number 140), min? := some 1, max? := some 140 }]
    strategy := .pipeline [
      { skill := "resize", params := [("width", .number 1280), ("height", .number 720)] },
      { skill := "compress", params := [("preset", .text "medium")] },
      { skill := "trim", params := [("duration", .text "\x7bmax_duration\x7d")] }]
    tags := ["social", "upload", "x"]
    aliases := ["x_post"] }]

end SkillPipeline.Catalogue
