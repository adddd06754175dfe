import SkillPipeline.Files.FileSystem
import SkillPipeline.Text.Lowercase

namespace SkillPipeline

inductive MediaKind where
  | video
  | image
  | audio
  deriving DecidableEq, Repr

namespace MediaKind

def name : MediaKind → String
  | .video => "video"
  | .image => "image"
  | .audio => "audio"

def all : List MediaKind := [.video, .image, .audio]

def ofName? (s : String) : Option MediaKind := all.find? (·.name == s)

def extensions : MediaKind → List String
  | .video => [".mp4", ".mov", ".mkv", ".webm", ".avi", ".flv", ".wmv", ".m4v", ".ts", ".mpg",
      ".mpeg", ".gif"]
  | .image => [".png", ".jpg", ".jpeg", ".bmp", ".webp", ".tif", ".tiff"]
  | .audio => [".mp3", ".wav", ".aac", ".m4a", ".flac", ".ogg", ".opus"]

def ofPath? (path : String) : Option MediaKind :=
  let extension := Text.lower (Path.extension path)
  all.find? (·.extensions.contains extension)

end MediaKind

inductive Purpose where
  | media
  | subtitle
  | lut
  | font
  deriving DecidableEq, Repr

namespace Purpose

def name : Purpose → String
  | .media => "media"
  | .subtitle => "subtitle"
  | .lut => "lut"
  | .font => "font"

def ofName? (s : String) : Option Purpose := [media, subtitle, lut, font].find? (·.name == s)

def extensions : Purpose → List String
  | .media => MediaKind.all.flatMap (·.extensions)
  | .subtitle => [".srt", ".ass", ".ssa", ".vtt"]
  | .lut => [".cube", ".3dl"]
  | .font => [".ttf", ".otf", ".ttc", ".woff", ".woff2"]

end Purpose

end SkillPipeline
