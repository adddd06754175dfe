import SkillPipeline.Skill.Basic

namespace SkillPipeline.Catalogue

def audio : List Skill := [
  { name := "volume"
    category := .audio
    description := "Make the audio louder or quieter."
    parameters := [
      { name := "level", type := .float,
        description := "Gain multiplier; 1 leaves it unchanged",
        default? := some (.number 1.5), min? := some 0, max? := some 10,
        aliases := ["value", "gain"] }]
    strategy := .handler "volume"
    tags := ["loud", "quiet", "gain"] },
  { name := "normalize"
    category := .audio
    description := "Loudness-normalise to a target level (EBU R128)."
    parameters := [
      { name := "target", type := .float,
        description := "Integrated loudness target in LUFS",
        default? := some (.number (-16)), min? := some (-70), max? := some (-5),
        aliases := ["lufs"] }]
    strategy := .handler "normalize"
    tags := ["loudness", "broadcast", "podcast"]
    aliases := ["normalise"] },
  { name := "fade_audio"
    category := .audio
    description := "Fade the audio in or out."
    parameters := [
      { name := "type", type := .enum,
        description := "Fade direction",
        default? := some (.text "in"),
        choices? := some ["in", "out"] },
      { name := "start", type := .float,
        description := "When the fade begins (seconds)",
        default? := some (.number 0), min? := some 0 },
      { name := "duration", type := .float,
        description := "Fade length (seconds)",
        default? := some (.number 2), min? := some 0.1, max? := some 60 }]
    strategy := .handler "fade_audio"
    tags := ["intro", "outro"] },
  { name := "remove_audio"
    category := .audio
    description := "Drop the audio track."
    strategy := .handler "remove_audio"
    tags := ["mute", "silent"]
    aliases := ["mute"] },
  { name := "extract_audio"
    category := .audio
    description := "Keep only the audio track, copied without re-encoding."
    strategy := .handler "extract_audio"
    tags := ["soundtrack", "rip"] },
  { name := "replace_audio"
    category := .audio
    description := "Use an extra input's audio instead of the original soundtrack."
    parameters := [
      { name := "input", type := .int,
        description := "Extra input to take the audio from (default the first free one)",
        min? := some 1 }]
    strategy := .handler "replace_audio"
    tags := ["music", "soundtrack", "dub"] },
  { name := "audio_crossfade"
    category := .audio
    description := "Crossfade from the original audio into an extra input's audio."
    parameters := [
      { name := "duration", type := .float,
        description := "Crossfade length (seconds)",
        default? := some (.number 2), min? := some 0.1, max? := some 60 },
      { name := "curve", type := .enum,
        description := "Fade curve",
        default? := some (.text "tri"),
        choices? := some ["tri", "qsin", "hsin", "esin", "log", "ipar", "qua", "cub", "squ", "cbr",
           "par", "exp"] },
      { name := "input", type := .int,
        description := "Extra input to fade into",
        min? := some 1 }]
    strategy := .handler "audio_crossfade"
    tags := ["transition", "music"] },
  { name := "mix_audio"
    category := .audio
    description := "Mix an extra input's audio under the original, such as background music."
    parameters := [
      { name := "duration", type := .enum,
        description := "Which input decides the mixed length",
        default? := some (.text "longest"),
        choices? := some ["longest", "shortest", "first"] },
      { name := "dropout_transition", type := .float,
        description := "Seconds to renormalise volume when an input ends",
        default? := some (.number 2), min? := some 0, max? := some 30 },
      { name := "weight", type := .float,
        description := "Level of the original audio",
        default? := some (.number 1), min? := some 0, max? := some 10 },
      { name := "extra_weight", type := .float,
        description := "Level of the mixed-in audio",
        default? := some (.number 0.5), min? := some 0, max? := some 10,
        aliases := ["music_volume"] },
      { name := "input", type := .int,
        description := "Extra input to mix in",
        min? := some 1 }]
    strategy := .handler "mix_audio"
    tags := ["music", "background", "blend"] },
  { name := "echo"
    category := .audio
    description := "Add an echo."
    parameters := [
      { name := "delay", type := .int,
        description := "Echo delay in milliseconds",
        default? := some (.number 60), min? := some 1, max? := some 5000 },
      { name := "decay", type := .float,
        description := "Echo level",
        default? := some (.number 0.4), min? := some 0, max? := some 1 }]
    strategy := .template "aecho=0.8:0.88:\x7bdelay\x7d:\x7bdecay\x7d" .audio
    tags := ["reverb", "space"] },
  { name := "bass"
    category := .audio
    description := "Boost or cut low frequencies."
    parameters := [
      { name := "gain", type := .float,
        description := "Gain in dB",
        default? := some (.number 5), min? := some (-20), max? := some 20 }]
    strategy := .template "bass=g=\x7bgain\x7d" .audio
    tags := ["eq", "low"] },
  { name := "treble"
    category := .audio
    description := "Boost or cut high frequencies."
    parameters := [
      { name := "gain", type := .float,
        description := "Gain in dB",
        default? := some (.number 3), min? := some (-20), max? := some 20 }]
    strategy := .template "treble=g=\x7bgain\x7d" .audio
    tags := ["eq", "high"] },
  { name := "compress_audio"
    category := .audio
    description := "Dynamic range compression."
    parameters := [
      { name := "threshold", type := .float,
        description := "Level in dB above which compression starts",
        default? := some (.number (-20)), min? := some (-60), max? := some 0 },
      { name := "ratio", type := .float,
        description := "Compression ratio",
        default? := some (.number 4), min? := some 1, max? := some 20 }]
    strategy := .template "acompressor=threshold=\x7bthreshold\x7ddB:ratio=\x7bratio\x7d" .audio
    tags := ["dynamics", "podcast"] },
  { name := "pitch"
    category := .audio
    description := "Shift pitch without changing tempo."
    parameters := [
      { name := "factor", type := .float,
        description := "Pitch ratio; 2 is one octave up",
        default? := some (.number 1.2), min? := some 0.25, max? := some 4 }]
    strategy := .template "rubberband=pitch=\x7bfactor\x7d" .audio
    tags := ["voice", "chipmunk"] }]

end SkillPipeline.Catalogue
