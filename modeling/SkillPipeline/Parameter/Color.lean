import SkillPipeline.Text.Pattern

namespace SkillPipeline.Color

open Text Pattern

def letters : Pattern := .plus (.oneOf [('A', 'Z'), ('a', 'z')])

def hexDigits : Pattern := .oneOf [('0', '9'), ('A', 'F'), ('a', 'f')]

def digits : Pattern := .plus (.oneOf [('0', '9')])

def hexColor : Pattern := .seq (.times hexDigits 6 6) (.optional (.times hexDigits 2 2))

def opacity : Pattern :=
  .alt (.seq (.literal "0") (.optional (.seq (.literal ".") digits)))
    (.alt (.seq (.literal "1") (.optional (.seq (.literal ".") (.plus (.literal "0")))))
      (.seq (.literal ".") digits))

/-- What a colour parameter accepts: a name, or six or eight hexadecimal digits after `#` or `0x`,
then optionally `@` and an opacity from 0 to 1. -/
def accepted : Pattern :=
  .seq (.alt letters (.alt (.seq (.literal "#") hexColor) (.seq (.literal "0x") hexColor)))
    (.optional (.seq (.literal "@") opacity))

def isColor (s : String) : Bool := accepted.accepts s

def publishedColor : Pattern :=
  .alt letters (.alt (.seq (.literal "#") (.times hexDigits 6 8))
    (.seq (.literal "0x") (.times hexDigits 6 8)))

def publishedOpacity : Pattern :=
  .seq (.literal "@") (.plus (.oneOf [('0', '9'), ('.', '.')]))

/-- What the schema publishes, which is shorter. -/
def published : Pattern := .seq publishedColor (.optional publishedOpacity)

def publishedText : String :=
  "^(" ++ publishedColor.text ++ ")" ++ (Pattern.optional publishedOpacity).text ++ "$"

end SkillPipeline.Color
