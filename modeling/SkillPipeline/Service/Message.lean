import SkillPipeline.Document.Json.Printer
import SkillPipeline.Number.Reader
import SkillPipeline.Text.Basic
import SkillPipeline.Text.Bytes

namespace SkillPipeline.Service

structure Request where
  method : String := "GET"
  /-- The path with the query, as it was asked for. -/
  target : String
  /-- The site on whose behalf a browser asks. -/
  origin? : Option String := none
  body : Value := .absent

inductive Body where
  | json (v : Value)
  | markdown (text : String)
  /-- Nothing, where there would have been a body of some type. -/
  | withheld (contentType : String)

namespace Body

def contentType : Body → String
  | .json _ => "application/json; charset=utf-8"
  | .markdown _ => "text/markdown; charset=utf-8"
  | .withheld contentType => contentType

end Body

structure Response where
  status : Nat := 200
  body : Body
  headers : List (String × String) := []

/-- Headers that every response carries: browsers are to take nothing in it for a page. -/
def securityHeaders : List (String × String) := [
  ("x-content-type-options", "nosniff"),
  ("x-frame-options", "DENY"),
  ("x-xss-protection", "0"),
  ("content-security-policy", "default-src 'none'; frame-ancestors 'none'"),
  ("referrer-policy", "no-referrer")]

end SkillPipeline.Service

namespace SkillPipeline.Service

def loopbackHosts : List String := ["127.0.0.1", "localhost", "::1"]

def loopbackNames : List String := ["localhost", "127.0.0.1", "[::1]"]

def isPort (s : List Char) : Bool :=
  match s with
  | [] => true
  | ':' :: digits => !digits.isEmpty && digits.all Number.isDigit
  | _ => false

/-- Whether an origin is on the machine itself. -/
def isLoopback (origin : String) : Bool :=
  ["http://", "https://"].any fun scheme => loopbackNames.any fun host =>
    let start := scheme ++ host
    Text.startsWith origin start && isPort (origin.toList.drop start.toList.length)

end SkillPipeline.Service

namespace SkillPipeline.Url

def isUnsafe (c : Char) : Bool := c ≤ ' ' || '~' < c || "\"<>".toList.contains c

def isUnsafeInPath (c : Char) : Bool := isUnsafe c || "\x60\x7b\x7d".toList.contains c

def isUnsafeInQuery (c : Char) : Bool := isUnsafe c || c = '\''

def isHere (segment : List Char) : Bool :=
  [".", "%2e"].contains (String.ofList (segment.map Char.toLower))

def isAbove (segment : List Char) : Bool :=
  ["..", ".%2e", "%2e.", "%2e%2e"].contains (String.ofList (segment.map Char.toLower))

/-- The segments of a path, those before it in reverse, without the ones that lead nowhere. -/
def walk (reversed : List (List Char)) : List (List Char) → List (List Char)
  | [] => reversed.reverse
  | [last] =>
    if isHere last then ([] :: reversed).reverse
    else if isAbove last then ([] :: reversed.drop 1).reverse
    else (last :: reversed).reverse
  | segment :: rest =>
    if isHere segment then walk reversed rest
    else if isAbove segment then walk (reversed.drop 1) rest
    else walk (segment :: reversed) rest

def isSlash (c : Char) : Bool := c = '/' || c = '\\'

def travellingPath (path : List Char) : List Char :=
  let path := match path with
    | c :: rest => if isSlash c then rest else path
    | [] => []
  let segments := walk [] (Text.splitBy isSlash path)
  '/' :: ['/'].intercalate (segments.map (Percent.encode isUnsafeInPath))

def travelling (url : String) : String :=
  let inner := url.toList.dropWhile (· ≤ ' ')
  let inner := (inner.reverse.dropWhile (· ≤ ' ')).reverse
  let kept := (inner.filter fun c => !(c = '\t' || c = '\n' || c = '\r')).takeWhile (· != '#')
  let query := (kept.dropWhile (· != '?')).drop 1
  let path := travellingPath (kept.takeWhile (· != '?'))
  String.ofList
    (path ++ if query.isEmpty then [] else '?' :: Percent.encode isUnsafeInQuery query)

def startsQuery (c : Char) : Bool := c = '?' || c = ';'

/-- The text that an escaped one stands for; one with a broken escape stands for itself. -/
def decode (s : String) : String := (Percent.decode? s).getD s

def segments (url : String) : List String :=
  (Text.splitAt '/' (String.ofList (url.toList.takeWhile (!startsQuery ·)))).map decode

def queryText (s : List Char) : String :=
  decode (String.ofList (s.map fun c => if c = '+' then ' ' else c))

def queryPart (part : String) : String × String :=
  (queryText (part.toList.takeWhile (· != '=')),
    queryText ((part.toList.dropWhile (· != '=')).drop 1))

def query (url : String) : List (String × String) :=
  let text := (url.toList.dropWhile (!startsQuery ·)).drop 1
  ((Text.splitAt '&' (String.ofList text)).filter (· != "")).map queryPart

def values (url key : String) : List String :=
  ((query url).filter (·.1 == key)).map (·.2)

end SkillPipeline.Url
