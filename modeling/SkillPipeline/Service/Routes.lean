import SkillPipeline.Command.Descriptor
import SkillPipeline.Pipeline.Compiler
import SkillPipeline.Service.Message

namespace SkillPipeline.Service

abbrev Responding := StateM Session

def answer (v : Value) : Response := { body := .json v }

def refuse (status : Nat) (message : String) : Response :=
  { status, body := .json (.record [("error", .string message)]) }

/-- What the service tells of a skill: everything but where it was defined. -/
def summary (s : Skill) : Value :=
  .record [("name", .string s.name), ("category", .string s.category.name),
    ("description", .string s.description), ("kind", .string s.strategy.kindName),
    ("parameters", .list (s.parameters.map (·.document))), ("tags", .strings s.tags),
    ("aliases", .strings s.aliases), ("examples", .strings s.examples)]

def skillList (members : List (String × Value)) (skills : List Skill) : Response :=
  answer (.record (members ++ [("skills", .list (skills.map summary)),
    ("count", .number (Float.ofNat skills.length))]))

def tagged (r : Registry) (tag : String) (skills : List Skill) : List Skill :=
  let names := (r.listByTag tag).map (·.name)
  skills.filter fun s => names.contains s.name

/-- The skills of a category; several names are the name of none. -/
def ofCategory (r : Registry) : (names : List String) → Except Response (List Skill)
  | [] => .ok r.list
  | names =>
    let name := Text.join "," names
    match Category.ofName? name with
    | some c => .ok (r.listByCategory c)
    | none => .error (refuse 400 s!"Unknown category: {name}")

/-- The response to a request that an exception stops; it is noted as an error. -/
def failed (url title message : String) : Responding Response := do
  modify (·.note [{ level := .error, message := "Request failed"
                    fields := [("url", .string url), ("error", .string message)] }])
  let report := .record [("error", .string title), ("message", .string message)]
  return { status := 500, body := .json report }

def ambiguous (url message : String) : Responding Response := failed url "TypeError" message

def listSkills (r : Registry) (url : String) : Responding Response :=
  match ofCategory r (Url.values url "category"), Url.values url "tag" with
  | .error response, _ => return response
  | .ok skills, [] => return skillList [] skills
  | .ok skills, [tag] => return skillList [] (tagged r tag skills)
  | .ok _, _ => ambiguous url "tag.toLowerCase is not a function"

def searchSkills (r : Registry) (url : String) : Responding Response :=
  match Url.values url "q" with
  | _ :: _ :: _ => ambiguous url "req.query.q?.trim is not a function"
  | q =>
    let q := Text.trim (q.headD "")
    return if q = "" then refuse 400 "q is required"
      else skillList [("query", .string q)] (r.search q)

def showSkill (r : Registry) (name : String) : Response :=
  match r.get? name with
  | some s => answer (summary s)
  | none => refuse 404 s!"Skill not found: {name}"

/-- The response to a fault. One in the compiler itself is also noted as an error. -/
def faultResponse (url : String) (f : Fault) : Responding Response :=
  match f with
  | .exception e => failed url e.title e.message
  | .invariant cause => do
    modify (·.note [{ level := .error, message := "Compiler invariant violated"
                      fields := [("url", .string url), ("error", .string cause.message)] }])
    return { status := 500, body := .json f.report.document }
  | _ => return { status := 400, body := .json f.report.document }

def requestIssues (issues : List Issue) : List String := issues.map (·.text "(body)")

def compiledDocument (d : Descriptor) : Except Fault Value := do
  return .record [("argv", .strings (← d.argv)), ("command", .string (← d.shellLine)),
    ("descriptor", d.document), ("warnings", .strings d.warnings)]

def compile (c : Compiler) (url : String) (body : Value) : Responding Response := do
  match (SkillPipeline.Request.shape body).toExcept with
  | .error issues =>
    faultResponse url (.validation (.invalidRequest .service (requestIssues issues)))
  | .ok request =>
    match (← c.compile request).result >>= compiledDocument with
    | .ok v => return answer v
    | .error f => faultResponse url f

def validate (c : Compiler) (url : String) (body : Value) : Responding Response := do
  match (SkillPipeline.Request.shape body).toExcept with
  | .error issues => return answer (ValidationReport.document ⟨requestIssues issues⟩)
  | .ok request =>
    match ← c.validate request with
    | .report r => return answer r.document
    | .exception e => failed url e.title e.message

def notFound (method url : String) : Response :=
  { status := 404
    body := .json (.record [("message", .string s!"Route {method}:{url} not found"),
      ("error", .string "Not Found"), ("statusCode", .number 404)]) }

def browse? (url : String) : Option (Responding Response) :=
  match Url.segments url with
  | ["", "v1", "skills"] => some do listSkills (← get).registry url
  | ["", "v1", "skills", "search"] => some do searchSkills (← get).registry url
  | ["", "v1", "skills", name] => some do return showSkill (← get).registry name
  | ["", "v1", "catalog"] =>
    some do return { body := .markdown (← Session.reading Registry.catalogueText) }
  | ["", "v1", "schema"] => some do return answer (← Session.reading Registry.schema)
  | _ => none

def headOnly (r : Response) : Response := { r with body := .withheld r.body.contentType }

/-- The response to a request before the headers that all have. -/
def respond (c : Compiler) (r : Request) : Responding Response :=
  let url := Url.travelling r.target
  let other : Responding Response := return notFound r.method url
  match r.method with
  | "GET" => (browse? url).getD other
  | "HEAD" => ((browse? url).map (headOnly <$> ·)).getD other
  | "POST" =>
    match Url.segments url with
    | ["", "v1", "compile"] => compile c url r.body
    | ["", "v1", "validate"] => validate c url r.body
    | _ => other
  | _ => other

def originHeaders (origin? : Option String) : List (String × String) :=
  ((origin?.filter isLoopback).map ("access-control-allow-origin", ·)).toList

def handle (c : Compiler) (r : Request) : Responding Response := do
  let response ← respond c r
  return { response with headers := originHeaders r.origin? ++ securityHeaders ++ response.headers }

end SkillPipeline.Service
