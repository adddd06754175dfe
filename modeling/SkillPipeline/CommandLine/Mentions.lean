import SkillPipeline.Document.Json.Reader
import SkillPipeline.Document.Yaml.Reader

namespace SkillPipeline.CommandLine

mutual

/-- All texts in a document, keys aside. -/
def textsIn : Value → List String
  | .string s => [s]
  | .list items => textsInItems items
  | .object members => textsInMembers members
  | .null | .absent | .bool _ | .number _ | .instant _ => []

def textsInItems : List Value → List String
  | [] => []
  | v :: rest => textsIn v ++ textsInItems rest

def textsInMembers : List (String × Value) → List String
  | [] => []
  | (_, v) :: rest => textsIn v ++ textsInMembers rest

end

/-- What an argument may name: itself, or the value that it brings along after an equals sign or
after a short option. -/
def mentionedBy (arg : String) : List String :=
  [arg, String.ofList ((arg.toList.dropWhile (· != '=')).drop 1), String.ofList (arg.toList.drop 2)]

def mentionedIn (text : String) : List String :=
  (((Json.parse text).or (Yaml.parse text)).map textsIn).getD []

end SkillPipeline.CommandLine
