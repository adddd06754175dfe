import SkillPipeline.Proofs.Parameter.Color
import SkillPipeline.Proofs.Registry.Views
import SkillPipeline.Proofs.Skill.Values

namespace SkillPipeline

open Params

variable {skill : Skill} {skills : List Skill} {spec : ParameterSpec} {w : ParamValue}
  {key : String}

namespace Value

def hasType : Value → String → Bool
  | .null, type => type == "null"
  | .bool _, type => type == "boolean"
  | .number n, type =>
    n.isFinite && (type == "number" || type == "integer" && Number.isWhole n)
  | .string _, type => type == "string"
  | .list _, type => type == "array"
  | .object _, type => type == "object"
  | .instant _, _ | .absent, _ => false

def types (schema : Value) : List String :=
  match schema.member "type" with
  | .string type => [type]
  | .list types => types.filterMap string?
  | _ => []

/-- The value conforms to the schema: it is of one of its types, and what the other keywords of the
schema say of values of its kind is true of it. -/
inductive Conforms : (v schema : Value) → Prop
  | intro {v schema : Value}
      (type : ∃ type ∈ schema.types, v.hasType type = true)
      (choice : ∀ items, schema.member "enum" = .list items → v ∈ items)
      (pattern : ∀ expression text, schema.member "pattern" = .string expression →
        v = .string text → Text.Expression.Matches expression text)
      (minimum : ∀ least n, schema.member "minimum" = .number least → v = .number n → least ≤ n)
      (maximum : ∀ most n, schema.member "maximum" = .number most → v = .number n → n ≤ most)
      (required : ∀ names members, schema.member "required" = .list names → v = .object members →
        ∀ name, .string name ∈ names → Members.has members name = true)
      (properties : ∀ schemas members, schema.member "properties" = .object schemas →
        v = .object members → ∀ name property given, Members.get? schemas name = some property →
        Members.get? members name = some given → Conforms given property)
      (closed : ∀ members, schema.member "additionalProperties" = .bool false →
        v = .object members → ∀ name, Members.has members name = true →
        ((schema.member "properties").member name).isAbsent = false) :
      Conforms v schema

theorem member_record {members : Members Value} (h : members.keys.Nodup) :
    (record members).member key = (members.get? key).getD .absent := by
  have hkept : (Members.keys (members.filter fun entry => !entry.2.isAbsent)).Nodup :=
    h.sublist (List.filter_sublist.map _)
  rw [record, member, Members.get?_ofList hkept, Members.get?, lookup_filter h, Members.get?]
  cases List.lookup key members with
  | none => rfl
  | some v => cases v <;> rfl

end Value

theorem Value.exists_of_ofOption {α : Type} {f : α → Value} {o : Option α} {v : Value}
    (h : ofOption f o = v) (hv : v.isAbsent = false) : ∃ a, o = some a ∧ f a = v := by
  cases o with
  | none =>
    rw [← h] at hv
    cases hv
  | some a => exact ⟨a, rfl, h⟩

namespace ParamSchema

variable {s : ParamSchema}

theorem member_document : s.document.member key =
    (Members.get? [("type", match s.types with
        | [type] => .string type
        | types => .strings types),
      ("description", .string s.description), ("enum", .ofOption .strings s.choices?),
      ("pattern", .ofOption .string s.pattern?), ("minimum", .ofOption .number s.minimum?),
      ("maximum", .ofOption .number s.maximum?),
      ("default", .ofOption ParamValue.document s.default?)] key).getD .absent :=
  Value.member_record (by simp [Members.keys])

theorem types_document : s.document.types = s.types := by
  have hstrings (types : List String) :
      (types.map Value.string).filterMap Value.string? = types := by
    rw [List.filterMap_map]
    exact List.filterMap_some
  rw [Value.types, member_document]
  simp only [Members.get?, List.lookup_cons_self, Option.getD_some]
  rcases s.types with _ | ⟨type, _ | ⟨other, rest⟩⟩
  · rfl
  · rfl
  · exact hstrings _

/-- A value conforms to the schema of a parameter if it is of its types, is one of its choices,
matches its pattern and lies within its bounds. -/
theorem conforms_document (htype : ∃ type ∈ s.types, w.document.hasType type = true)
    (hchoice : ∀ choices, s.choices? = some choices → ∃ choice ∈ choices, w = .text choice)
    (hpattern : ∀ pattern text, s.pattern? = some pattern → w = .text text →
      Text.Expression.Matches pattern text)
    (hminimum : ∀ least n, s.minimum? = some least → w = .number n → least ≤ n)
    (hmaximum : ∀ most n, s.maximum? = some most → w = .number n → n ≤ most) :
    w.document.Conforms s.document := by
  have htext (text : String) (h : w.document = .string text) : w = .text text := by
    cases w <;> cases h
    rfl
  have hnumber (n : Float) (h : w.document = .number n) : w = .number n := by
    cases w <;> cases h
    rfl
  have hscalar (members : Members Value) : w.document ≠ .object members := by
    cases w <;> exact nofun
  -- One case for each keyword; a value of a parameter is no object.
  refine .intro ?type ?choice ?pattern ?minimum ?maximum ?required ?properties ?closed
  case type => rwa [types_document]
  case choice =>
    intro items hitems
    rw [member_document] at hitems
    obtain ⟨choices, hchoices, heq⟩ := Value.exists_of_ofOption hitems rfl
    obtain rfl := Value.list.inj heq
    obtain ⟨choice, hmem, rfl⟩ := hchoice choices hchoices
    exact List.mem_map_of_mem hmem
  case pattern =>
    intro pattern text hexpression hw
    rw [member_document] at hexpression
    obtain ⟨_, hs, heq⟩ := Value.exists_of_ofOption hexpression rfl
    obtain rfl := Value.string.inj heq
    exact hpattern _ text hs (htext text hw)
  case minimum =>
    intro least n hleast hw
    rw [member_document] at hleast
    obtain ⟨_, hs, heq⟩ := Value.exists_of_ofOption hleast rfl
    obtain rfl := Value.number.inj heq
    exact hminimum _ n hs (hnumber n hw)
  case maximum =>
    intro most n hmost hw
    rw [member_document] at hmost
    obtain ⟨_, hs, heq⟩ := Value.exists_of_ofOption hmost rfl
    obtain rfl := Value.number.inj heq
    exact hmaximum _ n hs (hnumber n hw)
  case required | properties => exact fun _ members _ h => absurd h (hscalar members)
  case closed => exact fun members _ h => absurd h (hscalar members)

end ParamSchema

namespace ParameterSpec

theorem conforms_schema
    (htype : ∃ type ∈ spec.type.schemaTypes, w.document.hasType type = true)
    (hchoice : spec.type = .enum → ∃ choice ∈ spec.choices, w = .text choice)
    (hcolor : spec.type = .color → ∀ text, w = .text text → Color.isColor text = true)
    (hbounds : ∀ n, w = .number n → spec.Within n) :
    w.document.Conforms spec.schema.document := by
  refine ParamSchema.conforms_document htype (fun choices h => ?_) (fun pattern text h hw => ?_)
    (fun least n h hw => ?_) fun most n h hw => ?_
  all_goals obtain ⟨hif, h⟩ := Option.ite_none_right_eq_some.mp h
  · obtain rfl := Option.some.inj h
    exact hchoice hif
  · obtain rfl := Option.some.inj h
    exact Color.matches_publishedText (hcolor hif text hw)
  · exact (hbounds n hw).least least h
  · exact (hbounds n hw).most most h

theorem Form.conforms (h : spec.Form w) (hset : w.isSet = true) (hspec : spec.Coherent) :
    w.document.Conforms spec.schema.document := by
  have hwithin {n : Float} (finite : n.isFinite = true) (bounds : spec.checkBounds n = .ok ()) :
      ∀ m, ParamValue.number n = .number m → spec.Within m := by
    intro m heq
    obtain rfl := ParamValue.number.inj heq
    exact hspec.within (Number.notNaN_of_isFinite finite) bounds
  cases h with
  | int type finite whole bounds =>
    refine conforms_schema ⟨"integer", ?_, ?_⟩ ?_ ?_ (hwithin finite bounds) <;>
      simp [type, ParamType.schemaTypes, ParamValue.document, Value.hasType, finite, whole]
  | float type finite bounds | seconds type finite nonnegative bounds =>
    refine conforms_schema ⟨"number", ?_, ?_⟩ ?_ ?_ (hwithin finite bounds) <;>
      simp [type, ParamType.schemaTypes, ParamValue.document, Value.hasType, finite]
  | bool type b =>
    refine conforms_schema ⟨"boolean", ?_, ?_⟩ ?_ ?_ ?_ <;>
      simp [type, ParamType.schemaTypes, ParamValue.document, Value.hasType]
  | clock type trimmed parsed bounds | string type s =>
    refine conforms_schema ⟨"string", ?_, ?_⟩ ?_ ?_ ?_ <;>
      simp [type, ParamType.schemaTypes, ParamValue.document, Value.hasType]
  | color type trimmed isColor =>
    refine conforms_schema ⟨"string", ?_, ?_⟩ ?_ ?_ ?_ <;>
      simp [type, ParamType.schemaTypes, ParamValue.document, Value.hasType, isColor]
  | enum type mem =>
    refine conforms_schema ⟨"string", ?_, ?_⟩ ?_ ?_ ?_ <;>
      simp [type, ParamType.schemaTypes, ParamValue.document, Value.hasType, mem]
  | unset => cases hset

end ParameterSpec

namespace SkillSchema

variable {s : SkillSchema}

theorem member_document : s.document.member key =
    (Members.get? [("type", .string "object"), ("description", .string s.description),
      ("properties", .object (s.properties.map fun p => (p.1, p.2.document))),
      ("required", .strings s.required), ("additionalProperties", .bool false)] key).getD .absent :=
  Value.member_record (by simp [Members.keys])

/-- An object conforms to the schema of a skill if it has what is required, and nothing but
properties that conform to theirs. -/
theorem conforms_document {members : Members Value}
    (hrequired : ∀ name ∈ s.required, members.has name = true)
    (hmembers : ∀ name given, members.get? name = some given →
      ∃ property, s.properties.get? name = some property ∧ given.Conforms property.document) :
    (Value.object members).Conforms s.document := by
  have hproperty (name : String) :
      Members.get? (s.properties.map fun p => (p.1, p.2.document)) name =
        (s.properties.get? name).map ParamSchema.document :=
    lookup_map_values (fun _ => ParamSchema.document) s.properties name
  have hproperties : s.document.member "properties" =
      .object (s.properties.map fun p => (p.1, p.2.document)) := member_document
  -- Only the keywords about objects say anything here.
  refine .intro ⟨"object", ?type, rfl⟩ ?choice ?pattern ?minimum ?maximum ?required ?properties
    ?closed
  case type =>
    rw [Value.types, member_document]
    exact List.mem_singleton_self _
  case choice | pattern | minimum | maximum =>
    rw [member_document]
    exact nofun
  case required =>
    intro names members' hnames hsame name hname
    obtain rfl := Value.object.inj hsame
    rw [member_document] at hnames
    obtain rfl := Value.list.inj hnames
    obtain ⟨required, hmem, heq⟩ := List.mem_map.mp hname
    obtain rfl := Value.string.inj heq
    exact hrequired required hmem
  case properties =>
    intro schemas members' hschemas hsame name property given hfound hgiven
    obtain rfl := Value.object.inj hsame
    obtain rfl := Value.object.inj (hproperties.symm.trans hschemas)
    obtain ⟨own, hown, hconforms⟩ := hmembers name given hgiven
    rw [hproperty, hown, Option.map_some] at hfound
    exact Option.some.inj hfound ▸ hconforms
  case closed =>
    intro members' _ hsame name hname
    obtain rfl := Value.object.inj hsame
    obtain ⟨given, hgiven⟩ := Members.exists_get? hname
    obtain ⟨own, hown, -⟩ := hmembers name given hgiven
    rw [hproperties, Value.member, hproperty, hown]
    rfl

end SkillSchema

/-- The members that normalising leaves conform to the schema of their skill, if its types are among
those that values are checked against. -/
theorem Params.Normal.conforms {raw : Members Value} (h : Normal skill raw)
    (hcoherent : skill.Coherent) (hknown : ∀ spec ∈ skill.parameters, spec.type.isKnown = true) :
    (Value.object raw).Conforms skill.schema.document := by
  have hproperties {spec : ParameterSpec} (hspec : spec ∈ skill.parameters) :
      skill.schema.properties.get? spec.name = some spec.schema :=
    Members.get?_assigned_map hcoherent.distinct hspec (hcoherent.named spec hspec)
  refine SkillSchema.conforms_document (fun name hname => ?_) fun name given hgiven => ?_
  · obtain ⟨spec, hrequired, rfl⟩ := List.mem_map.mp hname
    obtain ⟨hspec, hmust⟩ := List.mem_filter.mp hrequired
    have hsettled : spec.settled = true := by
      rw [ParameterSpec.settled, (Bool.and_eq_true_iff.mp hmust).1, Bool.true_or]
    cases h.standing spec hspec with
    | value form member sole =>
      exact List.any_eq_true.mpr ⟨_, Members.mem_of_get? member, beq_self_eq_true _⟩
    | nothing absent unsettled => cases unsettled.symm.trans hsettled
  · obtain ⟨spec, hspec, hname⟩ :=
      List.any_eq_true.mp (h.declared _ (Members.mem_of_get? hgiven))
    obtain rfl : spec.name = name := beq_iff_eq.mp hname
    cases h.standing spec hspec with
    | value form member sole =>
      obtain rfl := Option.some.inj (member.symm.trans hgiven)
      exact ⟨spec.schema, hproperties hspec,
        form.conforms (form.isSet (hknown spec hspec)) (hcoherent.parameters spec hspec)⟩
    | nothing absent unsettled => cases absent.symm.trans hgiven

theorem Schema.member_definitions (h : (skills.map (·.name)).Nodup) (hskill : skill ∈ skills)
    (hname : skill.name ≠ Inherited.parentKey) :
    ((Schema.document skills).member "definitions").member skill.name = skill.schema.document := by
  have hdefined : (Schema.definitions skills).get? skill.name = some skill.schema :=
    Members.get?_assigned_map h hskill hname
  have hdefinitions : (Schema.document skills).member "definitions" =
      .object ((Schema.definitions skills).map fun p => (p.1, p.2.document)) := by
    rw [Schema.document, Value.member_record (by simp [Members.keys])]
    rfl
  rw [hdefinitions, Value.member, Members.get?,
    lookup_map_values (fun _ => SkillSchema.document), ← Members.get?, hdefined]
  rfl

namespace Params

/-- Normalised parameters are what the declarations promise of them. -/
structure Faithful (skill : Skill) (raw : Members Value) (p : Params) : Prop where
  /-- The members that are left are the values, each under its name. -/
  members : ∀ entry, entry ∈ (normalize skill raw).raw ↔ entry ∈ p.members
  /-- The values are in the order in which their parameters are declared. -/
  order : (p.values.map (·.1)).Sublist (skill.parameters.map (·.name))
  /-- If all types are known, the members conform to what any registry with the skill publishes of
  it. -/
  schema : (∀ spec ∈ skill.parameters, spec.type.isKnown = true) →
    ∀ history, skill ∈ (Registry.after history).list →
      (Value.object (normalize skill raw).raw).Conforms
      (((Registry.schema.run (Registry.after history)).1.member "definitions").member skill.name)
  /-- A time is a number of seconds within the bounds. -/
  times : ∀ spec ∈ skill.parameters, spec.type = .time → p.has spec.name = true →
    ∃ moment, p.time spec.name = .ok (some moment) ∧ 0 ≤ moment.seconds ∧
      spec.Within moment.seconds
  /-- What is not given has its default. -/
  defaults : ∀ spec ∈ skill.parameters, spec.type.isKnown = true →
    Withheld skill raw spec.name → p.raw? spec.name = spec.default?
  /-- What is there is read by the accessors of its type. -/
  accessors : ∀ spec ∈ skill.parameters, spec.type.isKnown = true → p.has spec.name = true →
    p.Reads spec

/-- Whatever is given, if it is accepted, the parameters conform to the schema that is published and
can be read as they are declared. Of a type that the table of words merely inherits nothing of this
is promised: its values are not checked. -/
theorem normalize_faithful {raw : Members Value} {p : Params} (hskill : skill.Parsed)
    (h : (normalize skill raw).result = .ok p) : Faithful skill raw p := by
  have hcoherent := hskill.coherent
  refine ⟨mem_members_iff hcoherent h, names_sublist_of_normalize hcoherent h,
    fun hknown history hlist => ?_, fun spec hspec htype hhas => ?_,
    fun spec => raw?_of_withheld hcoherent h, fun spec hspec hknown hhas => ?_⟩
  · obtain ⟨hcurrent, -⟩ := Registry.after_spec history
    have hentry := Schema.member_definitions hcurrent.index.nodup hlist hskill.name_ne
    rw [(Registry.schema_run hcurrent).1, Registry.list, hentry]
    exact (normal_of_normalize hcoherent h).1.conforms hcoherent hknown
  · have hknown : spec.type.isKnown = true := by rw [htype]; rfl
    obtain ⟨w, hw, hform⟩ := raw?_of_has hcoherent h hspec hknown hhas
    exact time_of_form (hcoherent.parameters spec hspec) htype hform hw
  · obtain ⟨w, hw, hform⟩ := raw?_of_has hcoherent h hspec hknown hhas
    exact reads_of_form (hcoherent.parameters spec hspec) hform hw

/-- A parameter of each type, with defaults and bounds. -/
def stampParameters : Members Value := [
  ("label", .object [("type", .string "string"), ("required", .bool true),
    ("aliases", .string "text")]),
  ("ink", .object [("type", .string "color"), ("default", .string "black")]),
  ("at", .object [("type", .string "time"), ("default", .string "0:05"), ("min", .number 5),
    ("max", .number 3600)]),
  ("count", .object [("type", .string "int"), ("min", .number 1), ("max", .number 16)]),
  ("side", .object [("type", .string "enum"),
    ("choices", .list [.string "left", .string "right"])]),
  ("bold", .object [("type", .string "bool")]),
  ("scale", .object [("type", .string "float"), ("default", .number 1.5), ("max", .number 4)])]

def stampDocument : Value := .object [("name", .string "stamp"),
  ("parameters", .object stampParameters), ("template", .string "drawtext=text={label}")]

def stampSkill : Skill where
  name := "stamp"
  category := .custom
  parameters := [
    { name := "label", type := .string, required := true, aliases := ["text"] },
    { name := "ink", type := .color, default? := some (.text "black") },
    { name := "at", type := .time, default? := some (.text "0:05"), min? := some 5,
      max? := some 3600 },
    { name := "count", type := .int, min? := some 1, max? := some 16 },
    { name := "side", type := .enum, choices? := some ["left", "right"] },
    { name := "bold", type := .bool },
    { name := "scale", type := .float, default? := some (.number 1.5), max? := some 4 }]
  strategy := .template "drawtext=text={label}" .video
  source := "stamp.yaml"

/-- Every value is given in another form than that of its type, and one is null. -/
def stampGiven : Members Value := [("text", .number 7), ("ink", .string " Navy@.5 "),
  ("at", .string " 1:00:00 "), ("count", .string "0x0A"), ("side", .string "RI"),
  ("bold", .string "Off"), ("scale", .null)]

def stampValues : List (String × ParamValue) := [("label", .text "7"),
  ("ink", .text "Navy@.5"), ("at", .text "1:00:00"), ("count", .number 10),
  ("side", .text "right"), ("bold", .flag false), ("scale", .number 1.5)]

set_option maxRecDepth 10000 in
theorem parsed_stampSkill : stampSkill.Parsed := by
  refine @Skill.parsed_of_shape (fun _ => true) "stamp.yaml" stampDocument _ ?_ rfl
  intro members h
  obtain rfl : stampParameters = members := Value.object.inj h
  decide

set_option maxRecDepth 10000 in
theorem normalize_faithful_stamp :
    stampSkill.Parsed ∧ stampSkill ∈ (Registry.after [.register stampSkill]).list ∧
      (normalize stampSkill stampGiven).result = .ok ⟨stampSkill, stampValues⟩ ∧
      Faithful stampSkill stampGiven ⟨stampSkill, stampValues⟩ := by
  have haccepted :
      (normalize stampSkill stampGiven).result = .ok ⟨stampSkill, stampValues⟩ := by rfl
  exact ⟨parsed_stampSkill, List.mem_singleton_self _, haccepted,
    normalize_faithful parsed_stampSkill haccepted⟩

end Params

end SkillPipeline
