import SkillPipeline.Proofs.Filter.Segments
import SkillPipeline.Proofs.Legibility.Templates
import SkillPipeline.Proofs.Pipeline.Explanation
import SkillPipeline.Proofs.Skill.Declaration
import SkillPipeline.Proofs.Skill.Values

namespace SkillPipeline

open Outcome Template SkillPipeline.Filter

namespace Template

/-- The segments of a text with the characters of a name in each hole. -/
def interleave (value : String → List Char) (segments : List Segment) : List Char :=
  segments.flatMap fun
    | .literal c => [c]
    | .hole name => value name

end Template

namespace ParamValue

/-- A value in filter text, where numbers of some types have a decimal place. -/
def inFilter (decimal : Bool) : ParamValue → List Char
  | .unset => []
  | .flag b => if b then ['1'] else ['0']
  | .number n => ((if decimal then NumberForm.decimal else .shortest).text n).toList
  | .text s => escapeChars s.toList

def inOption : ParamValue → List Char
  | .unset => []
  | .flag b => if b then ['1'] else ['0']
  | .number n => (Number.text n).toList
  | .text s => s.toList

def inCall (w : ParamValue) : List Char := w.shown.toList

end ParamValue

namespace Params

variable {p : Params} {name : String} {w : ParamValue} {α β γ : Type}

def isDecimal (p : Params) (name : String) : Bool := (p.skill.spec? name).any (·.type == .float)

/-- The characters of the value of a parameter, of which there are none without a value. -/
def written (p : Params) (write : String → ParamValue → List Char) (name : String) : List Char :=
  ((p.raw? name).map (write name)).getD []

def unset? (p : Params) (names : List String) : Option String :=
  names.find? fun name => (p.raw? name).isNone

/-- The answer if all names have values, and otherwise the fault of the first that has none. -/
def ifSet (p : Params) (names : List String) (needs : String → Fault) (answer : α) :
    Except Fault α :=
  match p.unset? names with
  | some name => .error (needs name)
  | none => .ok answer

/-- The values can be written: no number among them is infinite, and none stands under the key of
the parent. -/
structure Writable (p : Params) : Prop where
  finite : ∀ name n, p.raw? name = some (.number n) → n.isFinite = true
  named : ∀ name w, p.raw? name = some w → name ≠ Inherited.parentKey

theorem declared_of_raw? {skill : Skill} {given : Members Value} (hskill : skill.Coherent)
    (h : (normalize skill given).result = .ok p) (hw : p.raw? name = some w) :
    ∃ spec ∈ skill.parameters, spec.name = name ∧ spec.Form w := by
  have hname : name ∈ p.values.map (·.1) := by
    obtain ⟨before, after, heq, -⟩ := List.lookup_eq_some_iff.mp (raw?_eq_some.mp hw).1
    rw [heq]
    exact List.mem_map_of_mem (List.mem_append_right before List.mem_cons_self)
  obtain ⟨spec, hspec, rfl⟩ :=
    List.mem_map.mp ((names_sublist_of_normalize hskill h).subset hname)
  exact ⟨spec, hspec, rfl, form_of_normalize hskill h hspec hw⟩

theorem writable_of_normalize {skill : Skill} {given : Members Value} (hskill : skill.Coherent)
    (h : (normalize skill given).result = .ok p) : p.Writable := by
  constructor
  · intro name n hn
    obtain ⟨spec, -, -, hform⟩ := declared_of_raw? hskill h hn
    cases hform with
    | int type finite whole bounds => exact finite
    | float type finite bounds => exact finite
    | seconds type finite nonnegative bounds => exact finite
  · intro name w hw
    obtain ⟨spec, hspec, rfl, -⟩ := declared_of_raw? hskill h hw
    exact hskill.named spec hspec

theorem ifSet_map (names : List String) (needs : String → Fault) (f : α → β) (answer : α) :
    (p.ifSet names needs answer).map f = p.ifSet names needs (f answer) := by
  rw [ifSet, ifSet]
  cases p.unset? names <;> rfl

theorem ifSet_append (names others : List String) (needs : String → Fault) (answer : α) (more : β)
    (f : α → β → γ) : (do return f (← p.ifSet names needs answer) (← p.ifSet others needs more)) =
      p.ifSet (names ++ others) needs (f answer more) := by
  rw [ifSet, ifSet, ifSet, unset?, unset?, unset?, List.find?_append]
  cases names.find? fun name => (p.raw? name).isNone with
  | some name => rfl
  | none => cases others.find? fun name => (p.raw? name).isNone <;> rfl

theorem ifSet_cons (needs : String → Fault) (name : String) (names : List String) (answer : α) :
    p.ifSet (name :: names) needs answer =
      if (p.raw? name).isNone then .error (needs name) else p.ifSet names needs answer := by
  rw [ifSet, ifSet, unset?, unset?, List.find?_cons]
  cases (p.raw? name).isNone <;> rfl

theorem unset_of_ifSet {names : List String} {needs : String → Fault} {answer : α} {f : Fault}
    (h : p.ifSet names needs answer = .error f) :
    ∃ name ∈ names, p.raw? name = none ∧ f = needs name := by
  rw [ifSet] at h
  cases hunset : p.unset? names with
  | none =>
    rw [hunset] at h
    cases h
  | some name =>
    rw [hunset] at h
    have hnone : (p.raw? name).isNone = true := by simpa using List.find?_some hunset
    exact ⟨name, List.mem_of_find?_eq_some hunset, Option.isNone_iff_eq_none.mp hnone,
      (Except.error.inj h).symm⟩

theorem answer_of_ifSet {names : List String} {needs : String → Fault} {answer b : α}
    (h : p.ifSet names needs answer = .ok b) : b = answer := by
  rw [ifSet] at h
  cases hunset : p.unset? names with
  | none =>
    rw [hunset] at h
    exact (Except.ok.inj h).symm
  | some name =>
    rw [hunset] at h
    cases h

def optionNeeds (p : Params) (name : String) : Fault :=
  .validation (.optionNeeds p.skill.name name)

def optionChars (p : Params) (segments : List Segment) : List Char :=
  interleave (p.written fun _ => ParamValue.inOption) segments

theorem optionText_eq (hwritable : p.Writable) (name : String) : p.optionText name =
    p.ifSet [name] p.optionNeeds
      (String.ofList (p.written (fun _ => ParamValue.inOption) name)) := by
  rw [optionText, ifSet_cons, written]
  cases hw : p.raw? name with
  | none => rfl
  | some w =>
    cases w with
    | unset => cases (raw?_eq_some.mp hw).2
    | flag b => cases b <;> rfl
    | text s => exact congrArg Except.ok String.ofList_toList.symm
    | number n =>
      change Except.map _ (FilterText.number n .shortest) = _
      rw [FilterText.number, if_pos (hwritable.finite name n hw)]
      change Except.ok (String.ofList ([Piece.number n .shortest].flatMap Piece.chars)) =
        Except.ok (String.ofList (Number.text n).toList)
      rw [List.flatMap_singleton]
      rfl

theorem fillTextM_eq (hwritable : p.Writable) (segments : List Segment) :
    fillTextM p.optionText segments =
      p.ifSet (names segments) p.optionNeeds (p.optionChars segments) := by
  induction segments with
  | nil => rfl
  | cons segment rest ih =>
    cases segment with
    | literal c =>
      rw [fillTextM, ih]
      exact ifSet_map _ _ (c :: ·) _
    | hole name =>
      have happend := p.ifSet_append [name] (names rest) p.optionNeeds
        (String.ofList (p.written (fun _ => ParamValue.inOption) name)) (p.optionChars rest)
        fun text tail => text.toList ++ tail
      rw [String.toList_ofList] at happend
      rw [fillTextM, ih, optionText_eq hwritable]
      exact happend

theorem mapM_fillTextM (hwritable : p.Writable) (words : List String) :
    (words.mapM fun word => (fillTextM p.optionText (Template.segments word)).map String.ofList) =
      p.ifSet (words.flatMap holes) p.optionNeeds
        (words.map fun word => String.ofList (p.optionChars (Template.segments word))) := by
  induction words with
  | nil => rfl
  | cons word rest ih =>
    rw [List.mapM_cons, ih, fillTextM_eq hwritable, ifSet_map]
    exact ifSet_append _ _ _ _ _ (· :: ·)

theorem renderOptions_eq (hwritable : p.Writable) {template : String} {words : List (List Char)}
    (hwords : Text.Worded template.toList words) (hne : words ≠ []) :
    p.renderOptions template = p.ifSet (holes template) p.optionNeeds
      (words.map fun word => String.ofList (p.optionChars (segmentsFrom 0 word))) := by
  have hoptions : optionWords template = words.map String.ofList := by
    rw [optionWords, Text.worded_iff.mp hwords]
    cases words with
    | nil => exact absurd rfl hne
    | cons first rest => rfl
  have hholes : (words.map String.ofList).flatMap holes = holes template := by
    have hnames := names_of_worded hwords
    rw [List.flatMap_map]
    simp only [holes, Template.segments, String.toList_ofList]
    exact hnames.symm
  rw [renderOptions, hoptions, mapM_fillTextM hwritable, hholes, List.map_map]
  simp only [Function.comp_def, Template.segments, String.toList_ofList]

theorem renderOptions_blank {template : String} (h : Text.Worded template.toList []) :
    p.renderOptions template = .ok [""] := by
  rw [renderOptions, optionWords, Text.worded_iff.mp h]
  rfl

def templateNeeds (p : Params) (name : String) : Fault :=
  .validation (.templateNeeds p.skill.name name)

def filterChars (p : Params) (segments : List Segment) : List Char :=
  interleave (p.written fun name => ParamValue.inFilter (p.isDecimal name)) segments

theorem filterPart_of_unset (h : p.raw? name = none) :
    p.filterPart name = .error (p.templateNeeds name) := by
  rw [filterPart, h]
  rfl

/-- A number makes a part of filter text, unless it stands under the key of the parent. -/
theorem numberPart_chars {n : Float} (hn : n.isFinite = true) (hname : name ≠ Inherited.parentKey) :
    ∃ t, FilterText.ofPart (numberPart name n) = .ok t ∧
      t.chars = (NumberForm.shortest.text n).toList := by
  rw [numberPart, if_pos (Members.isAssignable_iff.mpr hname)]
  exact ⟨⟨[.number n .shortest]⟩, if_pos hn, List.flatMap_singleton ..⟩

theorem filterPart_of_set (hwritable : p.Writable) (h : p.raw? name = some w) :
    ∃ part t, p.filterPart name = .ok part ∧ FilterText.ofPart part = .ok t ∧
      t.chars = w.inFilter (p.isDecimal name) := by
  have hname := hwritable.named name w h
  rw [filterPart, h]
  cases w with
  | unset => cases (raw?_eq_some.mp h).2
  | flag b =>
    cases b with
    | true =>
      have hone : (NumberForm.shortest.text 1).toList = ['1'] := by decide +kernel
      obtain ⟨t, ht, hchars⟩ := numberPart_chars (n := 1) (by decide) hname
      exact ⟨_, t, rfl, ht, hchars.trans hone⟩
    | false =>
      have hzero : (NumberForm.shortest.text 0).toList = ['0'] := by decide +kernel
      obtain ⟨t, ht, hchars⟩ := numberPart_chars (n := 0) (by decide) hname
      exact ⟨_, t, rfl, ht, hchars.trans hzero⟩
  | text s => exact ⟨_, _, rfl, rfl, FilterText.chars_escaped s⟩
  -- Only types with decimals keep a point in a whole number.
  | number n =>
    have hn := hwritable.finite name n h
    dsimp only
    rw [← isDecimal]
    cases p.isDecimal name with
    | true =>
      have hdecimal : FilterText.decimal n = .ok ⟨[.number n .decimal]⟩ := if_pos hn
      rw [if_pos rfl, hdecimal]
      exact ⟨_, _, rfl, rfl, List.flatMap_singleton ..⟩
    | false =>
      obtain ⟨t, ht, hchars⟩ := numberPart_chars hn hname
      exact ⟨_, t, rfl, ht, hchars⟩

theorem held_eq_written (hwritable : p.Writable) (name : String) :
    p.held name = p.written (fun name => ParamValue.inFilter (p.isDecimal name)) name := by
  rw [held, written]
  cases hw : p.raw? name with
  | none =>
    rw [filterPart_of_unset hw]
    rfl
  | some w =>
    obtain ⟨part, t, hpart, ht, hchars⟩ := filterPart_of_set hwritable hw
    rw [bind_eq_ok.mpr ⟨part, hpart, ht⟩]
    exact hchars

theorem filled_eq (hwritable : p.Writable) (segments : List Segment) :
    p.filled segments = p.filterChars segments := by
  rw [filled, filterChars, interleave]
  congr 1
  funext segment
  cases segment with
  | literal c => rfl
  | hole name => exact held_eq_written hwritable name

/-- The values are looked at in the order of the names, up to the first that has none. -/
theorem exists_parts (hwritable : p.Writable) (names : List String) : ∃ parts,
    (names.mapM fun name => do return (name, ← p.filterPart name)) =
      p.ifSet names p.templateNeeds parts := by
  induction names with
  | nil => exact ⟨[], rfl⟩
  | cons name rest ih =>
    obtain ⟨parts, hparts⟩ := ih
    have hfirst : ∃ part, (do return (name, ← p.filterPart name)) =
        p.ifSet [name] p.templateNeeds (name, part) := by
      cases hw : p.raw? name with
      | none =>
        refine ⟨.num 0, ?_⟩
        rw [ifSet_cons, hw, filterPart_of_unset hw]
        rfl
      | some w =>
        obtain ⟨part, -, hpart, -⟩ := filterPart_of_set hwritable hw
        refine ⟨part, ?_⟩
        rw [ifSet_cons, hw, hpart]
        rfl
    obtain ⟨part, hpart⟩ := hfirst
    refine ⟨(name, part) :: parts, ?_⟩
    rw [List.mapM_cons, hparts, hpart]
    exact ifSet_append [name] rest _ _ _ (· :: ·)

theorem exists_fill {values : String → Option FilterText.Part} {segments : List Segment}
    (h : ∀ name ∈ names segments, ∃ part t, values name = some part ∧
      FilterText.ofPart part = .ok t) : ∃ t, fill values segments = .ok t := by
  induction segments with
  | nil => exact ⟨_, rfl⟩
  | cons segment rest ih =>
    cases segment with
    | literal c =>
      obtain ⟨tail, htail⟩ := ih h
      refine ⟨.wording (String.singleton c) ++ tail, ?_⟩
      rw [fill, htail]
      rfl
    | hole name =>
      obtain ⟨part, t, hpart, ht⟩ := h name List.mem_cons_self
      obtain ⟨tail, htail⟩ := ih fun other hother => h other (List.mem_cons_of_mem name hother)
      refine ⟨t ++ tail, ?_⟩
      simp only [fill, hpart]
      rw [ht, htail]
      rfl

theorem exists_lookup {names : List String} {parts : List (String × FilterText.Part)}
    (hparts : (names.mapM fun name => do return (name, ← p.filterPart name)) = .ok parts)
    (hname : name ∈ names) :
    ∃ part, parts.lookup name = some part ∧ p.filterPart name = .ok part := by
  have hentries : List.Forall₂ (fun name entry => entry.1 = name ∧
      p.filterPart name = .ok entry.2) names parts := by
    refine (mapM_eq_ok.mp hparts).imp fun name entry hentry => ?_
    obtain ⟨part, hpart, heq⟩ := bind_eq_ok.mp hentry
    obtain rfl := Except.ok.inj heq
    exact ⟨rfl, hpart⟩
  obtain ⟨entry, hentry, rfl, -⟩ := exists_of_mem_left hentries hname
  have hsome : (parts.lookup entry.1).isSome = true :=
    List.lookup_isSome_iff.mpr ⟨entry, hentry, beq_self_eq_true entry.1⟩
  obtain ⟨part, hpart⟩ := Option.isSome_iff_exists.mp hsome
  obtain ⟨before, after, heq, -⟩ := List.lookup_eq_some_iff.mp hpart
  have hmem : (entry.1, part) ∈ parts := heq ▸ List.mem_append_right before List.mem_cons_self
  obtain ⟨name, -, hsame, hfound⟩ := exists_of_mem_right hentries hmem
  exact ⟨part, hpart, hsame ▸ hfound⟩

/-- Filter text is filled from the whole template, or a parameter has no value. -/
theorem renderFilter_eq (hwritable : p.Writable) (template : String) :
    (p.renderFilter template).map (·.text) =
      p.ifSet (holes template) p.templateNeeds
        (String.ofList (p.filterChars (Template.segments template))) := by
  obtain ⟨parts, hparts⟩ := exists_parts hwritable (holes template)
  rw [ifSet] at hparts ⊢
  -- The first hole without a value decides; otherwise every hole finds its part.
  cases hunset : p.unset? (holes template) with
  | some name =>
    rw [hunset] at hparts
    rw [renderFilter, hparts]
    rfl
  | none =>
    rw [hunset] at hparts
    have hset : ∀ name ∈ holes template, ∃ part t, parts.lookup name = some part ∧
        FilterText.ofPart part = .ok t := by
      intro name hname
      obtain ⟨part, hlookup, hpart⟩ := exists_lookup hparts hname
      have hvalue := List.find?_eq_none.mp hunset name hname
      obtain ⟨w, hw⟩ : ∃ w, p.raw? name = some w := by
        simpa [Option.ne_none_iff_exists'] using hvalue
      obtain ⟨same, t, hsame, ht, -⟩ := filterPart_of_set hwritable hw
      obtain rfl := Except.ok.inj (hsame.symm.trans hpart)
      exact ⟨same, t, hlookup, ht⟩
    obtain ⟨t, ht⟩ := exists_fill hset
    have hrender : p.renderFilter template = .ok t := by
      rw [renderFilter, hparts]
      exact ht
    rw [hrender]
    refine congrArg (fun chars => Except.ok (String.ofList chars)) ?_
    rw [renderFilter_eq_filled t hrender, filled_eq hwritable]

/-- What a call passes on for one of its values. One placeholder and nothing else passes on the
value of the parameter as it is, if there is one; any other text has the values put in. -/
inductive Passes (p : Params) : ParamValue → Option Value → Prop
  | typed {w : ParamValue} (typed : ∀ s, w ≠ .text s) : Passes p w (some w.document)
  | whole {s name : String} (isName : IsName name.toList)
      (exact : s.toList = placeholder name.toList) :
      Passes p (.text s) ((p.raw? name).map (·.document))
  | within {s : String} {segments : List Segment}
      (inexact : ¬∃ name, IsName name ∧ s.toList = placeholder name)
      (splits : Splits s.toList segments) :
      Passes p (.text s) (some (.string (String.ofList
        (interleave (p.written fun _ => ParamValue.inCall) segments))))

theorem fillText_eq (template : String) :
    fillText template (fun name => ((p.raw? name).map (·.shown)).getD "") =
      String.ofList (interleave (p.written fun _ => ParamValue.inCall)
        (Template.segments template)) := by
  rw [fillText, interleave]
  congr 2
  funext segment
  cases segment with
  | literal c => rfl
  | hole name =>
    dsimp only
    rw [written]
    cases p.raw? name <;> rfl

theorem passes_passOn? (w : ParamValue) : p.Passes w (Call.passOn? p w) := by
  cases w with
  | unset => exact .typed nofun
  | number n => exact .typed nofun
  | flag b => exact .typed nofun
  | text s =>
    rw [Call.passOn?]
    cases hexact : exactHole? s with
    | some name =>
      obtain ⟨hname, hs⟩ := exactHole?_eq_some.mp hexact
      exact .whole hname hs
    | none =>
      dsimp only
      rw [fillText_eq]
      refine .within ?_ (splits_segments s)
      rintro ⟨name, hname, hs⟩
      have hfound : exactHole? s = some (String.ofList name) := by
        rw [exactHole?_eq_some, String.toList_ofList]
        exact ⟨hname, hs⟩
      rw [hexact] at hfound
      cases hfound

theorem resolve_passes {params : Members ParamValue}
    (hnamed : ∀ entry ∈ params, entry.1 ≠ Inherited.parentKey) :
    ∃ passed : List (String × Option Value),
    List.Forall₂ (fun entry out => out.1 = entry.1 ∧ p.Passes entry.2 out.2) params passed ∧
      Call.resolve params p = passed.filterMap fun (key, out?) => out?.map (key, ·) := by
  refine ⟨params.map fun entry => (entry.1, Call.passOn? p entry.2), ?_, ?_⟩
  · rw [List.forall₂_map_right_iff]
    exact List.forall₂_same.mpr fun entry _ => ⟨rfl, passes_passOn? entry.2⟩
  · have hall : params.filter (Members.isAssignable ·.1) = params :=
      List.filter_eq_self.mpr fun entry hentry => Members.isAssignable_iff.mpr (hnamed entry hentry)
    rw [Call.resolve, hall, List.filterMap_map]
    rfl

/-- With these parameters the template and the calls of their skill are filled in one pass. -/
structure Substitutes (p : Params) : Prop where
  /-- A filter has the characters of the template and of the values in turn. -/
  filter : ∀ text target segments, p.skill.strategy = .template text target → target ≠ .output →
    Splits text.toList segments →
      p.renderTemplate text target =
          (p.renderFilter text).map (fun t => if target = .audio then .audio [t] else .video [t]) ∧
        (p.renderFilter text).map (·.text) =
          p.ifSet (names segments) p.templateNeeds (String.ofList (p.filterChars segments))
  /-- Each word of an options template is a token, with the values inside. -/
  options : ∀ text words pieces, p.skill.strategy = .template text .output →
    Text.Worded text.toList words → List.Forall₂ Splits words pieces → words ≠ [] →
      p.renderTemplate text .output = p.ifSet (pieces.flatMap names) p.optionNeeds
        (.flags (pieces.map fun segments => String.ofList (p.optionChars segments)))
  /-- A template without words comes to one token all the same. -/
  blank : ∀ text, p.skill.strategy = .template text .output → Text.Worded text.toList [] →
    p.renderTemplate text .output = .ok (.flags [""])
  /-- Whatever the values are, there are as many tokens as words, unless there are no words. -/
  count : ∀ text words c, p.skill.strategy = .template text .output →
    Text.Worded text.toList words → p.renderTemplate text .output = .ok c →
      (c.outputFlags.length = words.length ↔ words ≠ [])
  /-- The one fault is that a parameter of the skill has no value. -/
  fault : ∀ text target f, p.skill.strategy = .template text target →
    p.renderTemplate text target = .error f →
      ∃ spec ∈ p.skill.parameters, p.raw? spec.name = none ∧
        f = if target = .output then p.optionNeeds spec.name else p.templateNeeds spec.name
  /-- A call passes on its values in turn, the holes of which are parameters of the skill. -/
  calls : ∀ call ∈ p.skill.calls, (∃ passed : List (String × Option Value),
      List.Forall₂ (fun entry out => out.1 = entry.1 ∧ p.Passes entry.2 out.2)
          call.params passed ∧
        Call.resolve call.params p = passed.filterMap fun (key, out?) => out?.map (key, ·)) ∧
    ∀ key s segments, (key, ParamValue.text s) ∈ call.params → Splits s.toList segments →
      ∀ name ∈ names segments, ∃ spec ∈ p.skill.parameters, spec.name = name

theorem renderTemplate_filter (p : Params) (text : String) {target : Target}
    (htarget : target ≠ .output) : p.renderTemplate text target = (p.renderFilter text).map
      fun t => if target = .audio then .audio [t] else .video [t] := by
  cases target with
  | output => exact absurd rfl htarget
  | audio => rfl
  | video => rfl

theorem renderTemplate_options (hwritable : p.Writable) {text : String} {words : List (List Char)}
    (hwords : Text.Worded text.toList words) (hne : words ≠ []) :
    p.renderTemplate text .output = p.ifSet (holes text) p.optionNeeds
      (.flags (words.map fun word => String.ofList (p.optionChars (segmentsFrom 0 word)))) := by
  rw [renderTemplate, renderOptions_eq hwritable hwords hne, ifSet_map]

theorem renderTemplate_blank {text : String} (h : Text.Worded text.toList []) :
    p.renderTemplate text .output = .ok (.flags [""]) := by
  rw [renderTemplate, renderOptions_blank h]
  rfl

theorem exists_unset (hwritable : p.Writable) {text : String} {target : Target} {f : Fault}
    (h : p.renderTemplate text target = .error f) : ∃ name ∈ holes text, p.raw? name = none ∧
      f = if target = .output then p.optionNeeds name else p.templateNeeds name := by
  by_cases htarget : target = .output
  · subst htarget
    by_cases hne : Text.words text.toList = []
    · rw [renderTemplate_blank (Text.worded_iff.mpr hne)] at h
      cases h
    · rw [renderTemplate_options hwritable (Text.worded_iff.mpr rfl) hne] at h
      simpa using unset_of_ifSet h
  · rw [renderTemplate_filter p text htarget] at h
    have htext := renderFilter_eq hwritable text
    rw [map_eq_error.mp h] at htext
    simpa [htarget] using unset_of_ifSet htext.symm

theorem substitutes_of_normalize {skill : Skill} {given : Members Value} (hskill : skill.Parsed)
    (h : (normalize skill given).result = .ok p) : p.Substitutes := by
  obtain ⟨rfl, -⟩ := normalize_settled h
  have hwritable := writable_of_normalize hskill.coherent h
  have hdeclares := hskill.declares
  constructor
  case filter =>
    intro text target segments hstrategy htarget hsplits
    refine ⟨renderTemplate_filter p text htarget, ?_⟩
    rw [renderFilter_eq hwritable, holes, Template.segments, splits_iff.mp hsplits]
    rfl
  case options =>
    intro text words pieces hstrategy hwords hpieces hne
    obtain rfl := eq_map_of_splits hpieces
    have hholes : holes text = (words.map (segmentsFrom 0)).flatMap names := by
      rw [List.flatMap_map]
      exact names_of_worded hwords
    rw [renderTemplate_options hwritable hwords hne, hholes, List.map_map]
    rfl
  case blank => exact fun text hstrategy hblank => renderTemplate_blank hblank
  case count =>
    intro text words c hstrategy hwords hc
    constructor
    · rintro hlength rfl
      rw [renderTemplate_blank hwords] at hc
      obtain rfl := Except.ok.inj hc
      cases hlength
    · intro hne
      rw [renderTemplate_options hwritable hwords hne] at hc
      obtain rfl := answer_of_ifSet hc
      exact List.length_map _
  case fault =>
    intro text target f hstrategy hf
    obtain ⟨name, hname, hnone, rfl⟩ := exists_unset hwritable hf
    obtain ⟨spec, hspec, rfl⟩ := List.mem_map.mp (hdeclares.template hstrategy name hname)
    exact ⟨spec, hspec, hnone, rfl⟩
  case calls =>
    intro call hcall
    refine ⟨resolve_passes (hskill.named_calls call hcall), ?_⟩
    intro key s segments hmem hsplits name hname
    rw [← splits_iff.mp hsplits] at hname
    obtain ⟨spec, hspec, rfl⟩ := List.mem_map.mp (hdeclares.call hcall hmem name hname)
    exact ⟨spec, hspec, rfl⟩

end Params

open Expansion Explanation in
/-- Where the parameters of a skill that was read from a document are in order, its template and its
calls are filled in one pass. So they are at every step and call of an expansion, however deep it
lies, since the parameters there are in order in turn. -/
theorem Expansion.substituted_once {skill : Skill} {given : Members Value} {p : Params}
    (hskill : skill.Parsed) (h : (Params.normalize skill given).result = .ok p)
    {history : List Usage} (hparsed : ∀ u ∈ history, ∀ skill ∈ u.given, skill.Parsed)
    {ss : List Step} {all : List Stage}
    (hall : ((steps true 0 ss).run (Session.after history)).1.2 = .ok all) :
    p.Substitutes ∧ ∃ forest : Forest,
      Grows (Session.after history).registry.index (topSteps ss) forest ∧
        all = forest.units ∧ ∀ unit ∈ all, unit.params.Substitutes := by
  refine ⟨Params.substitutes_of_normalize hskill h, ?_⟩
  obtain ⟨forest, hgrows, rfl⟩ := exists_forest (Session.over_after history) hall
  refine ⟨forest, hgrows, rfl, fun unit hunit => ?_⟩
  obtain ⟨step, -, skill, hget, hresult⟩ := hgrows.prepared unit hunit
  have hknown := Session.knows_after hparsed skill (Index.mem_of_get? hget)
  exact Params.substitutes_of_normalize hknown hresult

def noteTemplate : String := "drawtext=text=\x7btext\x7d:x=\x7bx\x7d"

def noteParameters : Members Value :=
  [("text", .record [("type", .string "string")]), ("x", .record [("type", .string "float")])]

/-- The document of a skill that writes a text at a place. -/
def noteDocument : Value := .object [("name", .string "note"),
  ("template", .string noteTemplate), ("parameters", .object noteParameters)]

def noteSkill : Skill where
  name := "note"
  category := .custom
  parameters := [{ name := "text", type := .string }, { name := "x", type := .float }]
  strategy := .template noteTemplate .video
  source := "notes.yaml"

/-- The document of a skill that has a note with the text in brackets. -/
def memoDocument : Value := .object [("name", .string "memo"),
  ("pipeline", .list [.object [("skill", .string "note"),
    ("params", .object [("text", .string "<\x7btext\x7d>"), ("x", .string "\x7bx\x7d")])]]),
  ("parameters", .object noteParameters)]

def memoSkill : Skill where
  name := "memo"
  category := .custom
  parameters := noteSkill.parameters
  strategy := .pipeline
    [⟨"note", [("text", .text "<\x7btext\x7d>"), ("x", .text "\x7bx\x7d")]⟩]
  source := "notes.yaml"

theorem parsed_noteSkill : noteSkill.Parsed := by
  refine @Skill.parsed_of_shape (fun _ => true) "notes.yaml" noteDocument _ ?_ rfl
  intro members h
  obtain rfl : noteParameters = members := Value.object.inj h
  decide

theorem parsed_memoSkill : memoSkill.Parsed := by
  refine @Skill.parsed_of_shape (fun _ => true) "notes.yaml" memoDocument _ ?_ rfl
  intro members h
  obtain rfl : noteParameters = members := Value.object.inj h
  decide

def memoHistory : List Usage := [.register noteSkill, .register memoSkill]

def memoStep : Step := ⟨"memo", [("text", .string "\x7bx\x7d"), ("x", .number 2)]⟩

open Expansion Explanation in
theorem Expansion.substituted_once_memo :
    let session := Session.after memoHistory
    let p : Params := ⟨noteSkill, [("text", .text "\x7bx\x7d"), ("x", .number 2)]⟩
    ((p.renderFilter noteTemplate).map (·.text)).toOption =
        some "drawtext=text=\x7bx\x7d:x=2.0" ∧
      ∃ forest : Forest, Grows session.registry.index (topSteps [memoStep]) forest ∧
        forest.units.map (fun s => (s.id, s.params.raw? "text")) =
            [("s1", some (.text "\x7bx\x7d")), ("s1_1", some (.text "<\x7bx\x7d>"))] ∧
          ∀ unit ∈ forest.units, unit.params.Substitutes := by
  intro session p
  have hp : (Params.normalize noteSkill memoStep.params).result = .ok p := rfl
  have hparsed : ∀ u ∈ memoHistory, ∀ skill ∈ u.given, skill.Parsed := by
    simp [memoHistory, Usage.given, parsed_noteSkill, parsed_memoSkill]
  obtain ⟨hsubstitutes, forest, hgrows, hunits, hall⟩ :=
    @substituted_once noteSkill memoStep.params p parsed_noteSkill hp memoHistory hparsed
      [memoStep] _ rfl
  obtain ⟨-, htext⟩ := hsubstitutes.filter noteTemplate .video _ rfl (by decide)
    (Template.splits_segments noteTemplate)
  refine ⟨?_, forest, hgrows, ?_, hunits ▸ hall⟩
  · rw [htext]
    decide +kernel
  · rw [← hunits]
    rfl

/-- The document of a skill whose options are nothing but white space. -/
def blankDocument : Value := .object [("name", .string "blank"), ("template", .string " "),
  ("option", .bool true)]

def blankSkill : Skill where
  name := "blank"
  category := .custom
  strategy := .template " " .output
  source := "blank.yaml"

/-- A template without words comes to a token, which is empty. -/
theorem Params.not_token_for_each_word :
    ¬∀ (known : String → Bool) (source : String) (v : Value) (skill : Skill)
      (given : Members Value) (p : Params) (text : String) (c : Contribution),
      (Skill.ofDocument known source v).outcome.1 = .ok skill →
        (Params.normalize skill given).result = .ok p →
          skill.strategy = .template text .output → p.renderTemplate text .output = .ok c →
            c.outputFlags.length = (Text.words text.toList).length := by
  intro h
  have hlength := h (fun _ => true) "blank.yaml" blankDocument blankSkill [] ⟨blankSkill, []⟩ " "
    (.flags [""]) rfl rfl rfl rfl
  cases hlength

end SkillPipeline
