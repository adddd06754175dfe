import SkillPipeline.Proofs.Filter.Exposure
import SkillPipeline.Proofs.Legibility.Catalogue
import SkillPipeline.Proofs.Skill.Normalization
import SkillPipeline.Skill.Definition

namespace SkillPipeline

open Outcome SkillPipeline.Filter

/-- The live characters that separate filters, options and labels. -/
def FilterText.separators (t : FilterText) : List Char :=
  (Reading.outside.live t.chars).filter (· ≠ '\'')

def Contribution.separators (c : Contribution) : List (List Char) :=
  (c.videoFilters ++ c.audioFilters).map (·.separators)

namespace Params

/-- Parameters of a skill that have the same values but for those of text type. -/
def Rephrased (skill : Skill) (p q : Params) : Prop :=
  ∀ name, p.raw? name = q.raw? name ∨
    ∃ spec s t, skill.spec? name = some spec ∧ spec.type = .string ∧
      p.raw? name = some (.text s) ∧ q.raw? name = some (.text t)

/-- The characters that a value puts into a hole. -/
def held (p : Params) (name : String) : List Char :=
  match p.filterPart name >>= FilterText.ofPart with
  | .ok t => t.chars
  | .error _ => []

/-- The characters of some segments with the values in their holes. -/
def filled (p : Params) (segments : List Template.Segment) : List Char :=
  segments.flatMap fun
    | .literal c => [c]
    | .hole name => p.held name

/-- Two texts for one hole do the same to a reader who comes to it. -/
def Suits (p q : Params) (template : String) : Prop :=
  ∀ before name after, Template.segments template = before ++ .hole name :: after →
    ∀ s t, p.raw? name = some (.text s) → q.raw? name = some (.text t) →
      (Reading.outside.after (p.filled before)).exposure s.toList =
        (Reading.outside.after (p.filled before)).exposure t.toList

variable {skill : Skill} {p q : Params} {name template : String}

theorem held_text {s : String} (h : p.raw? name = some (.text s)) :
    p.held name = escapeChars s.toList := by
  rw [held, filterPart, h]
  exact FilterText.chars_escaped s

theorem filterPart_eq (hskill : p.skill = q.skill) (h : p.raw? name = q.raw? name) :
    p.filterPart name = q.filterPart name := by
  rw [filterPart, filterPart, h, hskill]

end Params

namespace Template

variable {p : Params} {values : String → Option FilterText.Part} {segments : List Segment}

/-- A filled template has the characters of its own text and those of the values. -/
theorem fill_eq_filled (hvalues : ∀ name part, values name = some part →
    p.filterPart name = .ok part) :
    Gives (fun t => t.chars = p.filled segments) (fill values segments) := by
  induction segments with
  | nil => exact gives_ok rfl
  | cons segment rest ih =>
    cases segment with
    | literal c =>
      refine ih.bind fun tail htail => gives_ok ?_
      rw [FilterText.chars_append, FilterText.chars_wording, String.toList_singleton, htail]
      rfl
    | hole name =>
      rw [fill]
      split
      · exact gives_error
      · next part hpart =>
        refine gives_bind fun head hhead => ih.bind fun tail htail => gives_ok ?_
        have hheld : p.held name = head.chars := by
          rw [Params.held, hvalues name part hpart, bind_eq_ok.mpr ⟨part, rfl, hhead⟩]
        rw [FilterText.chars_append, htail, ← hheld]
        rfl

def Matched (part part' : FilterText.Part) : Prop :=
  Agree (fun _ _ => True) (FilterText.ofPart part) (FilterText.ofPart part')

theorem matched_refl (part : FilterText.Part) : Matched part part := by
  rw [Matched]
  cases FilterText.ofPart part <;> trivial

theorem agree_fill {values' : String → Option FilterText.Part}
    (h : ∀ name, Option.Rel Matched (values name) (values' name)) :
    Agree (fun _ _ => True) (fill values segments) (fill values' segments) := by
  induction segments with
  | nil => trivial
  | cons segment rest ih =>
    cases segment with
    | literal c =>
      rw [fill, fill]
      exact ih.bind fun tail tail' _ => trivial
    | hole name =>
      have hname := h name
      rw [fill, fill]
      generalize values name = part?, values' name = part?' at hname
      cases hname with
      | none => exact .error
      | some hparts => exact hparts.bind fun head head' _ => ih.bind fun tail tail' _ => trivial

end Template

theorem rel_lookup {α β : Type} {R : α → β → Prop} {l : List (String × α)}
    {r : List (String × β)} (h : List.Forall₂ (fun a b => a.1 = b.1 ∧ R a.2 b.2) l r)
    (key : String) : Option.Rel R (l.lookup key) (r.lookup key) := by
  induction h with
  | nil => exact .none
  | @cons a b l r hfirst hrest ih =>
    rw [List.lookup_cons, List.lookup_cons, ← hfirst.1]
    split
    · exact .some hfirst.2
    · exact ih

namespace Params

variable {skill : Skill} {p q : Params} {template : String}

theorem renderFilter_eq_filled : Gives (fun t => t.chars = p.filled (Template.segments template))
    (p.renderFilter template) := by
  have hentry (name : String) : Gives
      (fun entry : String × FilterText.Part => p.filterPart entry.1 = .ok entry.2)
      (do return (name, ← p.filterPart name)) :=
    gives_bind fun part hpart => gives_ok hpart
  refine (gives_mapM fun name _ => hentry name).bind fun values hvalues => ?_
  refine Template.fill_eq_filled fun name part hpart => ?_
  obtain ⟨before, after, heq, -⟩ := List.lookup_eq_some_iff.mp hpart
  exact hvalues (name, part) (heq ▸ List.mem_append_right _ List.mem_cons_self)

theorem agree_renderFilter (hskill : p.skill = q.skill) (h : Rephrased skill p q) :
    Agree (fun _ _ => True) (p.renderFilter template) (q.renderFilter template) := by
  have hpart (name : String) :
      Agree Template.Matched (p.filterPart name) (q.filterPart name) := by
    obtain heq | ⟨-, s, t, -, -, hs, ht⟩ := h name
    · rw [filterPart_eq hskill heq]
      cases q.filterPart name with
      | error f => exact .error
      | ok part => exact Template.matched_refl part
    · rw [filterPart, filterPart, hs, ht]
      exact .ok trivial
  have hentries := agree_mapM (P := fun a b => a.1 = b.1 ∧ Template.Matched a.2 b.2)
    (List.forall₂_same.mpr fun name _ => Eq.refl name) (l := Template.holes template)
    (f := fun name => do return (name, ← p.filterPart name))
    (g := fun name => do return (name, ← q.filterPart name)) fun name other heq => by
      subst heq
      exact (hpart name).bind fun part part' hparts => .ok ⟨rfl, hparts⟩
  exact hentries.bind fun values values' hvalues =>
    Template.agree_fill fun name => rel_lookup hvalues name

/-- From any place in the template on, a reader of both texts meets the same live characters. -/
theorem readAlike_filled (hskill : p.skill = q.skill) (h : Rephrased skill p q)
    (hsuits : p.Suits q template) {before rest : List Template.Segment}
    (hsegments : Template.segments template = before ++ rest) :
    ∃ r, ReadAlike (Reading.outside.after (p.filled before)) (p.filled rest) (q.filled rest) r := by
  -- On what is left of the template: each segment brings both readers to the same place.
  induction rest generalizing before with
  | nil => exact ⟨_, readAlike_refl rfl⟩
  | cons segment rest ih =>
    have hsplit : Template.segments template = (before ++ [segment]) ++ rest := by
      rw [hsegments, List.append_assoc, List.singleton_append]
    obtain ⟨r, hrest⟩ := ih hsplit
    have hfirst : ReadAlike (Reading.outside.after (p.filled before)) (p.filled [segment])
        (q.filled [segment]) (Reading.outside.after (p.filled (before ++ [segment]))) := by
      rw [filled, filled, filled, filled, List.flatMap_append, Reading.after_append,
        List.flatMap_singleton, List.flatMap_singleton]
      cases segment with
      | literal c => exact readAlike_refl rfl
      | hole name =>
        dsimp only
        obtain heq | ⟨-, s, t, -, -, hs, ht⟩ := h name
        · have hheld : p.held name = q.held name := by
            rw [held, held, filterPart_eq hskill heq]
          rw [hheld]
          exact readAlike_refl rfl
        · rw [held_text hs, held_text ht]
          exact readAlike_of_exposure (hsuits before name rest hsegments s t hs ht)
    refine ⟨r, ?_⟩
    have hcons (o : Params) : o.filled (segment :: rest) = o.filled [segment] ++ o.filled rest := by
      rw [filled, filled, filled, List.flatMap_cons, List.flatMap_singleton]
    rw [hcons, hcons]
    exact hfirst.append hrest

theorem after_held (p : Params) (name : String) :
    Reading.outside.after (p.held name) = .outside := by
  rw [held]
  split
  · next t ht =>
    obtain ⟨part, hpart, ht⟩ := bind_eq_ok.mp ht
    exact closed_filterPart name part hpart t ht
  · rfl

theorem outside_of_after? {name : String} {before rest : List Template.Segment}
    {r r' : Reading} (h : Template.after? r (before ++ .hole name :: rest) = some r') :
    r.after (p.filled before) = .outside := by
  induction before generalizing r with
  | nil =>
    rw [List.nil_append, Template.after?] at h
    split at h
    · next hr => exact hr
    · cases h
  | cons segment before ih =>
    cases segment with
    | literal c => exact ih h
    | hole other =>
      rw [List.cons_append, Template.after?] at h
      split at h
      · next hr =>
        subst hr
        have hfilled : p.filled (.hole other :: before) = p.held other ++ p.filled before := rfl
        rw [hfilled, Reading.after_append, after_held]
        exact ih h
      · cases h

theorem suits_of_after? {r : Reading}
    (h : Template.after? .outside (Template.segments template) = some r) : p.Suits q template := by
  intro before name after hsegments s t _ _
  rw [hsegments] at h
  rw [outside_of_after? h, Reading.exposure, Reading.exposure]

end Params

open Params

variable {skill : Skill} {text : String} {target : Target} {raw raw' : Members Value}
  {s s' : Stage}

/-- Two steps of a template skill that differ in texts have filters with the same separators, if the
texts do the same to a reader who comes to their holes. -/
theorem Assembly.contribution_separators (hskill : skill.strategy = .template text target)
    (htarget : target ≠ .output) (hs : (normalize skill raw).result = .ok s.params)
    (hs' : (normalize skill raw').result = .ok s'.params)
    (hsame : Rephrased skill s.params s'.params) (hsuits : s.params.Suits s'.params text)
    (table : HandlerTable) (view view' : HandlerContext) :
    Agree (fun a b => a.separators = b.separators) (contribution table view s).2
      (contribution table view' s').2 := by
  have hs : s.skill = skill := (normalize_settled hs).1
  have hs' : s'.skill = skill := (normalize_settled hs').1
  have hrendered : Agree (fun t u => t.separators = u.separators)
      (s.params.renderFilter text) (s'.params.renderFilter text) := by
    refine (agree_renderFilter (hs.trans hs'.symm) hsame).mono fun t u ht hu _ => ?_
    obtain ⟨r, hread⟩ := readAlike_filled (hs.trans hs'.symm) hsame hsuits (List.nil_append _).symm
    rw [FilterText.separators, FilterText.separators, renderFilter_eq_filled t ht,
      renderFilter_eq_filled u hu]
    exact congrArg _ hread.live
  have hstrategy : s.skill.strategy = .template text target := hs.symm ▸ hskill
  have hstrategy' : s'.skill.strategy = .template text target := hs'.symm ▸ hskill
  simp only [contribution, hstrategy, hstrategy']
  cases target with
  | output => exact absurd rfl htarget
  | video => exact hrendered.bind fun t u htu => congrArg ([·]) htu
  | audio => exact hrendered.bind fun t u htu => congrArg ([·]) htu

/-- The document of a skill that writes a text over the picture. -/
def captionEntry (template : String) : Value := .record [("name", .string "caption"),
  ("template", .string template),
  ("parameters", .record [("text", .record [("type", .string "string")])])]

def captionSkill (template : String) : Skill where
  name := "caption"
  category := .custom
  parameters := [{ name := "text", type := .string }]
  strategy := .template template .video
  source := "captions.yaml"

def captionStage (template text : String) : Stage :=
  ⟨"s1", ⟨captionSkill template, [("text", .text text)]⟩, 0⟩

/-- What a handler may know where there is nothing but a picture. -/
def captionView : HandlerContext where
  primary := { path := "/in.mp4", fps := 25, width := 640, height := 360, hasAudio := false }
  stillDuration := 4
  files := { workingDir := "/", home := "/", nodes := [] }

theorem normalize_caption (template text : String) :
    (normalize (captionSkill template) [("text", .string text)]).result =
      .ok (captionStage template text).params := rfl

theorem rephrased_caption (template text text' : String) : Rephrased (captionSkill template)
    (captionStage template text).params (captionStage template text').params := by
  intro name
  by_cases hname : name = "text"
  · subst hname
    exact .inr ⟨_, text, text', rfl, rfl, rfl, rfl⟩
  · have hne : (name == "text") = false := beq_false_of_ne hname
    refine .inl ?_
    simp only [captionStage, raw?, List.lookup_cons, hne]

/-- A caption whose text stands outside quotes. -/
def openCaption : String := "drawtext=text=\x7btext\x7d:x=10,hflip"

def quotedCaption : String := "drawtext=text='\x7btext\x7d',hflip"

namespace Assembly

/-- Outside quotes a text may be anything. -/
theorem contribution_separators_open :
    ((contribution .builtin captionView (captionStage openCaption "it's")).2.map
        (·.separators)).toOption = some [[':', ',']] ∧
      Agree (fun a b => a.separators = b.separators)
        (contribution .builtin captionView (captionStage openCaption "it's")).2
        (contribution .builtin captionView (captionStage openCaption "],'[a]:b;\\")).2 := by
  have hopen : Template.after? .outside (Template.segments openCaption) = some .outside := by
    decide +kernel
  exact ⟨by decide +kernel, contribution_separators rfl (by decide) (normalize_caption _ _)
    (normalize_caption _ _) (rephrased_caption _ _ _) (suits_of_after? hopen) _ _ _⟩

/-- In a section an apostrophe ends the section, and the comma after it no longer separates two
filters. -/
theorem not_separators_quoted :
    ¬∀ (known : String → Bool) (source : String) (v : Value) (skill : Skill) (text : String)
      (target : Target) (raw raw' : Members Value) (s s' : Stage),
      (Skill.ofDocument known source v).outcome.1 = .ok skill →
        skill.strategy = .template text target → target ≠ .output →
          (normalize skill raw).result = .ok s.params →
            (normalize skill raw').result = .ok s'.params →
              Rephrased skill s.params s'.params →
                Agree (fun a b => a.separators = b.separators)
                  (contribution .builtin captionView s).2
                  (contribution .builtin captionView s').2 := by
  intro h
  have hagree := h (fun _ => false) "captions.yaml" (captionEntry quotedCaption)
    (captionSkill quotedCaption) quotedCaption .video _ _ (captionStage quotedCaption "its")
    (captionStage quotedCaption "it's") rfl rfl (by decide) (normalize_caption _ _)
    (normalize_caption _ _) (rephrased_caption _ _ _)
  -- With the apostrophe the comma of the template stands in a section and is live no more.
  have hplain : ((contribution .builtin captionView (captionStage quotedCaption "its")).2.map
      (·.separators)).toOption = some [[',']] := by decide +kernel
  have hapostrophe : ((contribution .builtin captionView
      (captionStage quotedCaption "it's")).2.map (·.separators)).toOption = some [[]] := by
    decide +kernel
  obtain ⟨a, ha, hcomma⟩ := map_toOption_eq_some.mp hplain
  obtain ⟨b, hb, hnone⟩ := map_toOption_eq_some.mp hapostrophe
  have hseparators := hagree.of_ok ha hb
  rw [hcomma, hnone] at hseparators
  cases hseparators

end Assembly

end SkillPipeline
