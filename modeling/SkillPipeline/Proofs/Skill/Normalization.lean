import SkillPipeline.Proofs.Document.Members
import SkillPipeline.Skill.Normalization

namespace SkillPipeline

namespace ParameterSpec

/-- Whether every step that passes has a value of the parameter. -/
def settled (spec : ParameterSpec) : Bool := spec.required || spec.default?.isSome

/-- A parameter that is found again as it was left: its type is one of those that are checked, and
if it may be left out, nothing is inherited under its name. -/
def isSteady (spec : ParameterSpec) : Bool :=
  spec.type.isKnown && (spec.settled || (Inherited.find? spec.name).isNone)

/-- A value that the parameter takes: its default, or a given value in the form of its type. -/
def Takes (spec : ParameterSpec) (v : ParamValue) : Prop :=
  spec.default? = some v ∨ ∃ given, spec.fit given = .ok v

end ParameterSpec

namespace Params

variable {skill : Skill} {raw raw' : Record} {values : List (String × ParamValue)}
  {spec : ParameterSpec} {seen specs : List ParameterSpec} {p : Progress} {given : Members Value}

def meant? (skill : Skill) (key : String) : Option String :=
  if isParameter skill key then some key else (aliased? skill key).map (·.name)

theorem isParameter_name (h : spec ∈ skill.parameters) : isParameter skill spec.name = true :=
  List.any_eq_true.mpr ⟨spec, h, beq_self_eq_true _⟩

theorem meant?_name (h : spec ∈ skill.parameters) : meant? skill spec.name = some spec.name := by
  rw [meant?, if_pos (isParameter_name h)]

theorem mem_of_aliased? {key : String} (h : aliased? skill key = some spec) :
    spec ∈ skill.parameters :=
  List.mem_reverse.mp (List.mem_of_find?_eq_some h)

/-- A key that is no parameter's own name gives its value to the parameter that it stands for. -/
theorem renameKey_cases {key : String} (h : renameKey skill raw key = .ok raw') :
    (isParameter skill key = true ∧ raw' = raw) ∨
      ∃ spec ∈ skill.parameters, meant? skill key = some spec.name ∧
        raw' = (raw.assign spec.name ((raw.own.get? key).getD .absent)).erase key := by
  rw [renameKey] at h
  split at h
  · next hparameter =>
    cases h
    exact .inl ⟨hparameter, rfl⟩
  · next hparameter =>
    split at h
    · cases h
    · next spec hspec =>
      split at h
      · cases h
      · cases h
        refine .inr ⟨spec, mem_of_aliased? hspec, ?_, rfl⟩
        rw [meant?, if_neg hparameter, hspec, Option.map_some]

/-- If no parameter has the key of the parent for its name, renaming changes own members alone. -/
theorem renameKey_named {key : String}
    (hnamed : ∀ spec ∈ skill.parameters, spec.name ≠ Inherited.parentKey)
    (h : renameKey skill raw key = .ok raw') :
    (isParameter skill key = true ∧ raw' = raw) ∨
      ∃ spec ∈ skill.parameters, meant? skill key = some spec.name ∧
        raw' = { raw with own :=
          (raw.own.set spec.name ((raw.own.get? key).getD .absent)).erase key } := by
  obtain hsame | ⟨spec, hspec, hmeant, rfl⟩ := renameKey_cases h
  · exact .inl hsame
  · refine .inr ⟨spec, hspec, hmeant, ?_⟩
    rw [Record.assign_of_ne (hnamed spec hspec)]
    rfl

theorem mem_put {name : String} {value : ParamValue} {entry : String × ParamValue}
    (h : entry ∈ put values name value) : entry = (name, value) ∨ entry ∈ values := by
  rw [put] at h
  split at h
  · obtain ⟨old, hold, heq⟩ := List.mem_map.mp h
    split at heq
    · exact .inl heq.symm
    · exact .inr (heq ▸ hold)
  · obtain hold | hnew := List.mem_append.mp h
    · exact .inr hold
    · exact .inl (List.mem_singleton.mp hnew)

theorem names_put {name : String} {value : ParamValue} :
    (put values name value).map (·.1) =
      if name ∈ values.map (·.1) then values.map (·.1) else values.map (·.1) ++ [name] := by
  have hany : values.any (·.1 == name) = true ↔ name ∈ values.map (·.1) := by
    simp [List.any_eq_true]
  rw [put]
  by_cases h : name ∈ values.map (·.1)
  · rw [if_pos (hany.mpr h), if_pos h, List.map_map]
    refine List.map_congr_left fun entry _ => ?_
    rw [Function.comp_apply]
    split
    · next heq => exact (beq_iff_eq.mp heq).symm
    · rfl
  · rw [if_neg (mt hany.mp h), if_neg h, List.map_append]
    rfl

theorem mem_names_put {name other : String} {value : ParamValue} :
    other ∈ (put values name value).map (·.1) ↔ other ∈ values.map (·.1) ∨ other = name := by
  rw [names_put]
  split
  · next h =>
    constructor
    · exact .inl
    · rintro (hother | rfl)
      · exact hother
      · exact h
  · rw [List.mem_append, List.mem_singleton]

inductive Stops : Fault → Prop
  | request (cause : ValidationFault) : Stops (.validation cause)
  | noText : Stops (.exception .noText)

/-- One declared parameter takes a value, is left out where it may be, or is at fault. -/
theorem Progress.step_cases (skill : Skill) (p : Progress) (spec : ParameterSpec) :
    (∃ v, spec.Takes v ∧ (p.step skill spec).raw = p.raw.assign spec.name v.document ∧
        (p.step skill spec).values = put p.values spec.name v ∧
        (p.step skill spec).fault? = p.fault?) ∨
      (spec.settled = false ∧ (p.step skill spec).raw = p.raw.erase spec.name ∧
        (p.step skill spec).values = p.values ∧ (p.step skill spec).fault? = p.fault?) ∨
      ((p.step skill spec).raw = p.raw ∧ ∃ f, Stops f ∧ (p.step skill spec).fault? = some f) := by
  rw [Progress.step]
  split
  · split
    · next d hd => exact .inl ⟨d, .inl hd, rfl, rfl, rfl⟩
    · next hd =>
      split
      · exact .inr (.inr ⟨rfl, _, .request _, rfl⟩)
      · next hr => exact .inr (.inl ⟨by simp [ParameterSpec.settled, hr, hd], rfl, rfl, rfl⟩)
  · next v hv =>
    rw [ParameterSpec.validate, ParameterSpec.check]
    cases spec.isUnreadable v with
    | true => exact .inr (.inr ⟨rfl, _, .noText, rfl⟩)
    | false =>
      cases hfit : spec.fit v with
      | error why => exact .inr (.inr ⟨rfl, _, .request _, rfl⟩)
      | ok w => exact .inl ⟨w, .inr ⟨v, hfit⟩, rfl, rfl, rfl⟩

theorem replacedBy_document (parent : Parent) (w : ParamValue) :
    parent.replacedBy w.document = parent := by
  cases w <;> rfl

theorem Progress.parent_step : (p.step skill spec).raw.parent = p.raw.parent := by
  obtain ⟨v, -, hraw, -⟩ | ⟨-, hraw, -⟩ | ⟨hraw, -⟩ := p.step_cases skill spec
  · rw [hraw, Record.parent_assign (replacedBy_document _ _)]
  · rw [hraw]
    rfl
  · rw [hraw]

/-- Members that all have a plain text, and a fault, if any, that is not for want of one. -/
structure Progress.Worded (p : Progress) : Prop where
  parent : p.raw.parent = .common
  texts : ∀ entry ∈ p.raw.own, entry.2.hasText = true
  fault : p.fault? ≠ some (.exception .noText)

theorem Progress.Worded.step (h : p.Worded) (hname : spec.name ≠ Inherited.parentKey) :
    (p.step skill spec).Worded := by
  have hdocument (v : ParamValue) : v.document.hasText = true := by cases v <;> rfl
  -- What is read is an own member or an inherited one, and these have a plain text.
  have hread {v : Value} (hv : p.raw.read spec.name = some v) : v.hasText = true := by
    obtain ⟨hown, -⟩ | ⟨-, m, -, rfl⟩ := Record.read_eq_some h.parent hv
    · exact h.texts _ (Members.mem_of_get? hown)
    · cases m <;> rfl
  have hset (v : ParamValue) (notices : List Notice) :
      Worded { p.set spec.name v with notices } := by
    refine ⟨?_, fun entry hentry => ?_, h.fault⟩
    · exact (Record.parent_assign (replacedBy_document _ _)).trans h.parent
    · change entry ∈ (p.raw.assign spec.name v.document).own at hentry
      rw [Record.assign_of_ne hname] at hentry
      obtain rfl | ⟨-, hold⟩ := Members.mem_set.mp hentry
      · exact hdocument v
      · exact h.texts entry hold
  rw [Progress.step]
  split
  · split
    · exact hset _ _
    · split
      · exact ⟨h.parent, h.texts, nofun⟩
      · exact ⟨h.parent, fun entry hentry => h.texts entry (Members.mem_erase.mp hentry).2, h.fault⟩
  · next v hv =>
    have hreadable : spec.isUnreadable v = false := by
      rw [ParameterSpec.isUnreadable, hread hv, Bool.not_true, Bool.and_false]
    rw [ParameterSpec.validate, hreadable, if_neg Bool.false_ne_true]
    cases spec.check skill.name v with
    | error f => exact ⟨h.parent, h.texts, nofun⟩
    | ok checked => exact hset _ _

theorem Progress.Worded.steps (h : p.Worded)
    (hnamed : ∀ spec ∈ specs, spec.name ≠ Inherited.parentKey) : (p.steps skill specs).Worded := by
  induction specs generalizing p with
  | nil => exact h
  | cons spec rest ih =>
    obtain ⟨hspec, hrest⟩ := List.forall_mem_cons.mp hnamed
    rw [Progress.steps]
    split
    · exact h
    · exact ih (h.step hspec) hrest

theorem Progress.steps_of_fault {f : Fault} (h : p.fault? = some f) : p.steps skill specs = p := by
  cases specs with
  | nil => rfl
  | cons spec rest => simp only [steps, h]

theorem Progress.fault?_step_of_steps
    (h : ((p.step skill spec).steps skill specs).fault? = none) :
    (p.step skill spec).fault? = none := by
  cases hf : (p.step skill spec).fault? with
  | none => rfl
  | some f =>
    rw [steps_of_fault hf, hf] at h
    cases h

/-- The values found so far belong to the parameters that have been seen. -/
structure Progress.Keeps (p : Progress) (seen : List ParameterSpec) : Prop where
  taken : ∀ entry ∈ p.values, ∃ spec ∈ seen, spec.name = entry.1 ∧ spec.Takes entry.2
  settled : ∀ spec ∈ seen, spec.settled = true → spec.name ∈ p.values.map (·.1)

theorem Progress.Keeps.put {q : Progress} {value : ParamValue} (h : p.Keeps seen)
    (hvalue : spec.Takes value) (hvalues : q.values = Params.put p.values spec.name value) :
    q.Keeps (seen ++ [spec]) := by
  refine ⟨fun entry hentry => ?_, fun other hother hsettled => ?_⟩
  · obtain rfl | hold := mem_put (hvalues ▸ hentry)
    · exact ⟨spec, List.mem_append_right _ (List.mem_singleton_self spec), rfl, hvalue⟩
    · obtain ⟨other, hother, hname⟩ := h.taken entry hold
      exact ⟨other, List.mem_append_left _ hother, hname⟩
  · rw [hvalues, mem_names_put]
    obtain hold | hnew := List.mem_append.mp hother
    · exact .inl (h.settled other hold hsettled)
    · exact .inr (congrArg _ (List.mem_singleton.mp hnew))

theorem Progress.Keeps.skip {q : Progress} (h : p.Keeps seen) (hspec : spec.settled = false)
    (hvalues : q.values = p.values) : q.Keeps (seen ++ [spec]) := by
  refine ⟨fun entry hentry => ?_, fun other hother hsettled => ?_⟩
  · obtain ⟨other, hother, hname⟩ := h.taken entry (hvalues ▸ hentry)
    exact ⟨other, List.mem_append_left _ hother, hname⟩
  · rw [hvalues]
    obtain hold | hnew := List.mem_append.mp hother
    · exact h.settled other hold hsettled
    · rw [List.mem_singleton.mp hnew, hspec] at hsettled
      cases hsettled

/-- After all parameters in turn either each has what it promises, or there is a fault. -/
theorem Progress.Keeps.steps (h : p.Keeps seen) (hp : p.fault? = none) :
    ((p.steps skill specs).fault? = none ∧ (p.steps skill specs).Keeps (seen ++ specs)) ∨
      ∃ f, Stops f ∧ (p.steps skill specs).fault? = some f := by
  -- On the parameters that are left.
  induction specs generalizing p seen with
  | nil => exact .inl ⟨hp, by rwa [List.append_nil]⟩
  | cons spec rest ih =>
    simp only [Progress.steps, hp]
    rw [List.append_cons]
    obtain ⟨v, hv, -, hvalues, hfault⟩ | ⟨hspec, -, hvalues, hfault⟩ | ⟨-, f, hf, hfault⟩ :=
      p.step_cases skill spec
    · exact ih (h.put hv hvalues) (hfault.trans hp)
    · exact ih (h.skip hspec hvalues) (hfault.trans hp)
    · refine .inr ⟨f, hf, ?_⟩
      rw [Progress.steps_of_fault hfault, hfault]

theorem renameKeys_fault {keys : List String} {f : Fault}
    (h : (renameKeys skill raw keys).2 = some f) : ∃ cause, f = .validation cause := by
  induction keys generalizing raw with
  | nil => cases h
  | cons key rest ih =>
    rw [renameKeys] at h
    split at h
    · exact ih h
    · next hkey =>
      cases h
      rw [renameKey] at hkey
      split at hkey
      · cases hkey
      · split at hkey
        · cases hkey
          exact ⟨_, rfl⟩
        · split at hkey
          · cases hkey
            exact ⟨_, rfl⟩
          · cases hkey

/-- Keys that are renamed keep their values, so these still have a plain text. -/
theorem renameKeys_worded {keys : List String} {fault? : Option Fault}
    (hnamed : ∀ spec ∈ skill.parameters, spec.name ≠ Inherited.parentKey)
    (hparent : raw.parent = .common) (htexts : ∀ entry ∈ raw.own, entry.2.hasText = true)
    (h : renameKeys skill raw keys = (raw', fault?)) :
    raw'.parent = .common ∧ ∀ entry ∈ raw'.own, entry.2.hasText = true := by
  induction keys generalizing raw with
  | nil =>
    cases h
    exact ⟨hparent, htexts⟩
  | cons key rest ih =>
    rw [renameKeys] at h
    split at h
    · next hkey =>
      obtain ⟨-, rfl⟩ | ⟨spec, -, -, rfl⟩ := renameKey_named hnamed hkey
      · exact ih hparent htexts h
      · refine ih ?_ (fun entry hentry => ?_) h
        · exact hparent
        obtain rfl | ⟨-, hold⟩ := Members.mem_set.mp (Members.mem_erase.mp hentry).2
        · cases hvalue : raw.own.get? key with
          | none => rfl
          | some v => exact htexts (key, v) (Members.mem_of_get? hvalue)
        · exact htexts entry hold
    · cases h
      exact ⟨hparent, htexts⟩

theorem progress_keeps (skill : Skill) (given : Members Value) :
    ((progress skill given).fault? = none ∧ (progress skill given).Keeps skill.parameters) ∨
      ∃ f, Stops f ∧ (progress skill given).fault? = some f := by
  rw [progress]
  split
  · next raw f hrename =>
    obtain ⟨cause, rfl⟩ := renameKeys_fault (congrArg Prod.snd hrename)
    exact .inr ⟨_, .request cause, rfl⟩
  · have hstart (raw : Record) : Progress.Keeps { raw } [] :=
      ⟨fun _ hentry => (nomatch hentry), fun _ hspec => (nomatch hspec)⟩
    exact (hstart _).steps rfl

/-- Normalising that succeeds renames all keys and settles all declared parameters. -/
theorem normalize_eq_ok {p : Params} (h : (normalize skill given).result = .ok p) :
    ∃ renamed q, renameKeys skill { own := given } given.keys = (renamed, none) ∧
      Progress.steps skill { raw := renamed } skill.parameters = q ∧ q.fault? = none ∧
      (normalize skill given).raw = q.raw.own ∧ p = ⟨skill, q.values⟩ := by
  rw [normalize] at h ⊢
  dsimp only at h ⊢
  cases hfault : (progress skill given).fault? with
  | some f =>
    rw [hfault] at h
    cases h
  | none =>
    rw [hfault] at h
    rw [progress] at h hfault ⊢
    split at hfault
    · cases hfault
    · next renamed hrename =>
      rw [hrename] at h
      exact ⟨renamed, _, hrename, rfl, hfault, rfl, (Except.ok.inj h).symm⟩

theorem raw?_eq_some {p : Params} {name : String} {v : ParamValue} :
    p.raw? name = some v ↔ p.values.lookup name = some v ∧ v.isSet = true := by
  rw [raw?, Option.filter_eq_some_iff]

/-- Parameters in which each declared one has what it promises. -/
structure Settled (p : Params) : Prop where
  taken : ∀ name v, p.values.lookup name = some v →
    ∃ spec ∈ p.skill.parameters, spec.name = name ∧ spec.Takes v
  settled : ∀ spec ∈ p.skill.parameters, spec.settled = true → p.has spec.name = true

theorem normalize_settled {p : Params} (h : (normalize skill given).result = .ok p) :
    p.skill = skill ∧ p.Settled := by
  rw [normalize] at h
  dsimp only at h
  obtain ⟨hnone, hkeeps⟩ | ⟨f, -, hfault⟩ := progress_keeps skill given
  · rw [hnone] at h
    cases h
    refine ⟨rfl, fun name v hv => ?_, fun spec hspec hsettled => ?_⟩
    · obtain ⟨before, after, hvalues, -⟩ := List.lookup_eq_some_iff.mp hv
      have heq : (progress skill given).values = before ++ (name, v) :: after := hvalues
      refine hkeeps.taken (name, v) ?_
      rw [heq]
      exact List.mem_append_right _ List.mem_cons_self
    · obtain ⟨entry, hentry, hname⟩ := List.mem_map.mp (hkeeps.settled spec hspec hsettled)
      exact List.lookup_isSome_iff.mpr ⟨entry, hentry, beq_iff_eq.mpr hname.symm⟩
  · rw [hfault] at h
    cases h

theorem normalize_fault {f : Fault} (h : (normalize skill given).result = .error f) : Stops f := by
  rw [normalize] at h
  dsimp only at h
  obtain ⟨hnone, -⟩ | ⟨g, hg, hfault⟩ := progress_keeps skill given
  · rw [hnone] at h
    cases h
  · rw [hfault] at h
    cases h
    exact hg

theorem exists_of_normalize_noText
    (hnamed : ∀ spec ∈ skill.parameters, spec.name ≠ Inherited.parentKey)
    (h : (normalize skill given).result = .error (.exception .noText)) :
    ∃ entry ∈ given, entry.2.hasText = false := by
  -- If all given values have a plain text, renaming and every step keep it so.
  by_contra hnone
  have htexts : ∀ entry ∈ given, entry.2.hasText = true := fun entry hentry =>
    Bool.of_not_eq_false fun hfalse => hnone ⟨entry, hentry, hfalse⟩
  have hcommon : ({ own := given } : Record).parent = .common := rfl
  have hworded : (progress skill given).Worded := by
    rw [progress]
    split
    · next hrename =>
      obtain ⟨cause, rfl⟩ := renameKeys_fault (congrArg Prod.snd hrename)
      obtain ⟨hparent, hkept⟩ := renameKeys_worded hnamed hcommon htexts hrename
      exact ⟨hparent, hkept, nofun⟩
    · next hrename =>
      obtain ⟨hparent, hkept⟩ := renameKeys_worded hnamed hcommon htexts hrename
      exact Progress.Worded.steps ⟨hparent, hkept, nofun⟩ hnamed
  rw [normalize] at h
  dsimp only at h
  cases hfault : (progress skill given).fault? with
  | none =>
    rw [hfault] at h
    cases h
  | some f =>
    rw [hfault] at h
    obtain rfl := Except.error.inj h
    exact hworded.fault hfault

end Params

end SkillPipeline
