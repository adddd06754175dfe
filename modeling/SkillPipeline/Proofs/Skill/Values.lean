import SkillPipeline.Proofs.Number.Order
import SkillPipeline.Proofs.Skill.Coherence
import SkillPipeline.Proofs.Skill.Settlement

namespace SkillPipeline

open Number

namespace Number

theorem notNaN_of_isFinite {x : Float} (h : x.isFinite = true) : x.isNaN = false := by
  change x.toModel.unpack.isFinite = true at h
  change x.toModel.unpack.isNaN = false
  cases hx : x.toModel.unpack with
  | notANumber => rw [hx] at h; cases h
  | _ => rfl

theorem notNegative_toFloat (d : Decimal) : NotNegative d.toFloat := by
  rw [Decimal.toFloat]
  dsimp only
  split
  · exact .zero _
  · split
    · have hinfinite : (1 / 0 : Float).toModel.unpack = .infinity .positive := rfl
      rw [NotNegative, hinfinite]
      exact .infinity
    · split
      · exact .zero _
      · exact notNegative_ofScientific _ _ _

end Number

namespace TimeText

variable {t : TimeText} {s : String} {n : Float}

theorem notNegative_of_seconds? (h : t.seconds? = some n) : NotNegative n := by
  cases t with
  | plain digits places =>
    rw [seconds?] at h
    cases h
    exact notNegative_toFloat _
  | clock hours minutes digits places =>
    simp only [seconds?] at h
    split at h
    · cases h
      have hhours : NotNegative (Float.ofNat hours) := notNegative_ofScientific _ _ _
      have hminutes : NotNegative (Float.ofNat minutes) := notNegative_ofScientific _ _ _
      have hhour : isPositive (Float.ofNat 3600) = true := by decide
      have hminute : isPositive (Float.ofNat 60) = true := by decide
      exact ((hhours.mul hhour).add (hminutes.mul hminute)).add (notNegative_toFloat _)
    · cases h

theorem notNegative_of_parse (h : parse Float s = some n) : NotNegative n := by
  obtain ⟨t, -, hseconds⟩ := Option.bind_eq_some_iff.mp h
  exact notNegative_of_seconds? hseconds

end TimeText

namespace ParameterSpec

variable {spec : ParameterSpec} {n : Float} {w : ParamValue}

structure Within (spec : ParameterSpec) (n : Float) : Prop where
  least : ∀ bound, spec.min? = some bound → bound ≤ n
  most : ∀ bound, spec.max? = some bound → n ≤ bound

theorem checkBounds_eq_ok : spec.checkBounds n = .ok () ↔
    (∀ bound, spec.min? = some bound → ¬n < bound) ∧
      ∀ bound, spec.max? = some bound → ¬n > bound := by
  have hupper (most? : Option Float) : checkBounds.upper n most? = .ok () ↔
      ∀ bound, most? = some bound → ¬n > bound := by
    cases most? <;> simp [checkBounds.upper]
  rw [checkBounds]
  cases spec.min? with
  | none => simp [hupper]
  | some least => by_cases h : n < least <;> simp [hupper, h]

theorem Coherent.within (hspec : spec.Coherent) (hn : n.isNaN = false)
    (h : spec.checkBounds n = .ok ()) : spec.Within n := by
  obtain ⟨hleast, hmost⟩ := checkBounds_eq_ok.mp h
  refine ⟨fun bound hbound => ?_, fun bound hbound => ?_⟩
  · exact le_of_not_lt hn (hspec.bounds bound (.inl hbound)) (hleast bound hbound)
  · exact le_of_not_lt (hspec.bounds bound (.inr hbound)) hn (hmost bound hbound)

end ParameterSpec

end SkillPipeline

namespace SkillPipeline.Params

variable {skill : Skill} {raw : Members Value} {r r' : Record} {spec : ParameterSpec}
  {key name : String} {specs : List ParameterSpec} {p : Progress}

def Withheld (skill : Skill) (raw : Members Value) (name : String) : Prop :=
  ∀ entry ∈ raw, meant? skill entry.1 = some name → entry.2.isMissing = true

namespace Withheld

theorem get? (h : Withheld skill raw name) (hkey : meant? skill key = some name) :
    ((raw.get? key).getD .absent).isMissing = true := by
  cases hvalue : raw.get? key with
  | none => rfl
  | some v => exact h _ (Members.mem_of_get? hvalue) hkey

theorem renameKey (hnamed : ∀ spec ∈ skill.parameters, spec.name ≠ Inherited.parentKey)
    (h : Withheld skill r.own name) (hkey : renameKey skill r key = .ok r') :
    Withheld skill r'.own name ∧ r'.parent = r.parent := by
  obtain ⟨-, rfl⟩ | ⟨spec, hspec, hmeant, rfl⟩ := renameKey_named hnamed hkey
  · exact ⟨h, rfl⟩
  · refine ⟨fun entry hentry hname => ?_, rfl⟩
    obtain ⟨-, hset⟩ := Members.mem_erase.mp hentry
    obtain rfl | ⟨-, hold⟩ := Members.mem_set.mp hset
    · refine h.get? ?_
      rw [hmeant, ← meant?_name hspec]
      exact hname
    · exact h entry hold hname

theorem renameKeys {keys : List String}
    (hnamed : ∀ spec ∈ skill.parameters, spec.name ≠ Inherited.parentKey)
    (h : Withheld skill r.own name) (hkeys : renameKeys skill r keys = (r', none)) :
    Withheld skill r'.own name ∧ r'.parent = r.parent := by
  induction keys generalizing r with
  | nil =>
    cases hkeys
    exact ⟨h, rfl⟩
  | cons key rest ih =>
    rw [Params.renameKeys] at hkeys
    split at hkeys
    · next hkey =>
      obtain ⟨hnext, hparent⟩ := h.renameKey hnamed hkey
      obtain ⟨hend, hparent'⟩ := ih hnext hkeys
      exact ⟨hend, hparent'.trans hparent⟩
    · cases hkeys

end Withheld

namespace Progress

theorem get?_step_of_ne (hspec : spec.name ≠ Inherited.parentKey) (h : name ≠ spec.name) :
    (p.step skill spec).raw.own.get? name = p.raw.own.get? name := by
  obtain ⟨w, -, hraw, -⟩ | ⟨-, hraw, -⟩ | ⟨hraw, -⟩ := p.step_cases skill spec
  · rw [hraw, Record.assign_of_ne hspec, Members.get?_set, if_neg h]
  · rw [hraw, Record.erase, Members.get?_erase, if_neg h]
  · rw [hraw]

theorem get?_steps_of_notMem (hspecs : ∀ spec ∈ specs, spec.name ≠ Inherited.parentKey)
    (h : name ∉ specs.map (·.name)) :
    (p.steps skill specs).raw.own.get? name = p.raw.own.get? name := by
  induction specs generalizing p with
  | nil => rfl
  | cons spec rest ih =>
    obtain ⟨hspec, hothers⟩ := List.forall_mem_cons.mp hspecs
    obtain ⟨hne, hrest⟩ := not_or.mp (mt List.mem_cons.mpr h)
    cases hfault : p.fault? with
    | some f => rw [steps_of_fault hfault]
    | none =>
      simp only [steps, hfault]
      rw [ih hothers hrest, get?_step_of_ne hspec hne]

/-- Nothing is read of a parameter that is missing, for what is inherited under its name would not
pass the check. -/
theorem read_of_missing (hknown : spec.type.isKnown = true) (hparent : p.raw.parent = .common)
    (h : ((p.raw.own.get? spec.name).getD .absent).isMissing = true)
    (hfault : (p.step skill spec).fault? = none) : p.raw.read spec.name = none := by
  cases hread : p.raw.read spec.name with
  | none => rfl
  | some v =>
    obtain ⟨hown, hpresent⟩ | ⟨-, m, -, rfl⟩ := Record.read_eq_some hparent hread
    · rw [hown, Option.getD_some, hpresent] at h
      cases h
    · rw [step, hread] at hfault
      dsimp only at hfault
      split at hfault
      · cases hfault
      · next hvalid =>
        exact absurd (ParameterSpec.fit_of_validate hvalid) (ParameterSpec.fit_inherited hknown m)

theorem get?_step_of_missing (hname : spec.name ≠ Inherited.parentKey)
    (hread : p.raw.read spec.name = none) (hfault : (p.step skill spec).fault? = none) :
    (p.step skill spec).raw.own.get? spec.name = spec.default?.map ParamValue.document := by
  rw [step, hread] at hfault ⊢
  dsimp only at hfault ⊢
  cases hd : spec.default? with
  | some d =>
    dsimp only
    rw [set, Record.assign_of_ne hname, Members.get?_set, if_pos rfl, Option.map_some]
  | none =>
    rw [hd] at hfault
    dsimp only at hfault ⊢
    split at hfault
    · cases hfault
    · next hoptional =>
      rw [if_neg hoptional, Record.erase, Members.get?_erase, if_pos rfl, Option.map_none]

theorem get?_steps_of_missing (hspec : spec ∈ specs) (hknown : spec.type.isKnown = true)
    (hspecs : ∀ spec ∈ specs, spec.name ≠ Inherited.parentKey)
    (hdistinct : (specs.map (·.name)).Nodup) (hparent : p.raw.parent = .common)
    (h : ((p.raw.own.get? spec.name).getD .absent).isMissing = true) (hp : p.fault? = none)
    (hfault : (p.steps skill specs).fault? = none) :
    (p.steps skill specs).raw.own.get? spec.name = spec.default?.map ParamValue.document := by
  -- The parameters before it leave its member alone, and so do those after it.
  induction specs generalizing p with
  | nil => cases hspec
  | cons other rest ih =>
    obtain ⟨hnew, hrest⟩ := List.nodup_cons.mp hdistinct
    change other.name ∉ rest.map (·.name) at hnew
    obtain ⟨hother, hothers⟩ := List.forall_mem_cons.mp hspecs
    simp only [steps, hp] at hfault ⊢
    have hstep := fault?_step_of_steps hfault
    obtain rfl | hspec := List.mem_cons.mp hspec
    · rw [get?_steps_of_notMem hothers hnew]
      exact get?_step_of_missing hother (read_of_missing hknown hparent h hstep) hstep
    · have hne : spec.name ≠ other.name := fun heq => hnew (heq ▸ List.mem_map_of_mem hspec)
      refine ih hspec hothers hrest (parent_step.trans hparent) ?_ hstep hfault
      rwa [get?_step_of_ne hother hne]

end Progress

theorem raw?_of_withheld {p : Params} (hcoherent : skill.Coherent)
    (h : (normalize skill raw).result = .ok p) (hspec : spec ∈ skill.parameters)
    (hknown : spec.type.isKnown = true) (hwithheld : Withheld skill raw spec.name) :
    p.raw? spec.name = spec.default? := by
  obtain ⟨renamed, _, hrename, rfl, hfault, hraw, -⟩ := normalize_eq_ok h
  obtain ⟨hkept, hparent⟩ := Withheld.renameKeys hcoherent.named hwithheld hrename
  have hmember := Progress.get?_steps_of_missing hspec hknown hcoherent.named hcoherent.distinct
    hparent (hkept.get? (meant?_name hspec)) rfl hfault
  obtain ⟨-, rfl⟩ := normal_of_normalize hcoherent h
  rw [raw?, lookup_entriesIn hcoherent.distinct hspec, hraw, hmember]
  cases hd : spec.default? with
  | none => rfl
  | some d =>
    have hset : d.isSet = true := ((hcoherent.parameters spec hspec).default d hd).isSet hknown
    rw [Option.map_some, Option.bind_some, ofMember?_document, Option.filter_some, if_pos hset]

end SkillPipeline.Params

namespace SkillPipeline.Params

open Number ParameterSpec

variable {skill : Skill} {raw : Members Value} {spec : ParameterSpec} {specs : List ParameterSpec}
  {p : Params} {w : ParamValue}

def members (p : Params) : Members Value := p.values.map fun entry => (entry.1, entry.2.document)

theorem names_sublist_of_normalize (hcoherent : skill.Coherent)
    (h : (normalize skill raw).result = .ok p) :
    (p.values.map (·.1)).Sublist (skill.parameters.map (·.name)) := by
  obtain ⟨-, rfl⟩ := normal_of_normalize hcoherent h
  exact names_entriesIn_sublist

theorem mem_members_iff (hcoherent : skill.Coherent) (h : (normalize skill raw).result = .ok p)
    (entry : String × Value) : entry ∈ (normalize skill raw).raw ↔ entry ∈ p.members := by
  obtain ⟨hnormal, rfl⟩ := normal_of_normalize hcoherent h
  obtain ⟨name, v⟩ := entry
  rw [members, List.mem_map]
  constructor
  · intro hentry
    obtain ⟨spec, hspec, hname⟩ := List.any_eq_true.mp (hnormal.declared _ hentry)
    obtain rfl : spec.name = name := beq_iff_eq.mp hname
    cases hnormal.standing spec hspec with
    | @value w form member sole =>
      obtain rfl := sole v hentry
      exact ⟨(spec.name, w), List.mem_filterMap.mpr ⟨spec, hspec, entryIn?_of_get? member⟩, rfl⟩
    | nothing absent unsettled => exact absurd absent (Members.get?_ne_none_of_mem hentry)
  · rintro ⟨entry, hentry, heq⟩
    obtain ⟨spec, hspec, hin⟩ := List.mem_filterMap.mp hentry
    cases hnormal.standing spec hspec with
    | @value w form member sole =>
      rw [entryIn?_of_get? member] at hin
      cases hin
      exact heq ▸ Members.mem_of_get? member
    | nothing absent unsettled =>
      rw [entryIn?_of_absent absent] at hin
      cases hin

theorem form_of_lookup (hcoherent : skill.Coherent) (h : (normalize skill raw).result = .ok p)
    (hspec : spec ∈ skill.parameters) (hw : p.values.lookup spec.name = some w) : spec.Form w := by
  obtain ⟨hnormal, rfl⟩ := normal_of_normalize hcoherent h
  rw [lookup_entriesIn hcoherent.distinct hspec] at hw
  cases hnormal.standing spec hspec with
  | value form member sole =>
    rw [member, Option.bind_some, ofMember?_document] at hw
    exact Option.some.inj hw ▸ form
  | nothing absent unsettled =>
    rw [absent] at hw
    cases hw

theorem form_of_normalize (hcoherent : skill.Coherent) (h : (normalize skill raw).result = .ok p)
    (hspec : spec ∈ skill.parameters) (hw : p.raw? spec.name = some w) : spec.Form w :=
  form_of_lookup hcoherent h hspec (raw?_eq_some.mp hw).1

/-- A parameter of a type that values are checked against has a value if it is there. -/
theorem raw?_of_has (hcoherent : skill.Coherent) (h : (normalize skill raw).result = .ok p)
    (hspec : spec ∈ skill.parameters) (hknown : spec.type.isKnown = true)
    (hhas : p.has spec.name = true) : ∃ w, p.raw? spec.name = some w ∧ spec.Form w := by
  obtain ⟨w, hw⟩ := Option.isSome_iff_exists.mp hhas
  have hform := form_of_lookup hcoherent h hspec hw
  exact ⟨w, raw?_eq_some.mpr ⟨hw, hform.isSet hknown⟩, hform⟩

/-- The accessors of the parameter's type give an answer, whatever the fallback. For a type that is
inherited there is none. -/
def Reads (p : Params) (spec : ParameterSpec) : Prop :=
  match spec.type with
  | .int => ∀ fallback, ∃ n, p.int spec.name fallback = .ok n
  | .float => ∀ fallback, (∃ n, p.float spec.name fallback = .ok n) ∧
    ∃ t, p.decimal spec.name fallback = .ok t
  | .bool => ∀ fallback, ∃ b, p.bool spec.name fallback = .ok b
  | .time => ∃ moment, p.time spec.name = .ok (some moment)
  | .string | .enum | .color => ∀ fallback, (∃ s, p.string spec.name fallback = .ok s) ∧
    ∃ t, p.text spec.name fallback = .ok t
  | .inherited _ => False

theorem read_of_raw? {name : String} (hw : p.raw? name = some w) (fallback : Option ParamValue) :
    p.read name fallback = .ok w := by
  rw [read, hw, Option.some_or]

theorem float_of_raw? {name : String} {n : Float} (hw : p.raw? name = some (.number n))
    (fallback : Option Float) : p.float name fallback = .ok n := by
  rw [float, read_of_raw? hw]
  rfl

theorem string_of_raw? {name : String} (hw : p.raw? name = some w) (fallback : Option String) :
    p.string name fallback = .ok w.shown := by
  rw [string, read_of_raw? hw]
  rfl

/-- A time is a number of seconds that is not negative and lies within the bounds. -/
theorem time_of_form (hspec : spec.Coherent) (htype : spec.type = .time) (hform : spec.Form w)
    (hw : p.raw? spec.name = some w) : ∃ moment, p.time spec.name = .ok (some moment) ∧
      0 ≤ moment.seconds ∧ spec.Within moment.seconds := by
  rw [time, hw]
  cases hform with
  | @seconds n type finite nonnegative bounds =>
    have hn := notNaN_of_isFinite finite
    exact ⟨_, rfl, le_of_not_lt hn rfl nonnegative, hspec.within hn bounds⟩
  | @clock s n type trimmed parsed bounds =>
    have hn := TimeText.notNegative_of_parse parsed
    have hread : TimeText.parse Float (ParamValue.text s).shown = some n := parsed
    refine ⟨⟨n, s⟩, ?_, hn.nonneg, hspec.within hn.notNaN bounds⟩
    dsimp only
    rw [hread]
    rfl
  | int type | float type | bool type | string type | color type | enum type | unset type =>
    rw [type] at htype
    cases htype

theorem reads_of_form (hspec : spec.Coherent) (hform : spec.Form w)
    (hw : p.raw? spec.name = some w) : p.Reads spec := by
  have htext (fallback : Option String) : (∃ s, p.string spec.name fallback = .ok s) ∧
      ∃ t, p.text spec.name fallback = .ok t := by
    rw [text, string_of_raw? hw]
    exact ⟨⟨_, rfl⟩, ⟨_, rfl⟩⟩
  rw [Reads]
  -- Each type is read by its own accessors, whatever the fallback.
  cases hform with
  | int type finite whole bounds =>
    rw [type]
    intro fallback
    rw [int, float_of_raw? hw]
    exact ⟨_, rfl⟩
  | float type finite bounds =>
    rw [type]
    intro fallback
    rw [decimal, float_of_raw? hw]
    exact ⟨⟨_, rfl⟩, _, if_pos finite⟩
  | seconds type finite nonnegative bounds =>
    obtain ⟨moment, hmoment, -⟩ :=
      time_of_form hspec type (.seconds type finite nonnegative bounds) hw
    rw [type]
    exact ⟨moment, hmoment⟩
  | clock type trimmed parsed bounds =>
    obtain ⟨moment, hmoment, -⟩ := time_of_form hspec type (.clock type trimmed parsed bounds) hw
    rw [type]
    exact ⟨moment, hmoment⟩
  | bool type b =>
    rw [type]
    intro fallback
    rw [bool, read_of_raw? hw]
    exact ⟨b, rfl⟩
  | string type s | color type trimmed isColor | enum type mem =>
    rw [type]
    exact htext
  | unset => cases (raw?_eq_some.mp hw).2

end SkillPipeline.Params
