import SkillPipeline.Catalogue.Builtin
import SkillPipeline.Proofs.Effect.Table
import SkillPipeline.Proofs.Parameter.Fitting
import SkillPipeline.Proofs.Skill.Normalization

namespace SkillPipeline

def ParamValue.isNumber : ParamValue → Bool
  | .number _ => true
  | _ => false

def ParamValue.isFlag : ParamValue → Bool
  | .flag _ => true
  | _ => false

theorem ParamValue.exists_of_isNumber {v : ParamValue} (h : v.isNumber = true) :
    ∃ n, v = .number n := by
  cases v with
  | number n => exact ⟨n, rfl⟩
  | _ => cases h

namespace ParameterSpec

variable {spec : ParameterSpec} {v : ParamValue}

/-- Whether the parameter has a value whenever it is there. -/
def valued (spec : ParameterSpec) : Bool :=
  spec.type.isKnown && spec.default?.all ParamValue.isSet

def numeric (spec : ParameterSpec) : Bool :=
  (spec.type = .int || spec.type = .float) && spec.default?.all ParamValue.isNumber

def switched (spec : ParameterSpec) : Bool :=
  spec.type = .bool && spec.default?.all ParamValue.isFlag

def timed (spec : ParameterSpec) : Bool :=
  spec.type = .time && spec.default?.all ParamValue.isNumber

theorem Takes.given_of_test {test : ParamValue → Bool} (h : spec.Takes v)
    (hdefault : spec.default?.all test = true) :
    test v = true ∨ ∃ given, spec.fit given = .ok v := by
  obtain hd | hgiven := h
  · rw [hd] at hdefault
    exact .inl hdefault
  · exact .inr hgiven

theorem Takes.isSet (h : spec.Takes v) (hspec : spec.valued = true) : v.isSet = true := by
  obtain ⟨htype, hdefault⟩ := Bool.and_eq_true_iff.mp hspec
  obtain hset | ⟨given, hfit⟩ := h.given_of_test hdefault
  · exact hset
  · exact (form_of_fit hfit).isSet htype

theorem Takes.exists_number (h : spec.Takes v) (hspec : spec.numeric = true) :
    ∃ n, v = .number n := by
  simp only [numeric, Bool.and_eq_true, Bool.or_eq_true, decide_eq_true_eq] at hspec
  obtain ⟨htype, hdefault⟩ := hspec
  obtain hnumber | ⟨given, hfit⟩ := h.given_of_test hdefault
  · exact ParamValue.exists_of_isNumber hnumber
  · obtain htype | htype := htype
    · simp only [fit, htype] at hfit
      split at hfit
      · cases hfit
      · split at hfit
        · obtain ⟨⟨⟩, -, rfl⟩ := Outcome.map_eq_ok.mp hfit
          exact ⟨_, rfl⟩
        · cases hfit
    · simp only [fit, htype] at hfit
      split at hfit
      · cases hfit
      · obtain ⟨⟨⟩, -, rfl⟩ := Outcome.map_eq_ok.mp hfit
        exact ⟨_, rfl⟩

theorem Takes.exists_flag (h : spec.Takes v) (hspec : spec.switched = true) :
    ∃ b, v = .flag b := by
  simp only [switched, Bool.and_eq_true, decide_eq_true_eq] at hspec
  obtain ⟨htype, hdefault⟩ := hspec
  obtain hflag | ⟨given, hfit⟩ := h.given_of_test hdefault
  · cases v with
    | flag b => exact ⟨b, rfl⟩
    | _ => cases hflag
  · simp only [fit, htype] at hfit
    split at hfit
    · exact ⟨_, (Except.ok.inj hfit).symm⟩
    · cases hfit

theorem Takes.isTime (h : spec.Takes v) (hspec : spec.timed = true) :
    (∃ n, v = .number n) ∨ (TimeText.parse Float v.shown).isSome = true := by
  simp only [timed, Bool.and_eq_true, decide_eq_true_eq] at hspec
  obtain ⟨htype, hdefault⟩ := hspec
  obtain hnumber | ⟨given, hfit⟩ := h.given_of_test hdefault
  · exact .inl (ParamValue.exists_of_isNumber hnumber)
  -- A time is given as a number of seconds or as a text; nothing else fits.
  · simp only [fit, htype] at hfit
    cases given with
    | number n =>
      rw [checkTime] at hfit
      split at hfit
      · cases hfit
      · obtain ⟨⟨⟩, -, rfl⟩ := Outcome.map_eq_ok.mp hfit
        exact .inl ⟨n, rfl⟩
    | string s =>
      rw [checkTime] at hfit
      split at hfit
      · cases hfit
      · next n hparse =>
        obtain ⟨⟨⟩, -, rfl⟩ := Outcome.map_eq_ok.mp hfit
        refine .inr ?_
        rw [ParamValue.shown, TimeText.parse_trim, hparse]
        rfl
    | _ => cases hfit

end ParameterSpec

namespace Skill

def declares (skill : Skill) (name : String) (test : ParameterSpec → Bool) : Bool :=
  skill.parameters.all fun spec => spec.name != name || test spec

/-- Whether a name has a value in every step that passes. -/
def settles (skill : Skill) (name : String) : Bool :=
  skill.parameters.any fun spec => spec.name == name && spec.settled

/-- Whether a need is met in every step of the skill. An input of the step's own is up to its
handler. -/
def guarantees (skill : Skill) : Need → Bool
  | .value name => skill.settles name && skill.declares name ParameterSpec.valued
  | .valueIfAny name => skill.declares name ParameterSpec.valued
  | .number name => skill.settles name && skill.declares name ParameterSpec.numeric
  | .numberIfAny name => skill.declares name ParameterSpec.numeric
  | .flag name => skill.settles name && skill.declares name ParameterSpec.switched
  | .timeIfAny name => skill.declares name ParameterSpec.timed
  | .ownInput => false

end Skill

namespace Params

variable {p : Params} {name : String} {ctx : HandlerContext}

theorem Settled.has (h : p.Settled) (hname : p.skill.settles name = true) : p.has name = true := by
  obtain ⟨spec, hspec, htest⟩ := List.any_eq_true.mp hname
  obtain ⟨heq, hsettled⟩ := Bool.and_eq_true_iff.mp htest
  exact beq_iff_eq.mp heq ▸ h.settled spec hspec hsettled

theorem Settled.exists_spec {test : ParameterSpec → Bool} (h : p.Settled)
    (hname : p.skill.declares name test = true) (hhas : p.has name = true) :
    ∃ v spec, p.values.lookup name = some v ∧ spec.Takes v ∧ test spec = true := by
  obtain ⟨v, hv⟩ := Option.isSome_iff_exists.mp hhas
  obtain ⟨spec, hspec, rfl, htakes⟩ := h.taken name v hv
  have htest := List.all_eq_true.mp hname spec hspec
  exact ⟨v, spec, hv, htakes, by simpa using htest⟩

theorem Settled.hasValue (h : p.Settled) (hname : p.skill.declares name ParameterSpec.valued = true)
    (hhas : p.has name = true) : (p.raw? name).isSome = true := by
  obtain ⟨v, spec, hv, htakes, hspec⟩ := h.exists_spec hname hhas
  rw [raw?_eq_some.mpr ⟨hv, htakes.isSet hspec⟩, Option.isSome_some]

theorem Settled.hasNumber (h : p.Settled)
    (hname : p.skill.declares name ParameterSpec.numeric = true) (hhas : p.has name = true) :
    ∃ n, p.raw? name = some (.number n) := by
  obtain ⟨v, spec, hv, htakes, hspec⟩ := h.exists_spec hname hhas
  obtain ⟨n, rfl⟩ := htakes.exists_number hspec
  exact ⟨n, raw?_eq_some.mpr ⟨hv, rfl⟩⟩

theorem Settled.met {need : Need} (h : p.Settled) (hneed : p.skill.guarantees need = true) :
    need.Met p ctx := by
  -- Each need asks for a value, for its type, or for both.
  cases need with
  | value name =>
    obtain ⟨hsettles, hdeclares⟩ := Bool.and_eq_true_iff.mp hneed
    exact h.hasValue hdeclares (h.has hsettles)
  | valueIfAny name => exact h.hasValue hneed
  | number name =>
    obtain ⟨hsettles, hdeclares⟩ := Bool.and_eq_true_iff.mp hneed
    exact h.hasNumber hdeclares (h.has hsettles)
  | numberIfAny name => exact h.hasNumber hneed
  | flag name =>
    obtain ⟨hsettles, hdeclares⟩ := Bool.and_eq_true_iff.mp hneed
    obtain ⟨v, spec, hv, htakes, hspec⟩ := h.exists_spec hdeclares (h.has hsettles)
    obtain ⟨b, rfl⟩ := htakes.exists_flag hspec
    exact ⟨b, raw?_eq_some.mpr ⟨hv, rfl⟩⟩
  | timeIfAny name =>
    intro v hv
    obtain ⟨w, spec, hw, htakes, hspec⟩ := h.exists_spec hneed (has_of_raw? hv)
    obtain rfl : w = v := Option.some.inj (hw.symm.trans (raw?_eq_some.mp hv).1)
    exact htakes.isTime hspec
  | ownInput => cases hneed

end Params

/-- Whether the handler of a skill is listed with needs that the skill guarantees. -/
def Skill.supplies (listed : List (String × List Need)) (skill : Skill) : Bool :=
  match skill.strategy with
  | .handler name =>
    (listed.lookup name).any fun needs => (Handler.claimNeeds needs).all skill.guarantees
  | _ => true

set_option maxRecDepth 100000 in
theorem Catalogue.builtin_supplies :
    Catalogue.builtin.all (·.supplies HandlerTable.builtinNeeds) = true := by
  decide +kernel

theorem HandlerTable.exists_of_listed {table : HandlerTable} {listed : List (String × List Need)}
    (h : List.Forall₂ Handler.Listed table listed) {name : String} {needs : List Need}
    (hneeds : listed.lookup name = some needs) :
    ∃ handler, table.find? name = some handler ∧ handler.Keeps needs := by
  induction h with
  | nil => cases hneeds
  | @cons entry needed table listed hentry hrest ih =>
    obtain ⟨hname, hkeeps⟩ := hentry
    rw [List.lookup_cons] at hneeds
    rw [HandlerTable.find?, List.lookup_cons, hname]
    cases heq : name == needed.1 with
    | true =>
      rw [heq] at hneeds
      exact ⟨entry.2, rfl, Option.some.inj hneeds ▸ hkeeps⟩
    | false =>
      rw [heq] at hneeds
      exact ih hneeds

theorem Skill.exists_handler {skill : Skill} (hskill : skill ∈ Catalogue.builtin) {name : String}
    (hname : skill.strategy = .handler name) :
    ∃ h needs, HandlerTable.builtin.find? name = some h ∧ h.Keeps needs ∧
      ∀ need ∈ Handler.claimNeeds needs, skill.guarantees need = true := by
  have hsupplies := List.all_eq_true.mp Catalogue.builtin_supplies skill hskill
  simp only [Skill.supplies, hname] at hsupplies
  cases hneeds : HandlerTable.builtinNeeds.lookup name with
  | none => simp [hneeds] at hsupplies
  | some needs =>
    rw [hneeds] at hsupplies
    obtain ⟨h, hfind, hkeeps⟩ :=
      HandlerTable.exists_of_listed HandlerTable.builtin_listed hneeds
    exact ⟨h, needs, hfind, hkeeps, List.all_eq_true.mp hsupplies⟩

end SkillPipeline
