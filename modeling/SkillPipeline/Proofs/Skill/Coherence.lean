import SkillPipeline.Catalogue.Builtin
import SkillPipeline.Proofs.Document.Members
import SkillPipeline.Proofs.Document.Shape
import SkillPipeline.Proofs.Parameter.Fitting
import SkillPipeline.Skill.Definition

namespace SkillPipeline

namespace Logged

variable {ε α β : Type} {P : α → Prop} {Q : β → Prop} {w : Logged ε α}

/-- If the work succeeds, whatever was noted before, its answer has the property. -/
def Gives (P : α → Prop) (w : Logged ε α) : Prop :=
  ∀ before a after, w.run.run before = (.ok a, after) → P a

theorem gives_pure {a : α} (h : P a) : Gives P (pure a : Logged ε α) := by
  intro before b after hrun
  cases hrun
  exact h

theorem gives_throw {e : ε} : Gives P (throw e : Logged ε α) := by
  intro before a after hrun
  cases hrun

theorem gives_trivial : Gives (fun _ => True) w := fun _ _ _ _ => trivial

theorem gives_ofExcept {x : Except ε α} (h : ∀ a, x = .ok a → P a) :
    Gives P (MonadExcept.ofExcept x : Logged ε α) := by
  cases x with
  | error e => exact gives_throw
  | ok a => exact gives_pure (h a rfl)

theorem Gives.bind {k : α → Logged ε β} (hw : Gives P w) (hk : ∀ a, P a → Gives Q (k a)) :
    Gives Q (w >>= k) := by
  intro before b after hrun
  rw [ExceptT.run_bind, StateT.run_bind] at hrun
  cases hfirst : w.run.run before with
  | mk result between =>
    rw [hfirst] at hrun
    cases result with
    | error e => cases hrun
    | ok a => exact hk a (hw before a between hfirst) between b after hrun

/-- If each step gives what belongs to its element, the list of answers belongs to the list. -/
theorem gives_mapM {f : α → Logged ε β} {R : α → β → Prop} {l : List α}
    (h : ∀ a ∈ l, Gives (R a) (f a)) : Gives (List.Forall₂ R l) (l.mapM f) := by
  induction l with
  | nil =>
    rw [List.mapM_nil]
    exact gives_pure .nil
  | cons a rest ih =>
    rw [List.mapM_cons]
    refine (h a List.mem_cons_self).bind fun b hb => ?_
    refine (ih fun c hc => h c (List.mem_cons_of_mem a hc)).bind fun bs hbs => ?_
    exact gives_pure (.cons hb hbs)

theorem Gives.of_outcome {a : α} (h : Gives P w) (ha : w.outcome.1 = .ok a) : P a :=
  h [] a _ (Prod.ext ha rfl)

end Logged

/-- A parameter whose bounds are numbers and whose default is in the form of its type. -/
structure ParameterSpec.Coherent (spec : ParameterSpec) : Prop where
  bounds : ∀ n, spec.min? = some n ∨ spec.max? = some n → n.isNaN = false
  default : ∀ d, spec.default? = some d → spec.Form d

/-- A skill whose parameters are coherent and have different names, none of which is the key of the
parent. -/
structure Skill.Coherent (skill : Skill) : Prop where
  distinct : (skill.parameters.map (·.name)).Nodup
  named : ∀ spec ∈ skill.parameters, spec.name ≠ Inherited.parentKey
  parameters : ∀ spec ∈ skill.parameters, spec.Coherent

namespace ParameterSpec

variable {spec : ParameterSpec} {w : ParamValue}

theorem Form.withDefault (h : spec.Form w) (d? : Option ParamValue) :
    ({ spec with default? := d? } : ParameterSpec).Form w := by
  cases h with
  | int type finite whole bounds => exact .int type finite whole bounds
  | float type finite bounds => exact .float type finite bounds
  | seconds type finite nonnegative bounds => exact .seconds type finite nonnegative bounds
  | clock type trimmed parsed bounds => exact .clock type trimmed parsed bounds
  | bool type b => exact @Form.bool { spec with default? := d? } type b
  | string type s => exact @Form.string { spec with default? := d? } type s
  | color type trimmed isColor => exact .color type trimmed isColor
  | enum type mem => exact .enum type mem
  | unset type => exact @Form.unset { spec with default? := d? } _ type

end ParameterSpec

namespace ParameterEntry

variable {skill source name : String} {e : ParameterEntry} {v : Value} {n : Float}

theorem shape_gives (v : Value) :
    (shape v).Gives fun e => ∀ n, e.min? = some n ∨ e.max? = some n → n.isNaN = false := by
  refine Shape.gives_strict (Shape.gives_object ?_)
  iterate 7 apply Verdict.gives_seq
  apply Verdict.gives_map
  intro type _ description _ required _ default? _ least? hleast most? hmost choices? _ aliases? _
  rintro n (rfl | rfl)
  · exact Shape.notNaN_of_number (Shape.of_optional (Verdict.under_eq_accepted.mp hleast))
  · exact Shape.notNaN_of_number (Shape.of_optional (Verdict.under_eq_accepted.mp hmost))

theorem define_gives (hbounds : ∀ n, e.min? = some n ∨ e.max? = some n → n.isNaN = false) :
    (e.define skill source name).Gives fun spec => spec.name = name ∧ spec.Coherent := by
  rw [define]
  split
  · exact Logged.gives_throw
  · split
    · exact Logged.gives_throw
    · dsimp only
      split
      · exact Logged.gives_pure ⟨rfl, hbounds, fun d hd => by cases hd⟩
      · split
        · exact Logged.gives_throw
        · next value notices hcheck =>
          refine Logged.gives_trivial.bind fun _ _ => Logged.gives_pure ⟨rfl, hbounds, ?_⟩
          intro d hd
          obtain rfl : value = d := Option.some.inj (Option.filter_eq_some_iff.mp hd).1
          exact (ParameterSpec.form_of_check hcheck).withDefault _

end ParameterEntry

/-- No parameter of the call stands under the key of the parent. -/
def Call.Named (call : Call) : Prop := ∀ p ∈ call.params, p.1 ≠ Inherited.parentKey

/-- What is asked of an entry: the bounds of its parameters are numbers, its keys are different, and
none is the key of the parent. -/
structure SkillEntry.Sound (e : SkillEntry) : Prop where
  bounds : ∀ p ∈ e.parameters, ∀ n, p.2.min? = some n ∨ p.2.max? = some n → n.isNaN = false
  distinct : e.parameters.keys.Nodup
  named : ∀ p ∈ e.parameters, p.1 ≠ Inherited.parentKey
  calls : ∀ calls, e.pipeline? = some calls → ∀ call ∈ calls, call.Named
  name : e.name ≠ Inherited.parentKey

theorem Call.shape_gives (v : Value) : (shape v).Gives Call.Named := by
  refine Shape.gives_union (List.forall_mem_cons.mpr ⟨?_, List.forall_mem_singleton.mpr ?_⟩)
  · exact Shape.gives_convert fun _ _ => List.forall_mem_nil _
  · refine Shape.gives_strict (Shape.gives_object (Verdict.gives_seq (Verdict.gives_map ?_)))
    intro skill _ params hparams p hp
    obtain ⟨_, all, -, -, rfl⟩ := Shape.of_record (Verdict.under_eq_accepted.mp hparams)
    exact Members.isAssignable_iff.mp (List.mem_filter.mp hp).2

namespace SkillEntry

variable {known : String → Bool} {source : String} {e : SkillEntry} {v : Value}

/-- The parameters and calls of an accepted entry are those that its document has. -/
theorem shape_gives (v : Value) :
    (shape v).Gives fun e => isName e.name = true ∧
      ((Shape.record ParameterEntry.shape).orDefault (.object [])) (v.member "parameters") =
        .accepted e.parameters ∧
      (Shape.nonEmptyList Call.shape).optional (v.member "pipeline") = .accepted e.pipeline? := by
  refine Shape.gives_refine (Shape.gives_strict (Shape.gives_object ?_))
  iterate 11 apply Verdict.gives_seq
  apply Verdict.gives_map
  intro name hname category _ description _ parameters hparameters template? _ pipeline? hpipeline
    handler? _ option? _ stream? _ tags _ examples _ aliases _
  exact ⟨Shape.of_also (Verdict.under_eq_accepted.mp hname),
    Verdict.under_eq_accepted.mp hparameters, Verdict.under_eq_accepted.mp hpipeline⟩

/-- An entry that the shape accepts is sound if its document names each parameter once. -/
theorem sound_of_shape (h : shape v = .accepted e)
    (hdistinct : ∀ members, v.member "parameters" = .object members →
      (Members.keys members).Nodup) : e.Sound := by
  obtain ⟨hname, hparameters, hpipeline⟩ := shape_gives v e h
  rw [Shape.orDefault] at hparameters
  obtain ⟨members, all, hmembers, haccepted, hkept⟩ := Shape.of_record hparameters
  have hkeys : Members.keys all = Members.keys members :=
    Outcome.map_eq_of_forall₂ haccepted fun given entry h => h.1
  -- An entry without parameters has an empty record.
  have hnodup : (Members.keys all).Nodup := by
    rw [hkeys]
    split at hmembers
    · obtain rfl : [] = members := by simpa using hmembers
      exact List.nodup_nil
    · exact hdistinct members hmembers
  have hmem (p : String × ParameterEntry) (hp : p ∈ e.parameters) :
      p ∈ all ∧ Members.isAssignable p.1 = true := List.mem_filter.mp (hkept ▸ hp)
  refine ⟨fun p hp n hn => ?_, ?_, fun p hp => ?_, fun calls hcalls => ?_, ?_⟩
  · obtain ⟨given, -, -, hgiven⟩ := Outcome.exists_of_mem_right haccepted (hmem p hp).1
    exact ParameterEntry.shape_gives given.2 p.2 hgiven n hn
  · rw [hkept]
    exact Members.nodup_keys_filter hnodup _
  · exact Members.isAssignable_iff.mp (hmem p hp).2
  · rw [hcalls] at hpipeline
    exact Shape.gives_nonEmptyList Call.shape_gives calls (Shape.of_optional hpipeline)
  · intro hparent
    rw [hparent] at hname
    revert hname
    decide

theorem Sound.define_gives (h : e.Sound) : (e.define known source).Gives Skill.Coherent := by
  refine (Logged.gives_mapM fun p hp => ParameterEntry.define_gives (h.bounds p hp)).bind
    fun parameters hparameters => ?_
  refine (Logged.gives_ofExcept (P := fun _ => True) fun _ _ => trivial).bind fun _ _ => ?_
  refine Logged.gives_pure ⟨?_, fun spec hspec => ?_, fun spec hspec => ?_⟩
  · have hnames : parameters.map (·.name) = e.parameters.keys :=
      Outcome.map_eq_of_forall₂ hparameters fun p spec h => h.1
    exact hnames ▸ h.distinct
  · obtain ⟨p, hp, hname, -⟩ := Outcome.exists_of_mem_right hparameters hspec
    exact hname ▸ h.named p hp
  · obtain ⟨p, -, -, hcoherent⟩ := Outcome.exists_of_mem_right hparameters hspec
    exact hcoherent

theorem name_of_define {skill : Skill} (h : (e.define known source).outcome.1 = .ok skill) :
    skill.name = e.name := by
  refine Logged.Gives.of_outcome (P := fun skill : Skill => skill.name = e.name) ?_ h
  refine Logged.gives_trivial.bind fun _ _ => ?_
  exact (Logged.gives_ofExcept (P := fun _ => True) fun _ _ => trivial).bind fun _ _ =>
    Logged.gives_pure rfl

end SkillEntry

namespace Skill

variable {known : String → Bool} {source : String} {v : Value} {skill : Skill}

deriving instance DecidableEq for ParamValue

/-- Whether the parameters of a skill are coherent and have different names. -/
def isCoherent (skill : Skill) : Bool :=
  decide (skill.parameters.map (·.name)).Nodup && skill.parameters.all fun spec =>
    Members.isAssignable spec.name && (spec.min?.all (!·.isNaN) && spec.max?.all (!·.isNaN) &&
      spec.default?.all fun d => (spec.fit d.document).toOption = some d)

theorem coherent_of_isCoherent (h : skill.isCoherent = true) : skill.Coherent := by
  rw [isCoherent, Bool.and_eq_true, decide_eq_true_iff, List.all_eq_true] at h
  refine ⟨h.1, fun spec hspec => ?_, fun spec hspec => ?_⟩
  · exact Members.isAssignable_iff.mp (Bool.and_eq_true_iff.mp (h.2 spec hspec)).1
  have htest := (Bool.and_eq_true_iff.mp (h.2 spec hspec)).2
  rw [Bool.and_eq_true, Bool.and_eq_true] at htest
  obtain ⟨⟨hleast, hmost⟩, hdefault⟩ := htest
  refine ⟨fun n hn => ?_, fun d hd => ?_⟩
  · obtain hn | hn := hn
    · simpa [hn] using hleast
    · simpa [hn] using hmost
  · rw [hd, Option.all_some, decide_eq_true_iff] at hdefault
    cases hfit : spec.fit d.document with
    | error why =>
      rw [hfit] at hdefault
      cases hdefault
    | ok w =>
      rw [hfit] at hdefault
      obtain rfl : w = d := Option.some.inj hdefault
      exact ParameterSpec.form_of_fit hfit

set_option maxRecDepth 100000 in
theorem builtin_isCoherent : Catalogue.builtin.all (·.isCoherent) = true := by
  decide +kernel

/-- A skill that a sound entry defines, or one of the catalogue; in either case it may be marked
with another source. -/
inductive Parsed : Skill → Prop
  | entry {known : String → Bool} {source : String} {e : SkillEntry} {skill : Skill}
      (sound : e.Sound) (defined : (e.define known source).outcome.1 = .ok skill) : Parsed skill
  | builtin {skill : Skill} (mem : skill ∈ Catalogue.builtin) : Parsed skill
  | marked {skill : Skill} (source : String) (parsed : Parsed skill) :
      Parsed { skill with source }

/-- A skill that a document defines is parsed, if whoever reads its entry finds a sound one. -/
theorem parsed_of_ofDocument [reader : SkillReader]
    (hreader : ∀ e, reader.entry v = .ok e → e.Sound)
    (h : (ofDocument known source v).outcome.1 = .ok skill) : skill.Parsed := by
  rw [ofDocument] at h
  split at h
  · cases h
  · next e he => exact .entry (hreader e he) h

/-- So it is by the shape of entries if the document names each parameter once. -/
theorem parsed_of_shape (hdistinct : ∀ members, v.member "parameters" = .object members →
      (Members.keys members).Nodup)
    (h : (ofDocument known source v).outcome.1 = .ok skill) : skill.Parsed :=
  parsed_of_ofDocument (fun _ he =>
    SkillEntry.sound_of_shape (Verdict.toExcept_eq_ok.mp he) hdistinct) h

theorem Parsed.coherent (h : skill.Parsed) : skill.Coherent := by
  induction h with
  | entry sound defined => exact sound.define_gives.of_outcome defined
  | builtin mem => exact coherent_of_isCoherent (List.all_eq_true.mp builtin_isCoherent _ mem)
  | marked source parsed ih => exact ⟨ih.distinct, ih.named, ih.parameters⟩

theorem builtin_isAssignable : Catalogue.builtin.all (Members.isAssignable ·.name) = true := by
  decide +kernel

theorem Parsed.name_ne (h : skill.Parsed) : skill.name ≠ Inherited.parentKey := by
  induction h with
  | entry sound defined => exact SkillEntry.name_of_define defined ▸ sound.name
  | builtin mem =>
    exact Members.isAssignable_iff.mp (List.all_eq_true.mp builtin_isAssignable _ mem)
  | marked source parsed ih => exact ih

end Skill

end SkillPipeline
