import SkillPipeline.Proofs.Document.Members
import SkillPipeline.Proofs.Skill.Coherence
import SkillPipeline.Proofs.Skill.Normalization

namespace SkillPipeline

open Outcome

namespace Params

variable {skill : Skill} {raw raw' : Members Value} {r r' : Record} {spec : ParameterSpec}
  {seen specs : List ParameterSpec} {p : Progress} {w : ParamValue}

/-- What the members say of a parameter, once it is settled: they have one value of it, in the form
of its type, or none if none is due. -/
inductive Stands (raw : Members Value) (spec : ParameterSpec) : Prop
  | value {w : ParamValue} (form : spec.Form w) (member : raw.get? spec.name = some w.document)
      (sole : ∀ v, (spec.name, v) ∈ raw → v = w.document)
  | nothing (absent : raw.get? spec.name = none) (unsettled : spec.settled = false)

/-- Members in normal form. -/
structure Normal (skill : Skill) (raw : Members Value) : Prop where
  declared : ∀ entry ∈ raw, isParameter skill entry.1 = true
  standing : ∀ spec ∈ skill.parameters, Stands raw spec

/-- The value that a member of a parameter stands for. -/
def ofMember? : Value → Option ParamValue
  | .absent => some .unset
  | v => ParamValue.ofValue? v

def entryIn? (raw : Members Value) (spec : ParameterSpec) : Option (String × ParamValue) :=
  ((raw.get? spec.name).bind ofMember?).map (spec.name, ·)

/-- The values of parameters among the members, in the order of the parameters. -/
def entriesIn (raw : Members Value) (specs : List ParameterSpec) : List (String × ParamValue) :=
  specs.filterMap (entryIn? raw)

theorem ofMember?_document (w : ParamValue) : ofMember? w.document = some w := by
  cases w <;> rfl

theorem present?_document (h : w.isSet = true) : w.document.present? = some w.document := by
  cases w with
  | unset => cases h
  | _ => rfl

theorem entryIn?_of_get? (h : raw.get? spec.name = some w.document) :
    entryIn? raw spec = some (spec.name, w) := by
  rw [entryIn?, h, Option.bind_some, ofMember?_document, Option.map_some]

theorem entryIn?_of_absent (h : raw.get? spec.name = none) : entryIn? raw spec = none := by
  rw [entryIn?, h, Option.bind_none, Option.map_none]

theorem entriesIn_congr (h : ∀ spec ∈ specs, raw'.get? spec.name = raw.get? spec.name) :
    entriesIn raw' specs = entriesIn raw specs := by
  refine List.filterMap_congr fun spec hspec => ?_
  rw [entryIn?, entryIn?, h spec hspec]

theorem names_entriesIn_sublist :
    ((entriesIn raw specs).map (·.1)).Sublist (specs.map (·.name)) := by
  induction specs with
  | nil => exact .slnil
  | cons spec rest ih =>
    rw [entriesIn, List.filterMap_cons, entryIn?]
    cases (raw.get? spec.name).bind ofMember? with
    | none => exact ih.cons _
    | some w => exact ih.cons_cons _

theorem names_entriesIn {name : String} (h : name ∈ (entriesIn raw specs).map (·.1)) :
    name ∈ specs.map (·.name) := names_entriesIn_sublist.subset h

theorem lookup_entriesIn (hdistinct : (specs.map (·.name)).Nodup) (hspec : spec ∈ specs) :
    (entriesIn raw specs).lookup spec.name = (raw.get? spec.name).bind ofMember? := by
  induction specs with
  | nil => cases hspec
  | cons other rest ih =>
    obtain ⟨hnew, hrest⟩ := List.nodup_cons.mp hdistinct
    change other.name ∉ rest.map (·.name) at hnew
    rw [entriesIn, List.filterMap_cons, entryIn?]
    obtain rfl | hspec := List.mem_cons.mp hspec
    · cases (raw.get? spec.name).bind ofMember? with
      | none =>
        refine List.lookup_eq_none_iff.mpr fun entry hentry => bne_iff_ne.mpr fun heq => hnew ?_
        exact heq ▸ names_entriesIn (List.mem_map_of_mem hentry)
      | some w => exact List.lookup_cons_self
    · have hne : (spec.name == other.name) = false :=
        beq_eq_false_iff_ne.mpr fun heq => hnew (heq ▸ List.mem_map_of_mem hspec)
      cases (raw.get? other.name).bind ofMember? with
      | none => exact ih hrest hspec
      | some w => exact (List.lookup_cons ..).trans (hne ▸ ih hrest hspec)

theorem put_of_notMem {values : List (String × ParamValue)} {name : String}
    (h : name ∉ values.map (·.1)) : put values name w = values ++ [(name, w)] := by
  have hnone : ¬values.any (·.1 == name) = true := by
    rw [List.any_eq_true]
    rintro ⟨entry, hentry, hname⟩
    exact h (List.mem_map.mpr ⟨entry, hentry, beq_iff_eq.mp hname⟩)
  rw [put, if_neg hnone]

theorem Stands.congr (h : Stands raw spec) (hget : raw'.get? spec.name = raw.get? spec.name)
    (hmem : ∀ v, (spec.name, v) ∈ raw' → (spec.name, v) ∈ raw) : Stands raw' spec := by
  cases h with
  | value form member sole => exact .value form (hget.trans member) fun v hv => sole v (hmem v hv)
  | nothing absent unsettled => exact .nothing (hget.trans absent) unsettled

theorem renameKey_declared {key : String} {keys : List String}
    (hnamed : ∀ spec ∈ skill.parameters, spec.name ≠ Inherited.parentKey)
    (h : renameKey skill r key = .ok r')
    (hr : ∀ entry ∈ r.own, isParameter skill entry.1 = true ∨ entry.1 ∈ key :: keys) :
    ∀ entry ∈ r'.own, isParameter skill entry.1 = true ∨ entry.1 ∈ keys := by
  intro entry hentry
  obtain ⟨hparameter, rfl⟩ | ⟨spec, hspec, -, rfl⟩ := renameKey_named hnamed h
  · obtain hdeclared | hkey := hr entry hentry
    · exact .inl hdeclared
    · obtain rfl | hrest := List.mem_cons.mp hkey
      · exact .inl hparameter
      · exact .inr hrest
  · obtain ⟨hne, hset⟩ := Members.mem_erase.mp hentry
    obtain rfl | ⟨-, hold⟩ := Members.mem_set.mp hset
    · exact .inl (isParameter_name hspec)
    · obtain hdeclared | hkey := hr entry hold
      · exact .inl hdeclared
      · exact .inr ((List.mem_cons.mp hkey).resolve_left hne)

theorem renameKeys_declared {keys : List String}
    (hnamed : ∀ spec ∈ skill.parameters, spec.name ≠ Inherited.parentKey)
    (h : renameKeys skill r keys = (r', none))
    (hr : ∀ entry ∈ r.own, isParameter skill entry.1 = true ∨ entry.1 ∈ keys) :
    ∀ entry ∈ r'.own, isParameter skill entry.1 = true := by
  induction keys generalizing r with
  | nil =>
    cases h
    intro entry hentry
    exact (hr entry hentry).resolve_right List.not_mem_nil
  | cons key rest ih =>
    rw [renameKeys] at h
    split at h
    · next hkey => exact ih h (renameKey_declared hnamed hkey hr)
    · cases h

theorem renameKeys_of_declared {keys : List String}
    (h : ∀ key ∈ keys, isParameter skill key = true) :
    renameKeys skill r keys = (r, none) := by
  induction keys with
  | nil => rfl
  | cons key rest ih =>
    obtain ⟨hkey, hrest⟩ := List.forall_mem_cons.mp h
    rw [renameKeys, renameKey, if_pos hkey]
    exact ih hrest

structure Progress.Reaches (skill : Skill) (seen : List ParameterSpec) (p : Progress) : Prop where
  declared : ∀ entry ∈ p.raw.own, isParameter skill entry.1 = true
  standing : ∀ spec ∈ seen, Stands p.raw.own spec
  values : p.values = entriesIn p.raw.own seen

namespace Progress.Reaches

theorem set {q : Progress} (h : p.Reaches skill seen) (hspec : spec ∈ skill.parameters)
    (hnew : spec.name ∉ seen.map (·.name)) (hform : spec.Form w)
    (hraw : q.raw.own = p.raw.own.set spec.name w.document)
    (hvalues : q.values = put p.values spec.name w) : q.Reaches skill (seen ++ [spec]) := by
  have hother (other : ParameterSpec) (hmem : other ∈ seen) : other.name ≠ spec.name :=
    fun heq => hnew (heq ▸ List.mem_map_of_mem hmem)
  have hself : q.raw.own.get? spec.name = some w.document := by
    rw [hraw, Members.get?_set, if_pos rfl]
  have hkept (other : ParameterSpec) (hmem : other ∈ seen) :
      q.raw.own.get? other.name = p.raw.own.get? other.name := by
    rw [hraw, Members.get?_set, if_neg (hother other hmem)]
  -- The members and values of earlier parameters stay; only the new one is looked at.
  refine ⟨fun entry hentry => ?_, fun other hmem => ?_, ?_⟩
  · obtain rfl | ⟨-, hold⟩ := Members.mem_set.mp (hraw ▸ hentry)
    · exact isParameter_name hspec
    · exact h.declared entry hold
  · obtain hold | hlast := List.mem_append.mp hmem
    · refine (h.standing other hold).congr (hkept other hold) fun v hv => ?_
      obtain heq | ⟨-, hv⟩ := Members.mem_set.mp (hraw ▸ hv)
      · exact absurd (Prod.mk.inj heq).1 (hother other hold)
      · exact hv
    · obtain rfl := List.mem_singleton.mp hlast
      refine .value hform hself fun v hv => ?_
      obtain heq | ⟨hne, -⟩ := Members.mem_set.mp (hraw ▸ hv)
      · exact (Prod.mk.inj heq).2
      · exact absurd rfl hne
  · have habsent : spec.name ∉ p.values.map (·.1) :=
      h.values ▸ fun hname => hnew (names_entriesIn hname)
    rw [hvalues, put_of_notMem habsent, h.values, entriesIn, entriesIn, List.filterMap_append,
      List.filterMap_cons, entryIn?_of_get? hself]
    congr 1
    exact (entriesIn_congr hkept).symm

theorem erase {q : Progress} (h : p.Reaches skill seen) (hnew : spec.name ∉ seen.map (·.name))
    (hspec : spec.settled = false) (hraw : q.raw.own = p.raw.own.erase spec.name)
    (hvalues : q.values = p.values) : q.Reaches skill (seen ++ [spec]) := by
  have hkept (other : ParameterSpec) (hmem : other ∈ seen) :
      q.raw.own.get? other.name = p.raw.own.get? other.name := by
    have hne : other.name ≠ spec.name := fun heq => hnew (heq ▸ List.mem_map_of_mem hmem)
    rw [hraw, Members.get?_erase, if_neg hne]
  have hself : q.raw.own.get? spec.name = none := by
    rw [hraw, Members.get?_erase, if_pos rfl]
  refine ⟨fun entry hentry => h.declared entry (Members.mem_erase.mp (hraw ▸ hentry)).2,
    fun other hmem => ?_, ?_⟩
  · obtain hold | hlast := List.mem_append.mp hmem
    · exact (h.standing other hold).congr (hkept other hold) fun v hv =>
        (Members.mem_erase.mp (hraw ▸ hv)).2
    · obtain rfl := List.mem_singleton.mp hlast
      exact .nothing hself hspec
  · rw [hvalues, h.values, entriesIn, entriesIn, List.filterMap_append, List.filterMap_cons,
      entryIn?_of_absent hself, List.filterMap_nil, List.append_nil]
    exact (entriesIn_congr hkept).symm

theorem step (h : p.Reaches skill seen) (hcoherent : skill.Coherent)
    (hspec : spec ∈ skill.parameters) (hnew : spec.name ∉ seen.map (·.name))
    (hfault : (p.step skill spec).fault? = none) :
    (p.step skill spec).Reaches skill (seen ++ [spec]) := by
  obtain ⟨w, htakes, hraw, hvalues, -⟩ | ⟨hsettled, hraw, hvalues, -⟩ | ⟨-, f, -, hf⟩ :=
    p.step_cases skill spec
  · rw [Record.assign_of_ne (hcoherent.named spec hspec)] at hraw
    refine h.set hspec hnew ?_ (congrArg Record.own hraw) hvalues
    obtain hdefault | ⟨given, hfit⟩ := htakes
    · exact (hcoherent.parameters spec hspec).default w hdefault
    · exact ParameterSpec.form_of_fit hfit
  · exact h.erase hnew hsettled (congrArg Record.own hraw) hvalues
  · cases hf.symm.trans hfault

theorem steps (h : p.Reaches skill seen) (hcoherent : skill.Coherent)
    (hspecs : skill.parameters = seen ++ specs) (hp : p.fault? = none)
    (hfault : (p.steps skill specs).fault? = none) :
    (p.steps skill specs).Reaches skill skill.parameters := by
  -- On the parameters that are left; none of them may be at fault.
  induction specs generalizing p seen with
  | nil =>
    rw [hspecs, List.append_nil]
    exact h
  | cons spec rest ih =>
    have hsplit : skill.parameters = seen ++ [spec] ++ rest := by
      rw [hspecs, List.append_assoc, List.singleton_append]
    have hspec : spec ∈ skill.parameters := by
      rw [hspecs]
      exact List.mem_append_right _ List.mem_cons_self
    have hnew : spec.name ∉ seen.map (·.name) := by
      have hdistinct := hcoherent.distinct
      rw [hspecs, List.map_append, List.map_cons] at hdistinct
      exact fun hmem => (List.nodup_append.mp hdistinct).2.2 _ hmem _ List.mem_cons_self rfl
    simp only [Progress.steps, hp] at hfault ⊢
    have hstep := Progress.fault?_step_of_steps hfault
    exact ih (h.step hcoherent hspec hnew hstep) hsplit hstep hfault

end Progress.Reaches

/-- Normalising leaves members in normal form, and gives the values that they have. -/
theorem normal_of_normalize {p : Params} (hcoherent : skill.Coherent)
    (h : (normalize skill raw).result = .ok p) :
    Normal skill (normalize skill raw).raw ∧
      p = ⟨skill, entriesIn (normalize skill raw).raw skill.parameters⟩ := by
  obtain ⟨renamed, _, hrename, rfl, hfault, hraw, rfl⟩ := normalize_eq_ok h
  have hdeclared := renameKeys_declared hcoherent.named hrename fun entry hentry =>
    .inr (List.mem_map_of_mem hentry)
  have hstart : Progress.Reaches skill [] { raw := renamed } :=
    ⟨hdeclared, fun _ hspec => absurd hspec List.not_mem_nil, rfl⟩
  have hend := hstart.steps hcoherent rfl rfl hfault
  rw [hraw]
  exact ⟨⟨hend.declared, hend.standing⟩, congrArg _ hend.values⟩

theorem step_of_stands (h : Stands p.raw.own spec) (hsteady : spec.isSteady = true)
    (hname : spec.name ≠ Inherited.parentKey) (hparent : p.raw.parent = .common)
    (hnew : spec.name ∉ p.values.map (·.1)) :
    p.step skill spec = { p with values := p.values ++ (entryIn? p.raw.own spec).toList } := by
  rw [ParameterSpec.isSteady, Bool.and_eq_true] at hsteady
  cases h with
  | @value w form member sole =>
    -- A steady type leaves no value unset, so the member is read and stays in its place.
    have hisSet := form.isSet hsteady.1
    have hset : p.set spec.name w = { p with values := p.values ++ [(spec.name, w)] } := by
      rw [Progress.set, Record.assign_of_ne hname, Members.set_eq_self member sole,
        put_of_notMem hnew]
    have hread : p.raw.read spec.name = some w.document := by
      rw [Record.read, member]
      exact present?_document hisSet
    rw [Progress.step, hread, entryIn?_of_get? member]
    dsimp only
    rw [form.validate_document hisSet]
    dsimp only
    rw [hset, List.append_nil]
    rfl
  | nothing absent unsettled =>
    -- A parameter that may be left out is steady if nothing is inherited under its name.
    have hfind : Inherited.find? spec.name = none := by
      simpa [unsettled] using hsteady.2
    have hread : p.raw.read spec.name = none := by
      rw [Record.read_eq hparent hfind, absent, Option.bind_none]
    simp only [ParameterSpec.settled, Bool.or_eq_false_iff, Option.isSome_eq_false_iff,
      Option.isNone_iff_eq_none] at unsettled
    rw [Progress.step, hread, entryIn?_of_absent absent, unsettled.2, Record.erase,
      Members.erase_eq_self absent]
    simp [unsettled.1]

theorem steps_of_stands (hstands : ∀ spec ∈ specs, Stands p.raw.own spec)
    (hsteady : ∀ spec ∈ specs, spec.isSteady = true)
    (hnamed : ∀ spec ∈ specs, spec.name ≠ Inherited.parentKey) (hparent : p.raw.parent = .common)
    (hdistinct : (p.values.map (·.1) ++ specs.map (·.name)).Nodup) (hp : p.fault? = none) :
    p.steps skill specs = { p with values := p.values ++ entriesIn p.raw.own specs } := by
  -- On the parameters to come; their names are not among those of the values found.
  induction specs generalizing p with
  | nil => simp [Progress.steps, entriesIn]
  | cons spec rest ih =>
    obtain ⟨hspec, hrest⟩ := List.forall_mem_cons.mp hstands
    obtain ⟨hspecsteady, hreststeady⟩ := List.forall_mem_cons.mp hsteady
    obtain ⟨hspecnamed, hrestnamed⟩ := List.forall_mem_cons.mp hnamed
    have hnew : spec.name ∉ p.values.map (·.1) := fun hmem =>
      (List.nodup_append.mp hdistinct).2.2 _ hmem _ List.mem_cons_self rfl
    have hnames : ((entryIn? p.raw.own spec).toList.map (·.1)).Sublist [spec.name] := by
      rw [entryIn?]
      cases (p.raw.own.get? spec.name).bind ofMember? <;> simp
    have hrestdistinct :
        ((p.values ++ (entryIn? p.raw.own spec).toList).map (·.1) ++ rest.map (·.name)).Nodup := by
      rw [List.map_append]
      refine hdistinct.sublist ?_
      rw [List.map_cons, ← List.singleton_append, ← List.append_assoc]
      exact ((List.Sublist.refl _).append hnames).append (List.Sublist.refl _)
    have hentries : entriesIn p.raw.own (spec :: rest) =
        (entryIn? p.raw.own spec).toList ++ entriesIn p.raw.own rest := by
      rw [entriesIn, List.filterMap_cons]
      cases entryIn? p.raw.own spec <;> rfl
    have hcons : p.steps skill (spec :: rest) = (p.step skill spec).steps skill rest := by
      simp only [Progress.steps, hp]
    rw [hcons, step_of_stands hspec hspecsteady hspecnamed hparent hnew, hentries,
      ← List.append_assoc]
    exact ih (p := { p with values := p.values ++ (entryIn? p.raw.own spec).toList }) hrest
      hreststeady hrestnamed hparent hrestdistinct hp

/-- Normalising leaves members in normal form as they are, if all parameters are steady. -/
theorem normalize_of_normal (hcoherent : skill.Coherent)
    (hsteady : ∀ spec ∈ skill.parameters, spec.isSteady = true) (h : Normal skill raw) :
    normalize skill raw = ⟨raw, .ok ⟨skill, entriesIn raw skill.parameters⟩, []⟩ := by
  have hkeys : ∀ key ∈ raw.keys, isParameter skill key = true := by
    intro key hkey
    obtain ⟨entry, hentry, rfl⟩ := List.mem_map.mp hkey
    exact h.declared entry hentry
  have hsteps : ({ raw := { own := raw } } : Progress).steps skill skill.parameters =
      { raw := { own := raw }, values := entriesIn raw skill.parameters } :=
    steps_of_stands h.standing hsteady hcoherent.named rfl (by simpa using hcoherent.distinct) rfl
  rw [normalize, progress, renameKeys_of_declared hkeys]
  dsimp only
  rw [hsteps]

/-- Normalising again gives the same parameters, changes nothing and has nothing to say. -/
theorem normalize_again {p : Params} (hcoherent : skill.Coherent)
    (hsteady : ∀ spec ∈ skill.parameters, spec.isSteady = true)
    (h : (normalize skill raw).result = .ok p) :
    normalize skill (normalize skill raw).raw = ⟨(normalize skill raw).raw, .ok p, []⟩ := by
  obtain ⟨hnormal, rfl⟩ := normal_of_normalize hcoherent h
  exact normalize_of_normal hcoherent hsteady hnormal

end Params

end SkillPipeline
