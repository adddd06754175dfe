import Mathlib.Data.List.Nodup
import Mathlib.Data.List.Pairwise
import SkillPipeline.Proofs.Document.Members
import SkillPipeline.Proofs.Skill.Normalization

namespace SkillPipeline

/-- Whether a key is a parameter's own name or another name of it. -/
def ParameterSpec.Names (spec : ParameterSpec) (key : String) : Prop :=
  key = spec.name ∨ key ∈ spec.aliases

instance (spec : ParameterSpec) (key : String) : Decidable (spec.Names key) :=
  inferInstanceAs (Decidable (_ ∨ _))

/-- All names that a skill knows its parameters by. -/
def Skill.parameterNames (skill : Skill) : List String :=
  skill.parameters.flatMap fun spec => spec.name :: spec.aliases

namespace Params

variable {skill : Skill} {raw other done rest : Members Value} {r r' : Record}
  {key name : String} {value : Value} {keys : List String} {spec spec' : ParameterSpec}

def canonicalKey (skill : Skill) (key : String) : String :=
  match skill.parameters.find? fun spec => spec.Names key with
  | some spec => spec.name
  | none => key

/-- The members with the own name of a parameter in place of every other name. -/
def canonical (skill : Skill) (raw : Members Value) : Members Value :=
  raw.map fun entry => (canonicalKey skill entry.1, entry.2)

/-- Keys that do not say which parameters are meant: one that names none, or two that name the
same. -/
inductive Unclear (skill : Skill) (keys : List String) : Prop
  | unknown {key : String} (mem : key ∈ keys)
      (nameless : ∀ spec ∈ skill.parameters, ¬spec.Names key)
  | twice {spec : ParameterSpec} {first second : String} (mem : spec ∈ skill.parameters)
      (first_mem : first ∈ keys) (second_mem : second ∈ keys) (apart : first ≠ second)
      (first_names : spec.Names first) (second_names : spec.Names second)

/-- Keys that do not reach the parent: one that names a parameter of the parent's key is that key
itself. -/
def Plain (skill : Skill) (keys : List String) : Prop :=
  ∀ key ∈ keys, ∀ spec ∈ skill.parameters, spec.Names key →
    spec.name = Inherited.parentKey → key = Inherited.parentKey

instance (skill : Skill) (keys : List String) : Decidable (Plain skill keys) :=
  inferInstanceAs (Decidable (∀ key ∈ keys, _))

theorem names_unique (hnames : skill.parameterNames.Nodup) (hspec : spec ∈ skill.parameters)
    (hspec' : spec' ∈ skill.parameters) (h : spec.Names key) (h' : spec'.Names key) :
    spec = spec' := by
  by_contra hne
  have hsymm : Std.Symm (Function.onFun List.Disjoint
      fun spec : ParameterSpec => spec.name :: spec.aliases) :=
    ⟨fun _ _ hdisjoint _ hmem hmem' => hdisjoint hmem' hmem⟩
  have hapart := (List.nodup_flatMap.mp hnames).2.forall hspec hspec' hne
  exact hapart (List.mem_cons.mpr h) (List.mem_cons.mpr h')

theorem canonicalKey_of_names (hnames : skill.parameterNames.Nodup)
    (hspec : spec ∈ skill.parameters) (h : spec.Names key) :
    canonicalKey skill key = spec.name := by
  unfold canonicalKey
  split
  · next found hfound =>
    have hfits := List.find?_some hfound
    rw [decide_eq_true_iff] at hfits
    rw [names_unique hnames (List.mem_of_find?_eq_some hfound) hspec hfits h]
  · next hnone => exact absurd (decide_eq_true h) (List.find?_eq_none.mp hnone spec hspec)

theorem canonicalKey_name (hnames : skill.parameterNames.Nodup)
    (hspec : spec ∈ skill.parameters) : canonicalKey skill spec.name = spec.name :=
  canonicalKey_of_names hnames hspec (.inl rfl)

theorem alias_of_aliased? (h : aliased? skill key = some spec) : key ∈ spec.aliases := by
  have hcontains := List.find?_some h
  exact List.contains_iff_mem.mp hcontains

theorem meant?_eq_some (hnames : skill.parameterNames.Nodup) : meant? skill key = some name ↔
    ∃ spec ∈ skill.parameters, spec.Names key ∧ spec.name = name := by
  constructor
  · intro h
    unfold meant? at h
    -- An own name counts before other names, and no two parameters share any name.
    split at h
    · next hparameter =>
      obtain ⟨spec, hspec, hname⟩ := List.any_eq_true.mp hparameter
      rw [beq_iff_eq] at hname
      exact ⟨spec, hspec, .inl hname.symm, hname.trans (Option.some.inj h)⟩
    · obtain ⟨spec, hspec, hname⟩ := Option.map_eq_some_iff.mp h
      exact ⟨spec, mem_of_aliased? hspec, .inr (alias_of_aliased? hspec), hname⟩
  · rintro ⟨spec, hspec, hnamed, rfl⟩
    unfold meant?
    split
    · next hparameter =>
      obtain ⟨spec', hspec', hname⟩ := List.any_eq_true.mp hparameter
      rw [beq_iff_eq] at hname
      rw [names_unique hnames hspec hspec' hnamed (.inl hname.symm), hname]
    · next hparameter =>
      have halias : key ∈ spec.aliases := by
        apply hnamed.resolve_left
        rintro rfl
        exact hparameter (isParameter_name hspec)
      cases hfound : aliased? skill key with
      | none =>
        have hnone := List.find?_eq_none.mp hfound spec (List.mem_reverse.mpr hspec)
        exact absurd (List.contains_iff_mem.mpr halias) hnone
      | some found =>
        rw [names_unique hnames hspec (mem_of_aliased? hfound) hnamed
          (.inr (alias_of_aliased? hfound))]
        rfl

theorem canonicalKey_of_meant? (hnames : skill.parameterNames.Nodup)
    (h : meant? skill key = some name) : canonicalKey skill key = name := by
  obtain ⟨spec, hspec, hnamed, rfl⟩ := (meant?_eq_some hnames).mp h
  exact canonicalKey_of_names hnames hspec hnamed

/-- Keys that name one parameter each, and different ones. -/
structure Clear (skill : Skill) (keys : List String) : Prop where
  meant : ∀ key ∈ keys, ∃ name, meant? skill key = some name
  apart : (keys.map (canonicalKey skill)).Nodup

theorem not_clear_of_unclear (hnames : skill.parameterNames.Nodup) (h : Unclear skill keys) :
    ¬Clear skill keys := by
  intro hclear
  cases h with
  | @unknown key mem nameless =>
    obtain ⟨name, hname⟩ := hclear.meant key mem
    obtain ⟨spec, hspec, hnamed, -⟩ := (meant?_eq_some hnames).mp hname
    exact nameless spec hspec hnamed
  | @twice spec first second mem first_mem second_mem apart first_names second_names =>
    apply apart
    apply List.inj_on_of_nodup_map hclear.apart first_mem second_mem
    rw [canonicalKey_of_names hnames mem first_names,
      canonicalKey_of_names hnames mem second_names]

theorem clear_of_not_unclear (hnames : skill.parameterNames.Nodup) (hkeys : keys.Nodup)
    (h : ¬Unclear skill keys) : Clear skill keys := by
  have hnamed : ∀ key ∈ keys, ∃ spec ∈ skill.parameters, spec.Names key := by
    intro key hkey
    by_contra hnone
    exact h (.unknown hkey fun spec hspec hfits => hnone ⟨spec, hspec, hfits⟩)
  constructor
  · intro key hkey
    obtain ⟨spec, hspec, hfits⟩ := hnamed key hkey
    exact ⟨spec.name, (meant?_eq_some hnames).mpr ⟨spec, hspec, hfits, rfl⟩⟩
  · refine List.Nodup.map_on (fun first hfirst second hsecond heq => ?_) hkeys
    obtain ⟨spec, hspec, hfits⟩ := hnamed first hfirst
    obtain ⟨spec', hspec', hfits'⟩ := hnamed second hsecond
    rw [canonicalKey_of_names hnames hspec hfits,
      canonicalKey_of_names hnames hspec' hfits'] at heq
    have hsame : spec = spec' :=
      names_unique hnames hspec hspec' (.inl rfl) (.inl heq)
    by_contra hne
    exact h (.twice hspec hfirst hsecond hne hfits (hsame ▸ hfits'))

theorem keys_canonical : (canonical skill raw).keys = raw.keys.map (canonicalKey skill) := by
  unfold canonical Members.keys
  rw [List.map_map, List.map_map]
  rfl

/-- A key that is renamed gives way to the own name of its parameter, and nothing else changes. -/
theorem renameKey_perm (hnames : skill.parameterNames.Nodup)
    (hplain : ∀ spec ∈ skill.parameters, spec.Names key → spec.name = Inherited.parentKey →
      key = Inherited.parentKey)
    (hr : r.own.Perm (canonical skill done ++ (key, value) :: rest)) (hdistinct : r.own.keys.Nodup)
    (h : renameKey skill r key = .ok r') :
    (∃ name, meant? skill key = some name) ∧ r'.own.keys.Nodup ∧ r'.parent = r.parent ∧
      r'.own.Perm (canonical skill (done ++ [(key, value)]) ++ rest) := by
  -- The key is the next one to be replaced by the own name that it means.
  have hcanonical {name : String} (hname : meant? skill key = some name) :
      canonical skill (done ++ [(key, value)]) ++ rest =
        canonical skill done ++ (name, value) :: rest := by
    unfold canonical
    rw [List.map_append, List.map_singleton, canonicalKey_of_meant? hnames hname,
      List.append_assoc, List.singleton_append]
  unfold renameKey at h
  split at h
  · next hparameter =>
    cases h
    have hmeant : meant? skill key = some key := by rw [meant?, if_pos hparameter]
    exact ⟨⟨key, hmeant⟩, hdistinct, rfl, hcanonical hmeant ▸ hr⟩
  · next hparameter =>
    split at h
    · cases h
    · next spec hspec =>
      have hmeant : meant? skill key = some spec.name := by
        rw [meant?, if_neg hparameter, hspec, Option.map_some]
      have hne : spec.name ≠ key := by
        rintro rfl
        exact hparameter (isParameter_name (mem_of_aliased? hspec))
      have hname : spec.name ≠ Inherited.parentKey := fun hname =>
        hne (hname.trans (hplain spec (mem_of_aliased? hspec) (.inr (alias_of_aliased? hspec))
          hname).symm)
      split at h
      · cases h
      · next hnew =>
        have hentry : (key, value) ∈ r.own :=
          hr.mem_iff.mpr (List.mem_append_right _ List.mem_cons_self)
        have hvalue : r.own.get? key = some value := Members.get?_of_mem hdistinct hentry
        rw [hvalue, Option.getD_some, Record.assign_of_ne hname] at h
        cases h
        rw [hcanonical hmeant]
        exact ⟨⟨_, hmeant⟩, Members.nodup_keys_erase (Members.nodup_keys_set hdistinct _ _) key,
          rfl, Members.erase_set_perm hr hdistinct (by simpa using hnew) hne⟩

/-- Renaming that gets to its end has renamed every key, and no two to the same name. -/
theorem renameKeys_perm (hnames : skill.parameterNames.Nodup) (hplain : Plain skill rest.keys)
    (hr : r.own.Perm (canonical skill done ++ rest)) (hdistinct : r.own.keys.Nodup)
    (h : renameKeys skill r rest.keys = (r', none)) :
    (∀ key ∈ rest.keys, ∃ name, meant? skill key = some name) ∧ r'.own.keys.Nodup ∧
      r'.parent = r.parent ∧ r'.own.Perm (canonical skill (done ++ rest)) := by
  -- On the members whose keys are still to be renamed.
  induction rest generalizing r done with
  | nil =>
    cases h
    rw [List.append_nil] at hr ⊢
    exact ⟨fun _ hkey => absurd hkey List.not_mem_nil, hdistinct, rfl, hr⟩
  | cons entry rest ih =>
    obtain ⟨key, value⟩ := entry
    obtain ⟨hkeyplain, hrestplain⟩ := List.forall_mem_cons.mp hplain
    rw [Members.keys, List.map_cons, renameKeys] at h
    split at h
    · next hkey =>
      obtain ⟨hmeant, hdistinct', hparent, hr'⟩ := renameKey_perm hnames hkeyplain hr hdistinct hkey
      obtain ⟨hrest, hend, hparent', hperm⟩ := ih hrestplain hr' hdistinct' h
      refine ⟨fun other hother => ?_, hend, hparent'.trans hparent, ?_⟩
      · rcases List.mem_cons.mp hother with rfl | hother
        · exact hmeant
        · exact hrest other hother
      · rwa [List.append_assoc, List.singleton_append] at hperm
    · cases h

theorem renameKey_error {f : Fault} (h : renameKey skill r key = .error f) :
    meant? skill key = none ∨
      ∃ name, meant? skill key = some name ∧ name ≠ key ∧ name ∈ r.own.keys := by
  unfold renameKey at h
  unfold meant?
  split at h
  · cases h
  · next hparameter =>
    rw [if_neg hparameter]
    split at h
    · next hnone => exact .inl (by rw [hnone, Option.map_none])
    · next spec hspec =>
      split at h
      · next hhas =>
        refine .inr ⟨spec.name, by rw [hspec, Option.map_some], ?_, Members.has_iff.mp hhas⟩
        rintro rfl
        exact hparameter (isParameter_name (mem_of_aliased? hspec))
      · cases h

theorem renameKeys_of_clear (hnames : skill.parameterNames.Nodup) (hplain : Plain skill rest.keys)
    (hclear : Clear skill (Members.keys (done ++ rest)))
    (hr : r.own.Perm (canonical skill done ++ rest)) (hdistinct : r.own.keys.Nodup) :
    (renameKeys skill r rest.keys).2 = none := by
  induction rest generalizing r done with
  | nil => rfl
  | cons entry rest ih =>
    obtain ⟨key, value⟩ := entry
    obtain ⟨hkeyplain, hrestplain⟩ := List.forall_mem_cons.mp hplain
    rw [Members.keys, List.map_cons, renameKeys]
    split
    · next hkey =>
      obtain ⟨-, hdistinct', -, hr'⟩ := renameKey_perm hnames hkeyplain hr hdistinct hkey
      refine ih hrestplain ?_ hr' hdistinct'
      rwa [List.append_assoc, List.singleton_append]
    · next hkey =>
      -- The own name would be taken by an earlier key that means the same, or by a later one.
      exfalso
      have happart := hclear.apart
      rw [Members.keys, List.map_append, List.map_append, List.map_cons, List.map_cons] at happart
      obtain ⟨-, hrest, hdone⟩ := List.nodup_append.mp happart
      rcases renameKey_error hkey with hnone | ⟨name, hname, hne, hmem⟩
      · obtain ⟨name, hname⟩ := hclear.meant key
          (List.mem_map.mpr ⟨(key, value), List.mem_append_right _ List.mem_cons_self, rfl⟩)
        rw [hnone] at hname
        cases hname
      · rw [canonicalKey_of_meant? hnames hname] at hrest hdone
        obtain ⟨spec, hspec, -, rfl⟩ := (meant?_eq_some hnames).mp hname
        have hwhere := ((hr.map Prod.fst).mem_iff).mp hmem
        rw [List.map_append, List.map_cons] at hwhere
        rcases List.mem_append.mp hwhere with hbefore | hafter
        · -- A key renamed before names the parameter too.
          rw [← Members.keys, keys_canonical] at hbefore
          exact hdone _ hbefore _ List.mem_cons_self rfl
        · -- The parameter's own name is still to come.
          have hlater := (List.mem_cons.mp hafter).resolve_left hne
          refine (List.nodup_cons.mp hrest).1 (List.mem_map.mpr ⟨_, hlater, ?_⟩)
          exact canonicalKey_name hnames hspec

/-- Two normalisations that have come to the same, but for the order of the members. -/
structure Progress.Alike (p q : Progress) : Prop where
  perm : p.raw.own.Perm q.raw.own
  distinct : p.raw.own.keys.Nodup
  parent : q.raw.parent = p.raw.parent
  values : q.values = p.values
  notices : q.notices = p.notices
  fault? : q.fault? = p.fault?

namespace Progress.Alike

variable {p q : Progress} {specs : List ParameterSpec}

theorem set (h : p.Alike q) (name : String) (w : ParamValue) :
    (p.set name w).Alike (q.set name w) := by
  obtain ⟨hperm, hdistinct, hparent⟩ :=
    Record.assign_perm h.perm h.distinct h.parent name w.document
  exact ⟨hperm, hdistinct, hparent, congrArg (put · name w) h.values, h.notices, h.fault?⟩

theorem step (h : p.Alike q) (skill : Skill) (spec : ParameterSpec) :
    (p.step skill spec).Alike (q.step skill spec) := by
  unfold Progress.step
  rw [Record.read_perm h.perm h.distinct h.parent]
  split
  · split
    · exact h.set _ _
    · split
      · exact { h with fault? := rfl }
      · exact { h with
          perm := Members.erase_perm h.perm spec.name
          distinct := Members.nodup_keys_erase h.distinct spec.name }
  · split
    · exact { h with fault? := rfl }
    · exact { h.set spec.name _ with notices := congrArg (· ++ _) h.notices }

/-- Whatever order the members are in, the declared parameters come to the same. -/
theorem steps (h : p.Alike q) (skill : Skill) :
    (p.steps skill specs).Alike (q.steps skill specs) := by
  induction specs generalizing p q with
  | nil => exact h
  | cons spec rest ih =>
    unfold Progress.steps
    rw [h.fault?]
    cases p.fault? with
    | some f => exact h
    | none => exact ih (h.step skill spec)

end Progress.Alike

theorem clear_perm (h : Clear skill keys) {keys' : List String} (hperm : keys'.Perm keys) :
    Clear skill keys' :=
  ⟨fun key hkey => h.meant key (hperm.mem_iff.mp hkey),
    (hperm.map (canonicalKey skill)).nodup_iff.mpr h.apart⟩

theorem canonicalKey_canonicalKey (hnames : skill.parameterNames.Nodup)
    (h : ∃ name, meant? skill key = some name) :
    meant? skill (canonicalKey skill key) = some (canonicalKey skill key) ∧
      canonicalKey skill (canonicalKey skill key) = canonicalKey skill key := by
  obtain ⟨name, hname⟩ := h
  rw [canonicalKey_of_meant? hnames hname]
  obtain ⟨spec, hspec, -, rfl⟩ := (meant?_eq_some hnames).mp hname
  exact ⟨meant?_name hspec, canonicalKey_name hnames hspec⟩

theorem clear_canonical (hnames : skill.parameterNames.Nodup) (h : Clear skill raw.keys) :
    Clear skill (canonical skill raw).keys ∧
      canonical skill (canonical skill raw) = canonical skill raw := by
  have htwice : ∀ key ∈ raw.keys,
      canonicalKey skill (canonicalKey skill key) = canonicalKey skill key :=
    fun key hkey => (canonicalKey_canonicalKey hnames (h.meant key hkey)).2
  constructor
  · rw [keys_canonical]
    constructor
    · intro key hkey
      obtain ⟨given, hgiven, rfl⟩ := List.mem_map.mp hkey
      exact ⟨_, (canonicalKey_canonicalKey hnames (h.meant given hgiven)).1⟩
    · have hsame : raw.keys.map (canonicalKey skill ∘ canonicalKey skill) =
          raw.keys.map (canonicalKey skill) := List.map_congr_left htwice
      rw [List.map_map, hsame]
      exact h.apart
  · conv_lhs => unfold canonical
    unfold canonical
    rw [List.map_map]
    refine List.map_congr_left fun entry hentry => ?_
    rw [Function.comp_apply, htwice entry.1 (List.mem_map_of_mem hentry)]

theorem exists_renameKeys (hnames : skill.parameterNames.Nodup) (hplain : Plain skill raw.keys)
    (h : Clear skill raw.keys) :
    ∃ renamed, renameKeys skill { own := raw } raw.keys = (renamed, none) ∧
      renamed.own.keys.Nodup ∧ renamed.parent = .common ∧
        renamed.own.Perm (canonical skill raw) := by
  have hdistinct : raw.keys.Nodup := h.apart.of_map
  have hstart : raw.Perm (canonical skill [] ++ raw) := .rfl
  have hnone : (renameKeys skill { own := raw } raw.keys).2 = none := by
    refine renameKeys_of_clear hnames hplain ?_ hstart hdistinct
    exact h
  obtain ⟨-, hrenamed⟩ := renameKeys_perm hnames hplain hstart hdistinct (Prod.ext rfl hnone)
  exact ⟨_, Prod.ext rfl hnone, hrenamed⟩

theorem progress_alike (hnames : skill.parameterNames.Nodup) (hplain : Plain skill raw.keys)
    (hplain' : Plain skill other.keys) (hraw : Clear skill raw.keys)
    (hother : Clear skill other.keys)
    (hperm : (canonical skill raw).Perm (canonical skill other)) :
    (progress skill raw).Alike (progress skill other) := by
  obtain ⟨renamed, hrename, hdistinct, hparent, hrenamed⟩ := exists_renameKeys hnames hplain hraw
  obtain ⟨renamed', hrename', -, hparent', hrenamed'⟩ := exists_renameKeys hnames hplain' hother
  have hstart : Progress.Alike { raw := renamed } { raw := renamed' } :=
    { perm := (hrenamed.trans hperm).trans hrenamed'.symm
      distinct := hdistinct
      parent := hparent'.trans hparent.symm
      values := rfl
      notices := rfl
      fault? := rfl }
  unfold progress
  rw [hrename, hrename']
  exact hstart.steps skill

theorem normalize_of_not_clear (hnames : skill.parameterNames.Nodup) (hplain : Plain skill raw.keys)
    (hkeys : raw.keys.Nodup) (h : ¬Clear skill raw.keys) :
    ∃ cause, (normalize skill raw).result = .error (.validation cause) := by
  cases hrename : renameKeys skill { own := raw } raw.keys with
  | mk renamed stopped =>
    cases stopped with
    | some f =>
      obtain ⟨cause, rfl⟩ := renameKeys_fault (congrArg Prod.snd hrename)
      exact ⟨cause, by rw [normalize, progress, hrename]⟩
    | none =>
      have hstart : raw.Perm (canonical skill [] ++ raw) := .rfl
      obtain ⟨hmeant, hdistinct, -, hperm⟩ := renameKeys_perm hnames hplain hstart hkeys hrename
      rw [List.nil_append] at hperm
      refine absurd ⟨hmeant, ?_⟩ h
      rw [← keys_canonical]
      exact (hperm.map Prod.fst).nodup_iff.mp hdistinct

theorem plain_perm (h : Plain skill keys) {keys' : List String} (hperm : keys'.Perm keys) :
    Plain skill keys' := fun key hkey => h key (hperm.mem_iff.mp hkey)

theorem plain_canonical (hnames : skill.parameterNames.Nodup) (h : Clear skill raw.keys) :
    Plain skill (canonical skill raw).keys := by
  rw [keys_canonical]
  intro key hkey spec hspec hfits hname
  obtain ⟨given, hgiven, rfl⟩ := List.mem_map.mp hkey
  obtain ⟨name, hmeant⟩ := h.meant given hgiven
  rw [canonicalKey_of_meant? hnames hmeant] at hfits ⊢
  obtain ⟨spec', hspec', -, rfl⟩ := (meant?_eq_some hnames).mp hmeant
  rw [names_unique hnames hspec' hspec (.inl rfl) hfits, hname]

/-- Other names of parameters and the order of the keys are not seen in what comes of members that
do not reach their parent. If a key names no parameter or two keys name the same, the request is at
fault. Otherwise the members with every key replaced by its parameter's own name, and the members in
any other order, come to the same parameters or the same fault, say the same and leave the same
members behind. -/
theorem normalize_by_any_name (skill : Skill) (raw : Members Value)
    (hnames : skill.parameterNames.Nodup) (hkeys : raw.keys.Nodup)
    (hplain : Plain skill raw.keys) :
    (Unclear skill raw.keys →
      ∃ cause, (normalize skill raw).result = .error (.validation cause)) ∧
    (¬Unclear skill raw.keys → ∀ other : Members Value,
      other.Perm raw ∨ other.Perm (canonical skill raw) →
      (normalize skill other).result = (normalize skill raw).result ∧
        (normalize skill other).notices = (normalize skill raw).notices ∧
        (normalize skill other).raw.Perm (normalize skill raw).raw) := by
  constructor
  · intro hunclear
    exact normalize_of_not_clear hnames hplain hkeys (not_clear_of_unclear hnames hunclear)
  · intro hclear other hother
    have hraw := clear_of_not_unclear hnames hkeys hclear
    have hother : Plain skill other.keys ∧ Clear skill other.keys ∧
        (canonical skill raw).Perm (canonical skill other) := by
      rcases hother with hperm | hperm
      · exact ⟨plain_perm hplain (hperm.map Prod.fst), clear_perm hraw (hperm.map Prod.fst),
          (hperm.map _).symm⟩
      · obtain ⟨hcanonical, hsame⟩ := clear_canonical hnames hraw
        refine ⟨plain_perm (plain_canonical hnames hraw) (hperm.map Prod.fst),
          clear_perm hcanonical (hperm.map Prod.fst), ?_⟩
        conv_lhs => rw [← hsame]
        exact (hperm.map _).symm
    -- Once the keys are renamed both sides have the same members in some order.
    have halike := progress_alike hnames hplain hother.1 hraw hother.2.1 hother.2.2
    unfold normalize
    dsimp only
    rw [halike.fault?, halike.values, halike.notices]
    exact ⟨rfl, rfl, halike.perm.symm⟩

/-- A crop of which the width is given by another name: its size in either order comes to the same,
and the width by two names is a fault. -/
theorem normalize_by_any_name_crop :
    let skill : Skill :=
      { name := "crop", category := .spatial, strategy := .handler "crop"
        parameters := [{ name := "width", type := .string, aliases := ["w"], required := true },
          { name := "height", type := .string, aliases := ["h", "tall"] }] }
    (∃ cause, (normalize skill [("w", .string "640"), ("width", .string "640")]).result =
        .error (.validation cause)) ∧
      (normalize skill [("height", .string "360"), ("width", .string "640")]).result =
        (normalize skill [("w", .string "640"), ("tall", .string "360")]).result ∧
      (normalize skill [("w", .string "640"), ("tall", .string "360")]).result =
        .ok ⟨skill, [("width", .text "640"), ("height", .text "360")]⟩ := by
  intro skill
  have hnames : skill.parameterNames.Nodup := by decide
  have htwice : Unclear skill ["w", "width"] := by
    have hmem : skill.parameters[0] ∈ skill.parameters := List.getElem_mem _
    have hw : "w" ∈ ["w", "width"] := List.mem_cons_self
    have hwidth : "width" ∈ ["w", "width"] := by decide
    exact .twice hmem hw hwidth (by decide) (.inr (by decide)) (.inl rfl)
  have hclear : Clear skill ["w", "tall"] := by
    refine ⟨?_, by decide⟩
    simp only [List.forall_mem_cons]
    exact ⟨⟨"width", rfl⟩, ⟨"height", rfl⟩, fun _ hkey => absurd hkey List.not_mem_nil⟩
  refine ⟨(normalize_by_any_name skill _ hnames (by decide) (by decide)).1 htwice,
    ((normalize_by_any_name skill _ hnames (by decide) (by decide)).2 ?_ _ (.inr ?_)).1, rfl⟩
  · exact fun hunclear => not_clear_of_unclear hnames hunclear hclear
  · exact List.Perm.swap _ _ _

end Params

end SkillPipeline
