import SkillPipeline.Proofs.Registry.Views

namespace SkillPipeline

section Meaning

variable {x : Index} {defs : List Skill} {word name : String}

/-- What an alias means after some definitions, given what it has meant before. -/
def meaningAfter (defs : List Skill) (word : String) (before : Option String) : Option String :=
  defs.foldl (fun meaning d => if word ∈ d.aliases then some d.name
    else meaning.filter (· != d.name)) before

theorem Index.Derived.lookup_foldl_add (h : x.Derived) (defs : List Skill) (word : String) :
    (defs.foldl Index.add x).aliases.lookup word =
      meaningAfter defs word (x.aliases.lookup word) := by
  induction defs generalizing x with
  | nil => rfl
  | cons d rest ih =>
    obtain ⟨hderived, -, haliases⟩ := h.add d
    rw [List.foldl_cons, ih hderived, haliases]
    rfl

/-- A meaning lasts until the alias is declared again, or the skill is defined again. -/
theorem meaningAfter_kept (h : ∀ d ∈ defs, word ∉ d.aliases ∧ d.name ≠ name) :
    meaningAfter defs word (some name) = some name ∧ meaningAfter defs word none = none := by
  induction defs with
  | nil => exact ⟨rfl, rfl⟩
  | cons d rest ih =>
    obtain ⟨⟨hword, hname⟩, hrest⟩ := List.forall_mem_cons.mp h
    have hstep (meaning : Option String) : meaningAfter (d :: rest) word meaning =
        meaningAfter rest word (meaning.filter (· != d.name)) := by
      rw [meaningAfter, List.foldl_cons, if_neg hword, meaningAfter]
    rw [hstep, hstep, Option.filter_some, if_pos (bne_iff_ne.mpr hname.symm)]
    exact ih hrest

theorem meaningAfter_lost (h : ∃ d ∈ defs, word ∈ d.aliases ∨ d.name = name) :
    meaningAfter defs word (some name) = meaningAfter defs word none := by
  induction defs with
  | nil =>
    obtain ⟨d, hd, -⟩ := h
    cases hd
  | cons d rest ih =>
    rw [meaningAfter, meaningAfter, List.foldl_cons, List.foldl_cons]
    by_cases hword : word ∈ d.aliases
    · rw [if_pos hword, if_pos hword]
    · rw [if_neg hword, if_neg hword, Option.filter_some]
      by_cases hname : d.name = name
      · simp [hname]
      · rw [if_pos (bne_iff_ne.mpr (Ne.symm hname))]
        refine ih ?_
        obtain ⟨e, he, hcause⟩ := h
        obtain rfl | he := List.mem_cons.mp he
        · exact absurd hcause (not_or.mpr ⟨hword, hname⟩)
        · exact ⟨e, he, hcause⟩

/-- An alias means the skill that was last defined with it, as long as that skill still has it. -/
theorem Index.lookup_ofSkills_eq_some {given : List Skill} :
    (Index.ofSkills given).aliases.lookup word = some name ↔
      ∃ s t, declarer? given word = some s ∧ s.name = name ∧ latest? given name = some t ∧
        word ∈ t.aliases := by
  -- On the last definition: it takes its aliases over, and all others it takes from its own name.
  induction given using List.reverseRecOn with
  | nil => exact ⟨nofun, fun ⟨_, _, h, _⟩ => nomatch h⟩
  | append_singleton given d ih =>
    have hadd : Index.ofSkills (given ++ [d]) = (Index.ofSkills given).add d := List.foldl_concat ..
    rw [hadd, ((derived_ofSkills given).add d).aliases, declarer?_concat, latest?_concat]
    by_cases hword : word ∈ d.aliases
    · rw [if_pos hword, if_pos hword]
      constructor
      · intro h
        obtain rfl := Option.some.inj h
        exact ⟨d, d, rfl, rfl, if_pos rfl, hword⟩
      · rintro ⟨s, t, hs, rfl, -⟩
        rw [Option.some.inj hs]
    · rw [if_neg hword, if_neg hword, Option.filter_eq_some_iff, ih, bne_iff_ne]
      constructor
      · rintro ⟨⟨s, t, hs, rfl, ht, hmem⟩, hne⟩
        exact ⟨s, t, hs, rfl, by rw [if_neg hne.symm, ht], hmem⟩
      · rintro ⟨s, t, hs, rfl, ht, hmem⟩
        split at ht
        · obtain rfl := Option.some.inj ht
          exact absurd hmem hword
        · next hne => exact ⟨⟨s, t, hs, rfl, ht, hmem⟩, Ne.symm hne⟩

end Meaning

namespace Registry

variable {r : Registry} {defs : List Skill} {word : String} {s : Skill}

def registerAll (r : Registry) (defs : List Skill) : Registry := defs.foldl register r

theorem registerAll_spec (h : r.Current) (defs : List Skill) :
    (r.registerAll defs).Current ∧ (r.registerAll defs).index = defs.foldl Index.add r.index := by
  induction defs generalizing r with
  | nil => exact ⟨h, rfl⟩
  | cons d rest ih => exact ih (r := r.register d) (current_changed (h.index.add d).derived)

theorem update_current (h : r.Current) (defs : List Skill) : (r.update defs).Current :=
  (run_spec h (.update defs)).1

theorem list_update (h : r.Current) (defs : List Skill) :
    (r.update defs).list = (r.registerAll defs).list := by
  have hrebuilt := Index.derived_ofSkills r.index.skills
  rw [list, list, (registerAll_spec h defs).2, (h.index.foldl_add defs).2]
  change (defs.foldl Index.add (Index.ofSkills r.index.skills)).skills = _
  rw [(hrebuilt.foldl_add defs).2, Index.skills_ofSkills h.index.nodup]

/-- A list of registered skills or a text is the same in both registries. -/
structure Agree (r r' : Registry) : Prop where
  list : r.list = r'.list
  names : r.names = r'.names
  listByCategory : ∀ c, r.listByCategory c = r'.listByCategory c
  listByTag : ∀ tag, r.listByTag tag = r'.listByTag tag
  search : ∀ query, r.search query = r'.search query
  catalogue : (catalogueText.run r).1 = (catalogueText.run r').1
  schema : (schema.run r).1 = (schema.run r').1

theorem Current.agree {r' : Registry} (h : r.Current) (h' : r'.Current) (hlist : r.list = r'.list) :
    r.Agree r' where
  list := hlist
  names := congrArg (List.map _) hlist
  listByCategory c := by rw [listByCategory_eq h.index, listByCategory_eq h'.index, hlist]
  listByTag tag := by rw [listByTag_eq h.index, listByTag_eq h'.index, hlist]
  search query := by rw [search_eq h.index, search_eq h'.index, hlist]
  catalogue := by rw [(catalogueText_run h).1, (catalogueText_run h').1, hlist]
  schema := by rw [(schema_run h).1, (schema_run h').1, hlist]

/-- An alias that means nothing, that `s` is the last skill to declare, and that the definitions
have no bearing on. -/
structure Revives (r : Registry) (defs : List Skill) (word : String) (s : Skill) : Prop where
  unresolved : r.get? word = none
  declared : declarer? r.list word = some s
  untouched : ∀ d ∈ defs, d.name ≠ word ∧ d.name ≠ s.name ∧ word ∉ d.aliases

theorem find?_update (h : r.Current) (defs : List Skill) (name : String) :
    (r.update defs).index.find? name = (latest? defs name).or (r.index.find? name) :=
  (run_spec h (.update defs)).2 name

theorem find?_registerAll (h : r.Current) (defs : List Skill) (name : String) :
    (r.registerAll defs).index.find? name = (latest? defs name).or (r.index.find? name) := by
  rw [(registerAll_spec h defs).2, Index.find?_foldl_add h.index]

theorem lookup_update (h : r.Current) (defs : List Skill) (word : String) :
    (r.update defs).index.aliases.lookup word =
      meaningAfter defs word ((declarer? r.list word).map (·.name)) := by
  change (defs.foldl Index.add (Index.ofSkills r.index.skills)).aliases.lookup word = _
  rw [(Index.derived_ofSkills _).lookup_foldl_add, Index.lookup_ofSkills h.index.nodup]
  rfl

theorem lookup_registerAll (h : r.Current) (defs : List Skill) (word : String) :
    (r.registerAll defs).index.aliases.lookup word =
      meaningAfter defs word (r.index.aliases.lookup word) := by
  rw [(registerAll_spec h defs).2, h.index.lookup_foldl_add]

theorem get?_eq_none (h : r.Current) : r.get? word = none ↔
    r.index.find? word = none ∧ r.index.aliases.lookup word = none := by
  rw [get?, Index.get?, Option.or_eq_none_iff, Option.bind_eq_none_iff]
  refine and_congr_right fun _ => ⟨fun hnone => ?_, fun hnone name hname => ?_⟩
  · cases hlookup : r.index.aliases.lookup word with
    | none => rfl
    | some name =>
      obtain ⟨s, hs, rfl⟩ := h.index.aliases word name hlookup
      have hfound := h.index.find?_name (mem_of_declarer? hs).1
      rw [hnone s.name hlookup] at hfound
      cases hfound
  · rw [hnone] at hname
    cases hname

theorem get?_congr {r' : Registry} (hlist : r.list = r'.list)
    (hlookup : r.index.aliases.lookup word = r'.index.aliases.lookup word) :
    r.get? word = r'.get? word := by
  have hskills : r.index.skills = r'.index.skills := hlist
  have hfind : r.index.find? = r'.index.find? := by
    funext name
    rw [Index.find?, Index.find?, hskills]
  rw [get?, get?, Index.get?, Index.get?, hfind, hlookup]

theorem Revives.get? (h : r.Current) (hrevives : r.Revives defs word s) :
    (r.update defs).get? word = some s ∧ (r.registerAll defs).get? word = none := by
  obtain ⟨hunresolved, hdeclared, huntouched⟩ := hrevives
  obtain ⟨hfind, hlookup⟩ := (get?_eq_none h).mp hunresolved
  have hlatest (name : String) (hname : ∀ d ∈ defs, d.name ≠ name) : latest? defs name = none :=
    List.find?_eq_none.mpr fun d hd => by simpa using hname d (List.mem_reverse.mp hd)
  have hnoword := hlatest word fun d hd => (huntouched d hd).1
  have hnoname := hlatest s.name fun d hd => (huntouched d hd).2.1
  have huninvolved : ∀ d ∈ defs, word ∉ d.aliases ∧ d.name ≠ s.name := fun d hd =>
    ⟨(huntouched d hd).2.2, (huntouched d hd).2.1⟩
  obtain ⟨hkept, hnone⟩ := meaningAfter_kept huninvolved
  constructor
  · rw [Registry.get?, Index.get?, find?_update h, hnoword, hfind, lookup_update h, hdeclared,
      Option.map_some, hkept, Option.bind_some, find?_update h, hnoname,
      h.index.find?_name (mem_of_declarer? hdeclared).1]
    rfl
  · rw [get?_eq_none (registerAll_spec h defs).1, find?_registerAll h, hnoword, hfind,
      lookup_registerAll h, hlookup, hnone]
    exact ⟨rfl, rfl⟩

theorem get?_update (h : r.Current) (defs : List Skill) (word : String) :
    (r.update defs).get? word = (r.registerAll defs).get? word ∨
      ∃ s, r.Revives defs word s := by
  have hlist := list_update h defs
  -- A name that is registered in the end means its skill, and so do all aliases looked up alike.
  by_cases hfind : (r.update defs).index.find? word = none
  · have hnone := (find?_update h defs word).symm.trans hfind
    obtain ⟨hlatest, hbefore⟩ := Option.or_eq_none_iff.mp hnone
    cases hlookup : r.index.aliases.lookup word with
    | some name =>
      obtain ⟨s, hs, rfl⟩ : ∃ s, declarer? r.list word = some s ∧ s.name = name :=
        h.index.aliases word name hlookup
      refine .inl (get?_congr hlist ?_)
      rw [lookup_update h, lookup_registerAll h, hlookup, hs, Option.map_some]
    | none =>
      cases hdeclared : declarer? r.list word with
      | none =>
        refine .inl (get?_congr hlist ?_)
        rw [lookup_update h, lookup_registerAll h, hlookup, hdeclared, Option.map_none]
      | some s =>
        by_cases htouched : ∃ d ∈ defs, word ∈ d.aliases ∨ d.name = s.name
        · refine .inl (get?_congr hlist ?_)
          rw [lookup_update h, lookup_registerAll h, hlookup, hdeclared, Option.map_some,
            meaningAfter_lost htouched]
        · refine .inr ⟨s, (get?_eq_none h).mpr ⟨hbefore, hlookup⟩, hdeclared, fun d hd => ?_⟩
          have hname : d.name ≠ word := by
            simpa using List.find?_eq_none.mp hlatest d (List.mem_reverse.mpr hd)
          exact ⟨hname, fun heq => htouched ⟨d, hd, .inr heq⟩,
            fun hmem => htouched ⟨d, hd, .inl hmem⟩⟩
  · obtain ⟨s, hs⟩ := Option.ne_none_iff_exists'.mp hfind
    refine .inl ?_
    have hs' : (r.registerAll defs).index.find? word = some s := by
      rw [find?_registerAll h, ← find?_update h, hs]
    rw [get?, get?, Index.get?, Index.get?, hs, hs', Option.some_or, Option.some_or]

/-- The definitions from which the index is built, once something more is done: an update starts
from the skills that are there. -/
def Access.extend (given : List Skill) : Access → List Skill
  | register s => given ++ [s]
  | update skills => (Index.ofSkills given).skills ++ skills
  | _ => given

/-- The definitions from which the index is built. -/
def sources (history : List Access) : List Skill := history.foldl Access.extend []

theorem index_after (history : List Access) :
    (after history).index = Index.ofSkills (sources history) := by
  induction history using List.reverseRecOn with
  | nil => rfl
  | append_singleton history a ih =>
    have hrun : after (history ++ [a]) = a.run (after history) := List.foldl_concat ..
    have hsources : sources (history ++ [a]) = a.extend (sources history) := List.foldl_concat ..
    have hcurrent := (after_spec history).1
    rw [hrun, hsources]
    cases a with
    | register s =>
      change (after history).index.add s = _
      rw [ih]
      exact (List.foldl_concat ..).symm
    | update skills =>
      change skills.foldl Index.add (Index.ofSkills (after history).index.skills) = _
      rw [ih]
      exact List.foldl_append.symm
    | catalogueText => exact (catalogueText_run hcurrent).2.2.trans ih
    | schema => exact (schema_run hcurrent).2.2.trans ih
    | assertAcyclic name => exact ih
    | verify =>
      obtain ⟨acyclic, hrun⟩ := onlyRemembers_verify (after history)
      rw [Access.run, hrun]
      exact ih

/-- A word means something if it is a name, or if the skill that was last defined with it as an
alias still has it. -/
theorem has_after (history : List Access) (word : String) :
    (after history).has word = true ↔ word ∈ (after history).names ∨
      ∃ s, declarer? (sources history) word = some s ∧
        ∃ t ∈ (after history).list, t.name = s.name ∧ word ∈ t.aliases := by
  have hcurrent := (after_spec history).1
  have hlatest (name : String) :
      (after history).index.find? name = latest? (sources history) name := by
    rw [index_after]
    exact (Index.find?_foldl_add Index.derived_empty (sources history) name).trans Option.or_none
  have halias : (∃ name, (after history).index.aliases.lookup word = some name) ↔
      ∃ s, declarer? (sources history) word = some s ∧
        ∃ t ∈ (after history).list, t.name = s.name ∧ word ∈ t.aliases := by
    simp only [index_after history, Index.lookup_ofSkills_eq_some]
    constructor
    · rintro ⟨_, s, t, hs, rfl, ht, hword⟩
      obtain ⟨hmem, hname⟩ := hcurrent.index.find?_eq_some.mp ((hlatest s.name).trans ht)
      exact ⟨s, hs, t, hmem, hname, hword⟩
    · rintro ⟨s, hs, t, hmem, hname, hword⟩
      have ht := hcurrent.index.find?_eq_some.mpr ⟨hmem, hname⟩
      exact ⟨s.name, s, t, hs, rfl, (hlatest s.name).symm.trans ht, hword⟩
  rw [← halias, has, Option.isSome_iff_ne_none, ne_eq, get?_eq_none hcurrent,
    Index.find?_eq_none, not_and_or, not_not, ← ne_eq, Option.ne_none_iff_exists']
  rfl

/-- Updating a registry and registering the same skills one after the other agree on all lists and
texts. What a name or an alias means is the same but for the aliases that the update finds again, of
which it says what they mean. -/
theorem update_agrees (history : List Access) (defs : List Skill) :
    ((after history).update defs).Agree ((after history).registerAll defs) ∧
      (∀ word, ((after history).update defs).get? word =
          ((after history).registerAll defs).get? word ∨
        ∃ s, (after history).Revives defs word s) ∧
      (∀ word s, (after history).Revives defs word s ↔
        ((after history).update defs).get? word = some s ∧
          ((after history).registerAll defs).get? word = none) ∧
      ∀ word, (after history).has word = true ↔ word ∈ (after history).names ∨
        ∃ s, declarer? (sources history) word = some s ∧
          ∃ t ∈ (after history).list, t.name = s.name ∧ word ∈ t.aliases := by
  have hcurrent := (after_spec history).1
  have hupdate := update_current hcurrent defs
  have hregister := (registerAll_spec hcurrent defs).1
  refine ⟨hupdate.agree hregister (list_update hcurrent defs), get?_update hcurrent defs,
    fun word s => ⟨fun h => h.get? hcurrent, fun ⟨hbatch, hsingle⟩ => ?_⟩, has_after history⟩
  obtain hsame | ⟨t, ht⟩ := get?_update hcurrent defs word
  · rw [hbatch, hsingle] at hsame
    cases hsame
  · have hmeans := (ht.get? hcurrent).1
    obtain rfl : s = t := Option.some.inj (hbatch.symm.trans hmeans)
    exact ht

/-- Two skills declare an alias, and then the second one is defined again without it. -/
def bereaved : List Access := [
  .register { dissolveSkill with aliases := ["melt"] },
  .register { dissolveSkill with name := "blend", aliases := ["melt"] },
  .register { dissolveSkill with name := "blend" }]

/-- The first skill still declares the alias, but only an update finds it again. -/
theorem not_update_agrees :
    (∃ s ∈ (after bereaved).list, "melt" ∈ s.aliases) ∧
      ((after bereaved).registerAll []).get? "melt" = none ∧
        ((after bereaved).update []).get? "melt" ≠
          ((after bereaved).registerAll []).get? "melt" := by
  have hdeclared : ∃ s ∈ (after bereaved).list, "melt" ∈ s.aliases :=
    ⟨{ dissolveSkill with aliases := ["melt"] }, List.mem_cons_self, List.mem_singleton_self _⟩
  have hlost : ((after bereaved).registerAll []).get? "melt" = none :=
    Option.isNone_iff_eq_none.mp (by decide +kernel)
  have hfound : (((after bereaved).update []).get? "melt").isSome = true := by decide +kernel
  refine ⟨hdeclared, hlost, fun heq => ?_⟩
  rw [heq, hlost] at hfound
  cases hfound

end Registry

end SkillPipeline
