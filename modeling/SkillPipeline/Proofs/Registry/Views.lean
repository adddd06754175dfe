import SkillPipeline.Proofs.Document.Members
import SkillPipeline.Proofs.Registry.Derivation
import SkillPipeline.Proofs.Text.WhiteSpace
import SkillPipeline.Registry.Basic

namespace SkillPipeline

namespace Listing

inductive Part where
  | heading (c : Category)
  | entry (s : Skill)

namespace Part

def lines : Part → List String
  | heading c => ["", "## " ++ c.title]
  | entry s => s.listing

def skill? : Part → Option Skill
  | heading _ => none
  | entry s => some s

end Part

def parts (skillsOf : Category → List Skill) : List Part :=
  Category.all.flatMap fun c =>
    if (skillsOf c).isEmpty then [] else .heading c :: (skillsOf c).map .entry

/-- The text that consists of these parts. -/
def written (parts : List Part) : String :=
  Text.join "\n" ("# Available Skills" :: parts.flatMap (·.lines)) ++ "\n"

theorem text_eq_written (skillsOf : Category → List Skill) :
    text skillsOf = written (parts skillsOf) := by
  rw [text, written, parts, List.flatMap_assoc]
  congr 4
  funext c
  rw [Category.listing]
  split
  · rfl
  · rw [List.flatMap_cons, List.flatMap_map]
    rfl

theorem skills_parts (skillsOf : Category → List Skill) :
    (parts skillsOf).filterMap Part.skill? = Category.all.flatMap skillsOf := by
  rw [parts, List.filterMap_flatMap]
  congr 1
  funext c
  split
  · next hempty => rw [List.isEmpty_iff.mp hempty]; rfl
  · rw [List.filterMap_cons, List.filterMap_map]
    exact List.filterMap_some

end Listing

theorem perm_flatMap_category (categories : List Category) (h : categories.Nodup)
    (skills : List Skill) : (categories.flatMap fun c => skills.filter (·.category = c)).Perm
      (skills.filter (categories.contains ·.category)) := by
  induction categories with
  | nil => simp
  | cons c rest ih =>
    obtain ⟨hnew, hrest⟩ := List.nodup_cons.mp h
    have hown : (skills.filter ((c :: rest).contains ·.category)).filter (·.category = c) =
        skills.filter (·.category = c) := by
      rw [List.filter_filter]
      exact List.filter_congr fun s _ => by by_cases hc : s.category = c <;> simp [hc]
    have hother : (skills.filter ((c :: rest).contains ·.category)).filter
        (fun s => !decide (s.category = c)) = skills.filter (rest.contains ·.category) := by
      rw [List.filter_filter]
      exact List.filter_congr fun s _ => by by_cases hc : s.category = c <;> simp [hc, hnew]
    have hsplit := List.filter_append_perm (fun s : Skill => decide (s.category = c))
      (skills.filter ((c :: rest).contains ·.category))
    rw [hown, hother] at hsplit
    rw [List.flatMap_cons]
    exact ((ih hrest).append_left _).trans hsplit

theorem perm_flatMap_all (skills : List Skill) :
    (Category.all.flatMap fun c => skills.filter (·.category = c)).Perm skills := by
  have hperm := perm_flatMap_category Category.all (by decide) skills
  rwa [List.filter_eq_self.mpr fun s _ => by cases s.category <;> rfl] at hperm

/-- The schema defines skills of different names one by one, if none has the key of the parent for
its name. -/
theorem Schema.definitions_perm {skills : List Skill} (h : (skills.map (·.name)).Nodup)
    (hnames : ∀ s ∈ skills, s.name ≠ Inherited.parentKey) :
    (definitions skills).Perm (skills.map fun s => (s.name, s.schema)) := by
  have hkeys : ((skills.map fun s => (s.name, s.schema)).map Prod.fst).Nodup := by
    rwa [List.map_map]
  have hperm := Members.assigned_perm hkeys
  rwa [List.filter_eq_self.mpr] at hperm
  intro entry hentry
  obtain ⟨s, hs, rfl⟩ := List.mem_map.mp hentry
  exact Members.isAssignable_iff.mpr (hnames s hs)

namespace Text

theorem isEmpty_lower_trim (query : String) : (lower (trim query)).isEmpty = isBlankText query := by
  have hempty : lower (trim query) = "" ↔ isBlankText query = true := by
    rw [← String.toList_eq_nil_iff, lower, String.toList_ofList, lowerChars_eq_nil, trim,
      String.toList_ofList, trimChars_eq_nil, isBlankText, List.all_eq_true]
  rw [Bool.eq_iff_iff, ← hempty]
  exact String.isEmpty_iff

end Text

namespace Registry

variable {r : Registry}

theorem listByCategory_eq (h : r.index.Derived) (c : Category) :
    r.listByCategory c = r.list.filter (·.category = c) := by
  rw [listByCategory, h.byCategory c, h.resolve_filter]
  exact List.filter_congr fun s _ => by simp [eq_comm]

theorem listByTag_eq (h : r.index.Derived) (tag : String) :
    r.listByTag tag = r.list.filter fun s => (s.tags.map Text.lower).contains (Text.lower tag) := by
  rw [listByTag, h.byTag, h.resolve_filter]
  rfl

theorem search_eq (h : r.index.Derived) (query : String) :
    r.search query = if Text.isBlankText query then []
      else r.list.filter fun s => Text.contains s.searchText (Text.lower (Text.trim query)) := by
  rw [search, Text.isEmpty_lower_trim, h.searchTexts]
  split
  · rfl
  · rw [List.filter_map, List.map_map]
    simp only [Function.comp_def]
    exact h.resolve_filter _

def freshCatalogue (skills : List Skill) : String :=
  Listing.text fun c => skills.filter (·.category = c)

/-- The index agrees with the skills, and so does what the registry has worked out and keeps. -/
structure Current (r : Registry) : Prop where
  index : r.index.Derived
  catalogue : ∀ text, r.catalogue? = some text → text = freshCatalogue r.list
  schema : ∀ v, r.schema? = some v → v = Schema.document r.list

theorem current_changed {x : Index} (h : x.Derived) : (r.changed x).Current := ⟨h, nofun, nofun⟩

theorem catalogueText_run (h : r.Current) :
    (catalogueText.run r).1 = freshCatalogue r.list ∧ (catalogueText.run r).2.Current ∧
      (catalogueText.run r).2.index = r.index := by
  have hfresh : Listing.text r.listByCategory = freshCatalogue r.list :=
    congrArg Listing.text (funext fun c => listByCategory_eq h.index c)
  cases hkept : r.catalogue? with
  | some text =>
    have hrun : catalogueText.run r = (text, r) := by
      simp only [catalogueText, StateT.run_bind, StateT.run_get, pure_bind, hkept]
      rfl
    rw [hrun]
    exact ⟨h.catalogue text hkept, h, rfl⟩
  | none =>
    have hrun : catalogueText.run r = (freshCatalogue r.list,
        { r with catalogue? := some (freshCatalogue r.list) }) := by
      simp only [catalogueText, StateT.run_bind, StateT.run_get, pure_bind, hkept, ← hfresh]
      rfl
    rw [hrun]
    exact ⟨rfl, ⟨h.index, fun text htext => (Option.some.inj htext).symm, h.schema⟩, rfl⟩

theorem schema_run (h : r.Current) :
    (schema.run r).1 = Schema.document r.list ∧ (schema.run r).2.Current ∧
      (schema.run r).2.index = r.index := by
  cases hkept : r.schema? with
  | some v =>
    have hrun : schema.run r = (v, r) := by
      simp only [schema, StateT.run_bind, StateT.run_get, pure_bind, hkept]
      rfl
    rw [hrun]
    exact ⟨h.schema v hkept, h, rfl⟩
  | none =>
    have hrun : schema.run r = (Schema.document r.list,
        { r with schema? := some (Schema.document r.list) }) := by
      simp only [schema, StateT.run_bind, StateT.run_get, pure_bind, hkept]
      rfl
    rw [hrun]
    exact ⟨rfl, ⟨h.index, h.catalogue, fun v hv => (Option.some.inj hv).symm⟩, rfl⟩

/-- Reading that leaves nothing in a registry but what it has found free of cycles. -/
def OnlyRemembers {α : Type} (w : StateM Registry α) : Prop :=
  ∀ r, ∃ acyclic, (w.run r).2 = { r with acyclic }

theorem onlyRemembers_problemOf (s : Skill) : OnlyRemembers (problemOf s) := by
  intro r
  rw [problemOf]
  cases s.isPipeline with
  | false => exact ⟨r.acyclic, rfl⟩
  | true =>
    have hrun : (assertAcyclic s.name).run.run r = r.searchFrom s.name := rfl
    have hkept : ∃ acyclic, (r.searchFrom s.name).2 = { r with acyclic } := ⟨_, rfl⟩
    rw [Bool.not_true, if_neg Bool.false_ne_true, StateT.run_bind, hrun]
    generalize r.searchFrom s.name = found at hkept ⊢
    obtain ⟨outcome, r'⟩ := found
    cases outcome <;> exact hkept

theorem OnlyRemembers.mapM {α β : Type} {f : α → StateM Registry β} {l : List α}
    (h : ∀ a ∈ l, OnlyRemembers (f a)) : OnlyRemembers (l.mapM f) := by
  induction l with
  | nil => exact fun r => ⟨r.acyclic, rfl⟩
  | cons a rest ih =>
    obtain ⟨hfirst, hrest⟩ := List.forall_mem_cons.mp h
    intro r
    have hrun : (((a :: rest).mapM f).run r).2 = ((rest.mapM f).run ((f a).run r).2).2 := by
      rw [List.mapM_cons]
      rfl
    obtain ⟨passed, ha⟩ := hfirst r
    obtain ⟨passed', hothers⟩ := ih hrest { r with acyclic := passed }
    exact ⟨passed', by rw [hrun, ha, hothers]⟩

theorem onlyRemembers_verify : OnlyRemembers verify := fun r =>
  OnlyRemembers.mapM (fun s _ => onlyRemembers_problemOf s) r

/-- Something that is done with a registry and may leave something in it. -/
inductive Access where
  | register (s : Skill)
  | update (skills : List Skill)
  | catalogueText
  | schema
  | assertAcyclic (name : String)
  | verify

namespace Access

/-- What it leaves of the registry, also if it fails. -/
def run : Access → Registry → Registry
  | register s, r => r.register s
  | update skills, r => r.update skills
  | catalogueText, r => (Registry.catalogueText.run r).2
  | schema, r => (Registry.schema.run r).2
  | assertAcyclic name, r => ((Registry.assertAcyclic name).run.run r).2
  | verify, r => (Registry.verify.run r).2

def given : Access → List Skill
  | register s => [s]
  | update skills => skills
  | _ => []

end Access

/-- What is done with a registry keeps it current, and of each name the last definition counts. -/
theorem run_spec (h : r.Current) (a : Access) :
    (a.run r).Current ∧ ∀ name, (a.run r).index.find? name =
      (latest? a.given name).or (r.index.find? name) := by
  cases a with
  | register s =>
    refine ⟨current_changed (h.index.add s).derived, fun name => ?_⟩
    exact Index.find?_foldl_add h.index [s] name
  | update skills =>
    have hrebuilt := Index.derived_ofSkills r.index.skills
    have hsame (name : String) :
        (Index.ofSkills r.index.skills).find? name = r.index.find? name := by
      rw [Index.find?, Index.skills_ofSkills h.index.nodup, Index.find?]
    refine ⟨current_changed (hrebuilt.foldl_add skills).1, fun name => ?_⟩
    exact hsame name ▸ Index.find?_foldl_add hrebuilt skills name
  | catalogueText =>
    obtain ⟨-, hcurrent, hindex⟩ := catalogueText_run h
    exact ⟨hcurrent, fun name => congrArg (·.find? name) hindex⟩
  | schema =>
    obtain ⟨-, hcurrent, hindex⟩ := schema_run h
    exact ⟨hcurrent, fun name => congrArg (·.find? name) hindex⟩
  | assertAcyclic name => exact ⟨⟨h.index, h.catalogue, h.schema⟩, fun _ => rfl⟩
  | verify =>
    obtain ⟨acyclic, hrun⟩ := onlyRemembers_verify r
    rw [Access.run, hrun]
    exact ⟨⟨h.index, h.catalogue, h.schema⟩, fun _ => rfl⟩

/-- An empty registry after all that was done with it, one thing after the other. -/
def after (history : List Access) : Registry := history.foldl (fun r a => a.run r) {}

/-- The definitions that were given, in order. -/
def definitions (history : List Access) : List Skill := history.flatMap (·.given)

theorem after_spec (history : List Access) :
    (after history).Current ∧
      ∀ name, (after history).index.find? name = latest? (definitions history) name := by
  induction history using List.reverseRecOn with
  | nil => exact ⟨⟨Index.derived_empty, nofun, nofun⟩, fun _ => rfl⟩
  | append_singleton history a ih =>
    obtain ⟨hcurrent, hfind⟩ := ih
    obtain ⟨hnext, hlast⟩ := run_spec hcurrent a
    have hrun : after (history ++ [a]) = a.run (after history) := List.foldl_concat ..
    rw [hrun]
    refine ⟨hnext, fun name => ?_⟩
    have hdefinitions : definitions (history ++ [a]) = definitions history ++ a.given := by
      rw [definitions, List.flatMap_append, List.flatMap_singleton, definitions]
    rw [hlast, hfind, hdefinitions, latest?, latest?, latest?, List.reverse_append,
      List.find?_append]

/-- The registry tells of these definitions what they say. -/
structure Reflects (given : List Skill) (r : Registry) : Prop where
  nodup : r.names.Nodup
  /-- A skill is registered if it is the last definition of its name. -/
  mem_list : ∀ s, s ∈ r.list ↔ latest? given s.name = some s
  latest : ∀ name s, latest? given name = some s → r.get? name = some s
  listByCategory : ∀ c, r.listByCategory c = r.list.filter (·.category = c)
  listByTag : ∀ tag, r.listByTag tag =
    r.list.filter fun s => (s.tags.map Text.lower).contains (Text.lower tag)
  search : ∀ query, Text.isBlankText query = false → r.search query =
    r.list.filter fun s => Text.contains s.searchText (Text.lower (Text.trim query))
  search_blank : ∀ query, Text.isBlankText query = true → r.search query = []
  get? : ∀ word s, r.get? word = some s → s ∈ r.list ∧ (s.name = word ∨ word ∈ s.aliases)
  catalogue : (catalogueText.run r).1 = freshCatalogue r.list
  /-- The catalogue consists of headings and of the lines on each skill. -/
  listed : ∃ parts, freshCatalogue r.list = Listing.written parts ∧
    (parts.filterMap Listing.Part.skill?).Perm r.list
  schema : (schema.run r).1 = Schema.document r.list
  /-- The schema defines each skill, where none has the key of the parent for its name. -/
  defined : (∀ s ∈ r.list, s.name ≠ Inherited.parentKey) →
    (Schema.definitions r.list).Perm (r.list.map fun s => (s.name, s.schema))

/-- Whatever is done with a registry, what it tells of its skills are the definitions that it was
given. A blank query alone finds nothing, although it occurs in every text. -/
theorem reflects_after (history : List Access) :
    (after history).Reflects (definitions history) := by
  obtain ⟨hcurrent, hfind⟩ := after_spec history
  have hindex := hcurrent.index
  refine ⟨hindex.nodup, fun s => ?_, fun name s hlatest => ?_, listByCategory_eq hindex,
    listByTag_eq hindex, fun query hquery => ?_, fun query hquery => ?_, fun word s =>
    hindex.get?_spec, (catalogueText_run hcurrent).1, ?_, (schema_run hcurrent).1,
    Schema.definitions_perm hindex.nodup⟩
  · rw [← hfind, hindex.find?_eq_some]
    exact (and_iff_left rfl).symm
  · rw [← hfind] at hlatest
    rw [get?, Index.get?, hlatest, Option.some_or]
  · rw [search_eq hindex, hquery, if_neg Bool.false_ne_true]
  · rw [search_eq hindex, hquery, if_pos rfl]
  · refine ⟨_, Listing.text_eq_written _, ?_⟩
    rw [Listing.skills_parts]
    exact perm_flatMap_all _

def dissolveSkill : Skill where
  name := "dissolve"
  category := .visual
  strategy := .template "dissolve" .video

/-- A blank query finds no skill, although what is left of it occurs in the text of each. -/
theorem not_search_blank :
    (after [.register dissolveSkill]).search " " ≠
      (after [.register dissolveSkill]).list.filter fun s =>
        Text.contains s.searchText (Text.lower (Text.trim " ")) := fun h =>
  absurd (congrArg List.length h) (by decide +kernel)

end Registry

end SkillPipeline
