import Mathlib.Data.List.Nodup
import SkillPipeline.Registry.Index
import Mathlib.Data.List.Induction

namespace SkillPipeline

section Lookup

variable {κ β : Type} [BEq κ] [LawfulBEq κ]

theorem lookup_map_values {γ : Type} (h : κ → β → γ) (l : List (κ × β)) (key : κ) :
    (l.map fun p => (p.1, h p.1 p.2)).lookup key = (l.lookup key).map (h key) := by
  induction l with
  | nil => rfl
  | cons p rest ih =>
    rw [List.map_cons, List.lookup_cons, List.lookup_cons, ih]
    split
    · next heq => rw [eq_of_beq heq]; rfl
    · rfl

theorem lookup_eq_none_of_any {l : List (κ × β)} {key : κ} (h : ¬l.any (·.1 == key) = true) :
    l.lookup key = none := by
  refine List.lookup_eq_none_iff.mpr fun p hp => ?_
  rw [bne_iff_ne]
  rintro rfl
  exact h (List.any_eq_true.mpr ⟨p, hp, beq_self_eq_true _⟩)

theorem mem_keys_of_lookup {l : List (κ × β)} {key : κ} {b : β} (h : l.lookup key = some b) :
    key ∈ l.map Prod.fst := by
  obtain ⟨before, after, rfl, -⟩ := List.lookup_eq_some_iff.mp h
  exact List.mem_map.mpr ⟨(key, b), by simp, rfl⟩

theorem lookup_filter {l : List (κ × β)} (hl : (l.map Prod.fst).Nodup) (keep : κ × β → Bool)
    (key : κ) : (l.filter keep).lookup key = (l.lookup key).filter fun b => keep (key, b) := by
  induction l with
  | nil => rfl
  | cons p rest ih =>
    obtain ⟨hfirst, hrest⟩ := List.nodup_cons.mp hl
    rw [List.filter_cons, List.lookup_cons]
    cases hkey : key == p.1 with
    | false =>
      split
      · rw [List.lookup_cons, hkey]
        exact ih hrest
      · exact ih hrest
    | true =>
      obtain rfl : key = p.1 := eq_of_beq hkey
      dsimp only
      split
      · next hkeep => rw [List.lookup_cons, hkey, Option.filter_some, if_pos hkeep]
      · next hkeep =>
        rw [ih hrest, Option.filter_some, if_neg hkeep]
        cases hlookup : rest.lookup p.1 with
        | none => rfl
        | some b => exact absurd (mem_keys_of_lookup hlookup) hfirst

end Lookup

namespace Filing

variable {κ : Type} [DecidableEq κ] {f : Filing κ} {skills : List Skill} {s : Skill}

theorem names_insert (f : Filing κ) (key other : κ) (name : String) :
    (f.insert key name).names other =
      if other = key ∧ name ∉ f.names other then f.names other ++ [name] else f.names other := by
  rw [insert, names, names]
  split
  -- The key is there already, so its names may get one more.
  · next hany =>
    have hmap : (f.map fun p =>
        if p.1 == key && !p.2.contains name then (p.1, p.2 ++ [name]) else p) =
        f.map fun p => (p.1, if p.1 == key && !p.2.contains name then p.2 ++ [name] else p.2) :=
      List.map_congr_left fun p _ => by split <;> rfl
    rw [hmap, lookup_map_values fun k names =>
      if k == key && !names.contains name then names ++ [name] else names]
    cases hlookup : f.lookup other with
    | some names => simp
    | none =>
      have hne : other ≠ key := by
        rintro rfl
        obtain ⟨p, hp, hkey⟩ := List.any_eq_true.mp hany
        exact bne_iff_ne.mp (List.lookup_eq_none_iff.mp hlookup p hp) (eq_of_beq hkey).symm
      simp [hne]
  · next hany =>
    rw [List.lookup_append]
    by_cases hkey : other = key
    · subst hkey
      rw [lookup_eq_none_of_any hany]
      simp
    · simp [List.lookup_cons, hkey, beq_eq_false_iff_ne.mpr hkey]

theorem names_remove (f : Filing κ) (key other : κ) (name : String) :
    (f.remove key name).names other =
      if other = key then (f.names other).filter (· != name) else f.names other := by
  have hmap : f.remove key name =
      f.map fun p => (p.1, if p.1 == key then p.2.filter (· != name) else p.2) :=
    List.map_congr_left fun p _ => by split <;> rfl
  rw [hmap, names, names,
    lookup_map_values fun k (names : List String) =>
      if k == key then names.filter (· != name) else names]
  by_cases hkey : other = key <;> cases f.lookup other <;> simp [hkey]

theorem names_foldl_insert (f : Filing κ) (keys : List κ) (other : κ) (name : String) :
    (keys.foldl (fun f key => f.insert key name) f).names other =
      if other ∈ keys ∧ name ∉ f.names other then f.names other ++ [name] else f.names other := by
  induction keys generalizing f with
  | nil => simp
  | cons key rest ih =>
    rw [List.foldl_cons, ih, names_insert]
    by_cases hkey : other = key
    · subst hkey
      by_cases hname : name ∈ f.names other <;> simp [hname]
    · simp [hkey]

theorem names_foldl_remove (f : Filing κ) (keys : List κ) (other : κ) (name : String) :
    (keys.foldl (fun f key => f.remove key name) f).names other =
      if other ∈ keys then (f.names other).filter (· != name) else f.names other := by
  induction keys generalizing f with
  | nil => simp
  | cons key rest ih =>
    rw [List.foldl_cons, ih, names_remove]
    by_cases hkey : other = key
    · subst hkey
      by_cases hrest : other ∈ rest <;> simp [hrest, List.filter_filter]
    · simp [hkey]

/-- Under each key are the names of the skills that have it among their keys, in their order. -/
def Holds (f : Filing κ) (keys : Skill → List κ) (skills : List Skill) : Prop :=
  ∀ key, f.names key = (skills.filter fun s => (keys s).contains key).map (·.name)

theorem holds_nil (keys : Skill → List κ) : Holds ([] : Filing κ) keys [] := fun _ => rfl

theorem Holds.insert {keys : Skill → List κ} (h : f.Holds keys skills)
    (hnew : s.name ∉ skills.map (·.name)) :
    Holds ((keys s).foldl (fun f key => f.insert key s.name) f) keys (skills ++ [s]) := by
  intro key
  have hnames : s.name ∉ f.names key := fun hmem => by
    rw [h key] at hmem
    obtain ⟨t, ht, hname⟩ := List.mem_map.mp hmem
    exact hnew (List.mem_map.mpr ⟨t, (List.mem_filter.mp ht).1, hname⟩)
  rw [names_foldl_insert, List.filter_append, List.map_append, ← h key]
  by_cases hkey : key ∈ keys s <;> simp [hkey, hnames]

theorem Holds.remove {keys : Skill → List κ} (h : f.Holds keys skills)
    (hnodup : (skills.map (·.name)).Nodup) (hs : s ∈ skills) :
    Holds ((keys s).foldl (fun f key => f.remove key s.name) f) keys
      (skills.filter (·.name != s.name)) := by
  intro key
  have hfilter : ((skills.filter fun t => (keys t).contains key).map (·.name)).filter
      (· != s.name) =
      ((skills.filter (·.name != s.name)).filter fun t => (keys t).contains key).map (·.name) := by
    rw [List.filter_map, List.filter_filter, List.filter_filter]
    congr 1
    exact List.filter_congr fun t _ => Bool.and_comm _ _
  rw [names_foldl_remove, h key]
  split
  · exact hfilter
  · next hkey =>
    -- The name is not filed under keys that its skill does not have, as no other skill has it.
    rw [← hfilter, eq_comm, List.filter_eq_self]
    intro name hname
    obtain ⟨t, ht, rfl⟩ := List.mem_map.mp hname
    obtain ⟨hmem, hhas⟩ := List.mem_filter.mp ht
    rw [bne_iff_ne]
    intro heq
    obtain rfl := List.inj_on_of_nodup_map hnodup hmem hs heq
    exact hkey (List.contains_iff_mem.mp hhas)

end Filing

end SkillPipeline

namespace SkillPipeline

def latest? (given : List Skill) (name : String) : Option Skill :=
  given.reverse.find? (·.name == name)

/-- The last of the skills that declare an alias. -/
def declarer? (skills : List Skill) (word : String) : Option Skill :=
  skills.reverse.find? (·.aliases.contains word)

/-- The skills once one more is defined, which comes last. -/
def redefine (skills : List Skill) (s : Skill) : List Skill :=
  skills.filter (·.name != s.name) ++ [s]

section Definitions

variable {given skills : List Skill} {s t : Skill} {name word : String}

theorem latest?_concat (given : List Skill) (s : Skill) (name : String) :
    latest? (given ++ [s]) name = if s.name = name then some s else latest? given name := by
  rw [latest?, List.reverse_concat, List.find?_cons, ← latest?]
  by_cases h : s.name = name
  · simp [h]
  · rw [if_neg h, beq_eq_false_iff_ne.mpr h]

theorem declarer?_concat (skills : List Skill) (s : Skill) (word : String) :
    declarer? (skills ++ [s]) word =
      if word ∈ s.aliases then some s else declarer? skills word := by
  rw [declarer?, List.reverse_concat, List.find?_cons, ← declarer?]
  by_cases h : word ∈ s.aliases <;> simp [h]

theorem mem_of_declarer? (h : declarer? skills word = some s) :
    s ∈ skills ∧ word ∈ s.aliases :=
  ⟨List.mem_reverse.mp (List.mem_of_find?_eq_some h), by simpa using List.find?_some h⟩

theorem declarer?_filter (h : declarer? skills word = some s) (hname : s.name ≠ name) :
    declarer? (skills.filter (·.name != name)) word = some s := by
  rw [declarer?, ← List.filter_reverse, List.find?_filter]
  obtain ⟨hdeclares, before, after, heq, hbefore⟩ := List.find?_eq_some_iff_append.mp h
  refine List.find?_eq_some_iff_append.mpr ⟨?_, before, after, heq, fun t ht => ?_⟩
  · rw [hdeclares, bne_iff_ne.mpr hname]
    rfl
  · have hnot := hbefore t ht
    simp_all

theorem foldl_redefine (skills : List Skill) (h : ((given ++ skills).map (·.name)).Nodup) :
    skills.foldl redefine given = given ++ skills := by
  induction skills generalizing given with
  | nil => exact (List.append_nil given).symm
  | cons s rest ih =>
    have hkept : given.filter (·.name != s.name) = given := by
      refine List.filter_eq_self.mpr fun t ht => bne_iff_ne.mpr fun heq => ?_
      rw [List.map_append, List.map_cons] at h
      have hdisjoint := (List.nodup_append.mp h).2.2 t.name (List.mem_map_of_mem ht) s.name
        List.mem_cons_self
      exact hdisjoint heq
    have hassoc : given ++ s :: rest = given ++ [s] ++ rest := by simp
    rw [List.foldl_cons, redefine, hkept, ih (hassoc ▸ h), hassoc]

end Definitions

namespace Index

variable {x : Index} {s t : Skill} {name word : String}

/-- Every part of the index agrees with its skills. An alias means the last skill that declares it,
if it means any. -/
structure Derived (x : Index) : Prop where
  nodup : (x.skills.map (·.name)).Nodup
  byCategory : x.byCategory.Holds (fun s => [s.category]) x.skills
  byTag : x.byTag.Holds (fun s => s.tags.map Text.lower) x.skills
  searchTexts : x.searchTexts = x.skills.map fun s => (s.name, s.searchText)
  distinct : (x.aliases.map Prod.fst).Nodup
  aliases : ∀ word name, x.aliases.lookup word = some name →
    ∃ s, declarer? x.skills word = some s ∧ s.name = name

theorem derived_empty : Derived {} :=
  ⟨List.nodup_nil, Filing.holds_nil _, Filing.holds_nil _, rfl, List.nodup_nil, nofun⟩

theorem Derived.find?_name (h : x.Derived) (hs : s ∈ x.skills) : x.find? s.name = some s := by
  cases hfind : x.find? s.name with
  | none => exact absurd (beq_self_eq_true s.name) (List.find?_eq_none.mp hfind s hs)
  | some t =>
    have hname : t.name = s.name := by simpa using List.find?_some hfind
    have hfound := List.mem_of_find?_eq_some hfind
    exact congrArg some (List.inj_on_of_nodup_map h.nodup hfound hs hname)

theorem Derived.find?_eq_some (h : x.Derived) :
    x.find? name = some s ↔ s ∈ x.skills ∧ s.name = name := by
  constructor
  · exact fun hfind => ⟨List.mem_of_find?_eq_some hfind, by simpa using List.find?_some hfind⟩
  · rintro ⟨hs, rfl⟩
    exact h.find?_name hs

theorem find?_eq_none : x.find? name = none ↔ name ∉ x.skills.map (·.name) := by
  rw [find?, List.find?_eq_none, List.mem_map]
  simp

theorem Derived.resolve_filter (h : x.Derived) (keep : Skill → Bool) :
    x.resolve ((x.skills.filter keep).map (·.name)) = x.skills.filter keep := by
  have hfind : ∀ t ∈ x.skills.filter keep, x.find? t.name = some t := fun t ht =>
    h.find?_name (List.mem_filter.mp ht).1
  rw [resolve, List.filterMap_map]
  exact (List.filterMap_congr hfind).trans List.filterMap_some

/-- What a name or an alias means is registered, and has the name or declares the alias. -/
theorem Derived.get?_spec (h : x.Derived) (hget : x.get? word = some s) :
    s ∈ x.skills ∧ (s.name = word ∨ word ∈ s.aliases) := by
  obtain hfind | ⟨-, halias⟩ := Option.or_eq_some_iff.mp hget
  · obtain ⟨hs, hname⟩ := h.find?_eq_some.mp hfind
    exact ⟨hs, .inl hname⟩
  · obtain ⟨name, hlookup, hfind⟩ := Option.bind_eq_some_iff.mp halias
    obtain ⟨t, hdeclarer, rfl⟩ := h.aliases word name hlookup
    obtain ⟨ht, hword⟩ := mem_of_declarer? hdeclarer
    obtain rfl : t = s := Option.some.inj ((h.find?_name ht).symm.trans hfind)
    exact ⟨ht, .inr hword⟩

theorem keys_setAlias (aliases : List (String × String)) (word name : String) :
    (setAlias aliases word name).map Prod.fst =
      if aliases.any (·.1 == word) then aliases.map Prod.fst
      else aliases.map Prod.fst ++ [word] := by
  rw [setAlias]
  split
  · rw [List.map_map]
    refine List.map_congr_left fun p _ => ?_
    rw [Function.comp_apply]
    split
    · next hp => exact (eq_of_beq hp).symm
    · rfl
  · rw [List.map_append]
    rfl

theorem lookup_setAlias (aliases : List (String × String)) (word other name : String) :
    (setAlias aliases word name).lookup other =
      if other = word then some name else aliases.lookup other := by
  rw [setAlias]
  split
  · next hany =>
    have hmap : (aliases.map fun p => if p.1 == word then (word, name) else p) =
        aliases.map fun p => (p.1, if p.1 == word then name else p.2) :=
      List.map_congr_left fun p _ => by split <;> simp_all
    rw [hmap, lookup_map_values fun key (value : String) => if key == word then name else value]
    by_cases hkey : other = word
    · obtain ⟨p, hp, hword⟩ := List.any_eq_true.mp hany
      cases hlookup : aliases.lookup other with
      | none =>
        exact absurd (hkey.trans (eq_of_beq hword).symm)
          (bne_iff_ne.mp (List.lookup_eq_none_iff.mp hlookup p hp))
      | some value => simp [hkey]
    · simp [hkey]
  · next hany =>
    rw [List.lookup_append]
    by_cases hkey : other = word
    · rw [hkey, lookup_eq_none_of_any hany]
      simp
    · simp [List.lookup_cons, hkey, beq_eq_false_iff_ne.mpr hkey]

theorem distinct_setAlias {aliases : List (String × String)} (h : (aliases.map Prod.fst).Nodup)
    (word name : String) : ((setAlias aliases word name).map Prod.fst).Nodup := by
  rw [keys_setAlias]
  split
  · exact h
  · next hany =>
    rw [← List.concat_eq_append, List.nodup_concat]
    refine ⟨fun hmem => hany ?_, h⟩
    obtain ⟨p, hp, rfl⟩ := List.mem_map.mp hmem
    exact List.any_eq_true.mpr ⟨p, hp, beq_self_eq_true _⟩

theorem foldl_setAlias {aliases : List (String × String)} (h : (aliases.map Prod.fst).Nodup)
    (words : List String) (name : String) :
    ((words.foldl (fun aliases word => setAlias aliases word name) aliases).map Prod.fst).Nodup ∧
      ∀ other, (words.foldl (fun aliases word => setAlias aliases word name) aliases).lookup other =
        if other ∈ words then some name else aliases.lookup other := by
  induction words generalizing aliases with
  | nil => exact ⟨h, by simp⟩
  | cons word rest ih =>
    obtain ⟨hdistinct, hlookup⟩ := ih (distinct_setAlias h word name)
    refine ⟨hdistinct, fun other => ?_⟩
    rw [List.foldl_cons, hlookup, lookup_setAlias]
    by_cases hkey : other = word <;> simp [hkey]

/-- The index without the skill of a name, if there is one. -/
def vacate (x : Index) (name : String) : Index :=
  match x.find? name with
  | some previous => x.remove previous
  | none => x

theorem add_eq_insert (x : Index) (s : Skill) : x.add s = (x.vacate s.name).insert s := by
  rw [add, vacate]
  cases x.find? s.name <;> rfl

/-- Of one index another comes about that is derived as well, holds these skills, and lets aliases
mean this. -/
structure Becomes (x : Index) (skills : List Skill) (meaning : String → Option String) : Prop where
  derived : x.Derived
  skills : x.skills = skills
  aliases : ∀ word, x.aliases.lookup word = meaning word

theorem Derived.vacate (h : x.Derived) (name : String) :
    (x.vacate name).Becomes (x.skills.filter (·.name != name))
      fun word => (x.aliases.lookup word).filter (· != name) := by
  rw [Index.vacate]
  cases hfind : x.find? name with
  | none =>
    have hnot : ∀ t ∈ x.skills, (t.name != name) = true := fun t ht => bne_iff_ne.mpr fun heq =>
      find?_eq_none.mp hfind (heq ▸ List.mem_map_of_mem ht)
    refine ⟨h, (List.filter_eq_self.mpr hnot).symm, fun word => ?_⟩
    cases hlookup : x.aliases.lookup word with
    | none => rfl
    | some other =>
      obtain ⟨t, hdeclarer, rfl⟩ := h.aliases word other hlookup
      rw [Option.filter_some, if_pos (hnot t (mem_of_declarer? hdeclarer).1)]
  | some previous =>
    obtain ⟨hprevious, rfl⟩ := h.find?_eq_some.mp hfind
    -- The aliases that go are those that mean the skill, and no other skill has its name.
    have haliases (word : String) : (x.remove previous).aliases.lookup word =
        (x.aliases.lookup word).filter (· != previous.name) := by
      rw [remove, lookup_filter h.distinct]
      cases hlookup : x.aliases.lookup word with
      | none => rfl
      | some other =>
        obtain ⟨t, hdeclarer, rfl⟩ := h.aliases word other hlookup
        obtain ⟨ht, hword⟩ := mem_of_declarer? hdeclarer
        rw [Option.filter_some, Option.filter_some]
        by_cases hname : t.name = previous.name
        · obtain rfl := List.inj_on_of_nodup_map h.nodup ht hprevious hname
          simp [hword]
        · simp [hname]
    have htags : (x.remove previous).byTag =
        (previous.tags.map Text.lower).foldl (fun f key => f.remove key previous.name) x.byTag := by
      rw [List.foldl_map]
      rfl
    refine ⟨⟨?_, h.byCategory.remove h.nodup hprevious, ?_, ?_, ?_, ?_⟩, rfl, haliases⟩
    · exact h.nodup.sublist (List.filter_sublist.map _)
    · rw [htags]
      exact h.byTag.remove h.nodup hprevious
    · change x.searchTexts.filter (·.1 != previous.name) = _
      rw [h.searchTexts, List.filter_map]
      rfl
    · exact h.distinct.sublist (List.filter_sublist.map _)
    · intro word other hlookup
      rw [haliases, Option.filter_eq_some_iff] at hlookup
      obtain ⟨t, hdeclarer, rfl⟩ := h.aliases word other hlookup.1
      exact ⟨t, declarer?_filter hdeclarer (bne_iff_ne.mp hlookup.2), rfl⟩

theorem Derived.insert (h : x.Derived) (hnew : s.name ∉ x.skills.map (·.name)) :
    (x.insert s).Becomes (x.skills ++ [s])
      fun word => if word ∈ s.aliases then some s.name else x.aliases.lookup word := by
  obtain ⟨hdistinct, haliases⟩ := foldl_setAlias h.distinct s.aliases s.name
  have htags : (x.insert s).byTag =
      (s.tags.map Text.lower).foldl (fun f key => f.insert key s.name) x.byTag := by
    rw [List.foldl_map]
    rfl
  refine ⟨⟨?_, h.byCategory.insert hnew, ?_, ?_, hdistinct, ?_⟩, rfl, haliases⟩
  · change ((x.skills ++ [s]).map (·.name)).Nodup
    rw [List.map_append, List.map_singleton, ← List.concat_eq_append, List.nodup_concat]
    exact ⟨hnew, h.nodup⟩
  · rw [htags]
    exact h.byTag.insert hnew
  · change x.searchTexts ++ [(s.name, s.searchText)] =
      (x.skills ++ [s]).map fun s => (s.name, s.searchText)
    rw [h.searchTexts, List.map_append, List.map_singleton]
  · intro word name hlookup
    have hmeans := (haliases word).symm.trans hlookup
    change ∃ t, declarer? (x.skills ++ [s]) word = some t ∧ t.name = name
    rw [declarer?_concat]
    split at hmeans
    · next hword =>
      rw [if_pos hword]
      exact ⟨s, rfl, Option.some.inj hmeans⟩
    · next hword =>
      rw [if_neg hword]
      exact h.aliases word name hmeans

/-- Adding a skill keeps the index derived. The skill comes last and takes over the aliases that it
declares; those that have meant an earlier skill of its name and are not declared again mean nothing
any more. -/
theorem Derived.add (h : x.Derived) (s : Skill) :
    (x.add s).Becomes (redefine x.skills s)
      fun word => if word ∈ s.aliases then some s.name
        else (x.aliases.lookup word).filter (· != s.name) := by
  obtain ⟨hderived, hskills, haliases⟩ := h.vacate s.name
  have hnew : s.name ∉ (x.vacate s.name).skills.map (·.name) := by
    rw [hskills]
    intro hmem
    obtain ⟨t, ht, hname⟩ := List.mem_map.mp hmem
    exact bne_iff_ne.mp (List.mem_filter.mp ht).2 hname
  obtain ⟨hadded, hall, hmeaning⟩ := hderived.insert hnew
  rw [add_eq_insert]
  refine ⟨hadded, hall.trans (hskills ▸ rfl), fun word => ?_⟩
  rw [hmeaning, haliases]

theorem Derived.foldl_add (h : x.Derived) (defs : List Skill) :
    (defs.foldl Index.add x).Derived ∧
      (defs.foldl Index.add x).skills = defs.foldl redefine x.skills := by
  induction defs generalizing x with
  | nil => exact ⟨h, rfl⟩
  | cons s rest ih =>
    obtain ⟨hderived, hskills, -⟩ := h.add s
    obtain ⟨hall, hlist⟩ := ih hderived
    exact ⟨hall, hlist.trans (by rw [hskills]; rfl)⟩

theorem derived_ofSkills (given : List Skill) : (ofSkills given).Derived :=
  (derived_empty.foldl_add given).1

theorem skills_ofSkills {skills : List Skill} (h : (skills.map (·.name)).Nodup) :
    (ofSkills skills).skills = skills :=
  (derived_empty.foldl_add skills).2.trans (foldl_redefine skills h)

theorem lookup_ofSkills {skills : List Skill} (h : (skills.map (·.name)).Nodup) (word : String) :
    (ofSkills skills).aliases.lookup word = (declarer? skills word).map (·.name) := by
  induction skills using List.reverseRecOn with
  | nil => rfl
  | append_singleton skills s ih =>
    rw [List.map_append, List.map_singleton, ← List.concat_eq_append, List.nodup_concat] at h
    have hadd : ofSkills (skills ++ [s]) = (ofSkills skills).add s := List.foldl_concat ..
    rw [hadd, ((derived_ofSkills skills).add s).aliases, declarer?_concat, ih h.2]
    split
    · rfl
    · cases hdeclarer : declarer? skills word with
      | none => rfl
      | some t =>
        have hne : t.name ≠ s.name := fun heq =>
          h.1 (heq ▸ List.mem_map_of_mem (mem_of_declarer? hdeclarer).1)
        rw [Option.map_some, Option.filter_some, if_pos (bne_iff_ne.mpr hne)]

theorem find?_add (h : x.Derived) (s : Skill) (name : String) :
    (x.add s).find? name = if s.name = name then some s else x.find? name := by
  obtain ⟨hderived, hskills, -⟩ := h.add s
  ext t
  rw [hderived.find?_eq_some, hskills, redefine, List.mem_append, List.mem_filter,
    List.mem_singleton, bne_iff_ne]
  split
  · next hname =>
    subst hname
    constructor
    · rintro ⟨⟨-, hne⟩ | rfl, hname⟩
      · exact absurd hname hne
      · rfl
    · intro heq
      obtain rfl := Option.some.inj heq
      exact ⟨.inr rfl, rfl⟩
  · next hname =>
    rw [h.find?_eq_some]
    constructor
    · rintro ⟨⟨ht, -⟩ | rfl, heq⟩
      · exact ⟨ht, heq⟩
      · exact absurd heq hname
    · rintro ⟨ht, rfl⟩
      exact ⟨.inl ⟨ht, Ne.symm hname⟩, rfl⟩

/-- The definition that counts is the last one given, or else the one that was there. -/
theorem find?_foldl_add (h : x.Derived) (defs : List Skill) (name : String) :
    (defs.foldl Index.add x).find? name = (latest? defs name).or (x.find? name) := by
  induction defs using List.reverseRecOn with
  | nil => rfl
  | append_singleton defs s ih =>
    rw [List.foldl_concat, find?_add (h.foldl_add defs).1, latest?_concat, ih]
    split <;> rfl

end Index

end SkillPipeline
