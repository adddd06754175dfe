import Mathlib.Data.List.TakeWhile
import SkillPipeline.Document.Record

namespace SkillPipeline.Members

variable {α : Type} {m n : Members α} {key other : String} {value : α} {entry : String × α}

theorem get?_eq_none : m.get? key = none ↔ m.has key = false := by
  rw [get?, List.lookup_eq_none_iff, has, List.any_eq_false]
  refine forall₂_congr fun entry _ => ?_
  rw [beq_iff_eq, bne_iff_ne, ne_comm]

theorem exists_get? (h : m.has key = true) : ∃ value, m.get? key = some value := by
  refine Option.ne_none_iff_exists'.mp fun hnone => ?_
  rw [get?_eq_none.mp hnone] at h
  cases h

theorem mem_of_get? (h : m.get? key = some value) : (key, value) ∈ m := by
  obtain ⟨before, after, rfl, -⟩ := List.lookup_eq_some_iff.mp h
  exact List.mem_append_right _ List.mem_cons_self

theorem get?_ne_none_of_mem (h : (key, value) ∈ m) : m.get? key ≠ none := by
  intro hnone
  rw [get?, List.lookup_eq_none_iff] at hnone
  simpa using hnone _ h

theorem get?_append (before after : Members α) :
    get? (before ++ after) key = (get? before key).or (get? after key) :=
  List.lookup_append

theorem get?_cons (rest : Members α) :
    get? ((key, value) :: rest) other = if other = key then some value else get? rest other := by
  rw [get?, List.lookup_cons]
  by_cases h : other = key
  · rw [if_pos h, h, beq_self_eq_true]
  · rw [if_neg h, beq_eq_false_iff_ne.mpr h]
    rfl

theorem mem_insertNew : entry ∈ m.insertNew key value ↔ entry = (key, value) ∨ entry ∈ m := by
  rw [insertNew]
  split
  · rw [List.mem_append, List.mem_singleton, or_comm]
  · next i _ =>
    rw [List.mem_append, List.mem_cons, or_left_comm, ← List.mem_append,
      List.takeWhile_append_dropWhile]

theorem get?_insertNew (h : m.has key = false) :
    (m.insertNew key value).get? other = if other = key then some value else m.get? other := by
  have hsplit {before after : Members α} (hm : before ++ after = m) :
      get? (before ++ (key, value) :: after) other =
        if other = key then some value else m.get? other := by
    rw [← hm, ← get?_eq_none, get?_append, Option.or_eq_none_iff] at h
    rw [get?_append, get?_cons, ← hm]
    split
    · next heq => rw [heq, h.1, Option.none_or]
    · rw [get?_append]
  rw [insertNew]
  split
  · exact hsplit (List.append_nil m)
  · exact hsplit List.takeWhile_append_dropWhile

theorem get?_replace :
    get? (m.map fun p => if p.1 == key then (key, value) else p) other =
      if other = key then (m.get? other).map fun _ => value else m.get? other := by
  induction m with
  | nil => simp [get?]
  | cons entry rest ih =>
    obtain ⟨first, old⟩ := entry
    rw [List.map_cons]
    by_cases hfirst : first = key
    · rw [if_pos (beq_iff_eq.mpr hfirst), get?_cons, get?_cons, ih, hfirst]
      split
      · rfl
      · rfl
    · rw [if_neg (by simpa using hfirst), get?_cons, get?_cons, ih]
      by_cases hother : other = first
      · rw [if_pos hother, if_pos hother, if_neg (hother ▸ hfirst)]
      · rw [if_neg hother, if_neg hother]

theorem get?_set :
    (m.set key value).get? other = if other = key then some value else m.get? other := by
  rw [set]
  split
  · next h =>
    rw [get?_replace]
    by_cases hother : other = key
    · obtain ⟨old, hold⟩ := exists_get? h
      rw [if_pos hother, if_pos hother, hother, hold]
      rfl
    · rw [if_neg hother, if_neg hother]
  · next h => exact get?_insertNew (by simpa using h)

theorem mem_set : entry ∈ m.set key value ↔ entry = (key, value) ∨ entry.1 ≠ key ∧ entry ∈ m := by
  rw [set]
  split
  · next h =>
    obtain ⟨old, hold, hkey⟩ := List.any_eq_true.mp h
    rw [List.mem_map]
    constructor
    · rintro ⟨p, hp, rfl⟩
      split
      · exact .inl rfl
      · next hne => exact .inr ⟨by simpa using hne, hp⟩
    · rintro (rfl | ⟨hne, hentry⟩)
      · exact ⟨old, hold, if_pos hkey⟩
      · exact ⟨entry, hentry, if_neg (by simpa using hne)⟩
  · next h =>
    have hnew : ∀ p ∈ m, p.1 ≠ key := fun p hp heq =>
      h (List.any_eq_true.mpr ⟨p, hp, beq_iff_eq.mpr heq⟩)
    rw [mem_insertNew]
    exact or_congr_right (iff_and_self.mpr fun hentry => hnew entry hentry)

/-- A member that is set to its value, if it is there with no other, stays as it is. -/
theorem set_eq_self (h : m.get? key = some value) (hsole : ∀ v, (key, v) ∈ m → v = value) :
    m.set key value = m := by
  have hhas : m.has key = true := List.any_eq_true.mpr ⟨_, mem_of_get? h, beq_self_eq_true key⟩
  have hsame : m.map (fun p => if p.1 == key then (key, value) else p) = m.map id := by
    refine List.map_congr_left fun p hp => ?_
    split
    · next hkey =>
      obtain rfl : p.1 = key := beq_iff_eq.mp hkey
      rw [← hsole p.2 hp]
      rfl
    · rfl
  rw [set, if_pos hhas, hsame, List.map_id]

theorem get?_foldl_set {pairs : Members α} (h : pairs.keys.Nodup) :
    get? (pairs.foldl (fun m p => m.set p.1 p.2) m) key = (get? pairs key).or (m.get? key) := by
  induction pairs generalizing m with
  | nil => exact (Option.none_or ..).symm
  | cons entry rest ih =>
    obtain ⟨first, v⟩ := entry
    obtain ⟨hnew, hrest⟩ := List.nodup_cons.mp h
    rw [List.foldl_cons, ih hrest, get?_set, get?_cons]
    split
    · next heq =>
      have hnone : get? rest key = none := by
        rw [get?_eq_none, has, List.any_eq_false]
        exact fun entry hentry hkey =>
          hnew (List.mem_map.mpr ⟨entry, hentry, (beq_iff_eq.mp hkey).trans heq⟩)
      rw [hnone, Option.none_or, Option.some_or]
    · rfl

theorem get?_ofList {pairs : Members α} (h : pairs.keys.Nodup) :
    (ofList pairs).get? key = pairs.get? key := by
  rw [ofList, get?_foldl_set h]
  exact Option.or_none

theorem get?_of_mem (h : m.keys.Nodup) (hentry : (key, value) ∈ m) : m.get? key = some value := by
  induction m with
  | nil => cases hentry
  | cons entry rest ih =>
    obtain ⟨first, v⟩ := entry
    obtain ⟨hnew, hrest⟩ := List.nodup_cons.mp h
    rw [get?_cons]
    obtain heq | hentry := List.mem_cons.mp hentry
    · cases heq
      exact if_pos rfl
    · have hne : key ≠ first := fun heq => hnew (List.mem_map.mpr ⟨_, hentry, heq⟩)
      rw [if_neg hne]
      exact ih hrest hentry

theorem inherited_of_find {i : Inherited} (h : m.find key = .inherited i) :
    Inherited.find? key = some i := by
  rw [find] at h
  split at h
  · cases h
  · split at h
    · next hfind =>
      cases h
      exact hfind
    · cases h

theorem isAssignable_iff : isAssignable key = true ↔ key ≠ Inherited.parentKey := bne_iff_ne

theorem nodup_keys_filter (h : m.keys.Nodup) (p : String × α → Bool) : keys (m.filter p) |>.Nodup :=
  h.sublist (List.filter_sublist.map Prod.fst)

theorem get?_assigned_map {β : Type} {l : List β} {name : β → String} {f : β → α} {b : β}
    (h : (l.map name).Nodup) (hb : b ∈ l) (hname : name b ≠ Inherited.parentKey) :
    (assigned (l.map fun b => (name b, f b))).get? (name b) = some (f b) := by
  have hdistinct : (keys (l.map fun b => (name b, f b))).Nodup := by
    rw [keys, List.map_map]
    exact h
  have hkept := nodup_keys_filter hdistinct (isAssignable ·.1)
  rw [assigned, get?_ofList hkept]
  exact get?_of_mem hkept (List.mem_filter.mpr
    ⟨List.mem_map_of_mem hb, isAssignable_iff.mpr hname⟩)

theorem mem_erase : entry ∈ m.erase key ↔ entry.1 ≠ key ∧ entry ∈ m := by
  rw [erase, List.mem_filter, bne_iff_ne, and_comm]

theorem get?_erase : (m.erase key).get? other = if other = key then none else m.get? other := by
  induction m with
  | nil => simp [erase, get?]
  | cons entry rest ih =>
    obtain ⟨first, old⟩ := entry
    rw [erase] at ih
    rw [erase, List.filter_cons, get?_cons]
    by_cases hfirst : first = key
    · rw [if_neg (by simpa using hfirst), ih, hfirst]
      split
      · rfl
      · rfl
    · rw [if_pos (by simpa using hfirst), get?_cons, ih]
      by_cases hother : other = first
      · rw [if_pos hother, if_pos hother, if_neg (hother ▸ hfirst)]
      · rw [if_neg hother, if_neg hother]

theorem erase_eq_self (h : m.get? key = none) : m.erase key = m := by
  rw [get?_eq_none, has, List.any_eq_false] at h
  refine List.filter_eq_self.mpr fun entry hentry => ?_
  simpa using h entry hentry

theorem erase_cons_of_ne (h : other ≠ key) :
    erase ((other, value) :: m) key = (other, value) :: m.erase key := by
  unfold erase
  exact List.filter_cons_of_pos (bne_iff_ne.mpr h)

theorem erase_middle (h : (keys (m ++ (key, value) :: n)).Nodup) :
    erase (m ++ (key, value) :: n) key = m ++ n := by
  rw [keys, List.map_append, List.map_cons] at h
  obtain ⟨-, hafter, hbefore⟩ := List.nodup_append.mp h
  have hkept {part : Members α} (hpart : key ∉ part.map Prod.fst) : part.erase key = part := by
    refine List.filter_eq_self.mpr fun entry hentry => bne_iff_ne.mpr ?_
    rintro rfl
    exact hpart (List.mem_map_of_mem hentry)
  have hm : m.erase key = m := hkept fun hmem => hbefore key hmem key List.mem_cons_self rfl
  have hn : n.erase key = n := hkept (List.nodup_cons.mp hafter).1
  have hself : erase ((key, value) :: n) key = n.erase key :=
    List.filter_cons_of_neg (by simp)
  rw [erase, List.filter_append]
  change m.erase key ++ erase ((key, value) :: n) key = m ++ n
  rw [hself, hm, hn]

theorem get?_eq_some (h : m.keys.Nodup) : m.get? key = some value ↔ (key, value) ∈ m :=
  ⟨mem_of_get?, get?_of_mem h⟩

theorem get?_perm (h : m.keys.Nodup) (hperm : m.Perm n) : m.get? key = n.get? key := by
  have hn : n.keys.Nodup := (hperm.map Prod.fst).nodup_iff.mp h
  apply Option.ext
  intro value
  rw [get?_eq_some h, get?_eq_some hn, hperm.mem_iff]

theorem has_iff : m.has key = true ↔ key ∈ m.keys := by
  simp only [has, keys, List.any_eq_true, List.mem_map, beq_iff_eq]

theorem insertNew_perm (m : Members α) (key : String) (value : α) :
    (m.insertNew key value).Perm (m ++ [(key, value)]) := by
  rw [insertNew]
  split
  · exact .rfl
  · next i _ =>
    refine (List.perm_middle.trans ?_).trans (List.perm_append_singleton _ _).symm
    rw [List.takeWhile_append_dropWhile]

theorem set_perm_cons (h : m.has key = false) (value : α) :
    (m.set key value).Perm ((key, value) :: m) := by
  rw [set, if_neg (by simp [h])]
  exact (insertNew_perm m key value).trans (List.perm_append_singleton _ _)

theorem set_perm (hperm : m.Perm n) (key : String) (value : α) :
    (m.set key value).Perm (n.set key value) := by
  have hhas : m.has key = n.has key := hperm.any_eq
  unfold set
  rw [hhas]
  split
  · exact hperm.map _
  · exact (insertNew_perm m key value).trans
      ((hperm.append_right _).trans (insertNew_perm n key value).symm)

theorem erase_perm (hperm : m.Perm n) (key : String) : (m.erase key).Perm (n.erase key) :=
  hperm.filter _

/-- A member that is set under a new key and erased under its own has changed its key. -/
theorem erase_set_perm {before after : Members α} (hm : m.Perm (before ++ (key, value) :: after))
    (hkeys : m.keys.Nodup) (hnew : m.has other = false) (hne : other ≠ key) :
    ((m.set other value).erase key).Perm (before ++ (other, value) :: after) := by
  have hset : (m.set other value).Perm ((other, value) :: (before ++ (key, value) :: after)) :=
    (set_perm_cons hnew value).trans (hm.cons _)
  have herase := erase_perm hset key
  rw [erase_cons_of_ne hne, erase_middle ((hm.map Prod.fst).nodup_iff.mp hkeys)] at herase
  exact herase.trans List.perm_middle.symm

theorem nodup_keys_set (h : m.keys.Nodup) (key : String) (value : α) :
    (m.set key value).keys.Nodup := by
  by_cases hhas : m.has key = true
  · have hkeys : (m.set key value).keys = m.keys := by
      rw [set, if_pos hhas, keys, List.map_map]
      refine List.map_congr_left fun entry _ => ?_
      rw [Function.comp_apply]
      split
      · next heq => exact (beq_iff_eq.mp heq).symm
      · rfl
    rwa [hkeys]
  · have hkeys := (set_perm_cons (by simpa using hhas) value).map Prod.fst
    exact hkeys.nodup_iff.mpr (List.nodup_cons.mpr ⟨fun hkey => hhas (has_iff.mpr hkey), h⟩)

theorem nodup_keys_erase (h : m.keys.Nodup) (key : String) : (m.erase key).keys.Nodup :=
  nodup_keys_filter h _

theorem foldl_set_perm {m : Members α} {pairs : List (String × α)}
    (h : ((m ++ pairs).map Prod.fst).Nodup) :
    (pairs.foldl (fun m p => m.set p.1 p.2) m).Perm (m ++ pairs) := by
  induction pairs generalizing m with
  | nil => rw [List.append_nil]; exact .rfl
  | cons p rest ih =>
    have hnew : m.has p.1 = false := by
      rw [List.map_append, List.map_cons] at h
      refine List.any_eq_false.mpr fun q hq heq => ?_
      exact (List.nodup_append.mp h).2.2 q.1 (List.mem_map_of_mem hq) p.1 List.mem_cons_self
        (eq_of_beq heq)
    have hperm : (m.set p.1 p.2).Perm (m ++ [p]) := 
      (set_perm_cons hnew p.2).trans (List.perm_append_singleton _ _).symm
    have hassoc : m ++ p :: rest = m ++ [p] ++ rest := by simp
    have hnext : (m.set p.1 p.2 ++ rest).Perm (m ++ p :: rest) :=
      hassoc ▸ hperm.append_right rest
    rw [List.foldl_cons]
    exact (ih ((hnext.map Prod.fst).nodup_iff.mpr h)).trans hnext

theorem ofList_perm {pairs : List (String × α)} (h : (pairs.map Prod.fst).Nodup) :
    (ofList pairs).Perm pairs := foldl_set_perm h

theorem assigned_perm {pairs : List (String × α)} (h : (pairs.map Prod.fst).Nodup) :
    (assigned pairs).Perm (pairs.filter (isAssignable ·.1)) :=
  ofList_perm (nodup_keys_filter h _)

end SkillPipeline.Members

namespace SkillPipeline.Record

variable {r : Record} {key : String} {v : Value}

theorem assign_of_ne (h : key ≠ Inherited.parentKey) :
    r.assign key v = { r with own := r.own.set key v } := by
  rw [assign, redirects, beq_eq_false_iff_ne.mpr h, Bool.false_and, Bool.false_and,
    if_neg Bool.false_ne_true]

theorem parent_assign (h : r.parent.replacedBy v = r.parent) :
    (r.assign key v).parent = r.parent := by
  rw [assign]
  split
  · exact h
  · rfl

/-- A record that inherits from the common parent has its own members' values under a key that is
not inherited from it. -/
theorem read_eq (hparent : r.parent = .common) (h : Inherited.find? key = none) :
    r.read key = (r.own.get? key).bind Value.present? := by
  rw [read]
  cases r.own.get? key with
  | some v => rfl
  | none => rw [hparent, Parent.read, h, Option.map_none, Option.bind_none]

/-- What is read is the member's own value, unless that is missing, or one that every record
inherits. -/
theorem read_eq_some (hparent : r.parent = .common) (h : r.read key = some v) :
    (r.own.get? key = some v ∧ v.isMissing = false) ∨
      r.own.get? key = none ∧ ∃ m, Inherited.find? key = some m ∧ v = m.value := by
  rw [read] at h
  cases hown : r.own.get? key with
  | some own =>
    rw [hown] at h
    simp only [Value.present?] at h
    split at h
    · cases h
    · next hpresent =>
      obtain rfl := Option.some.inj h
      exact .inl ⟨rfl, eq_false_of_ne_true hpresent⟩
  | none =>
    rw [hown, hparent] at h
    obtain ⟨m, hm, rfl⟩ := Option.map_eq_some_iff.mp h
    exact .inr ⟨rfl, m, hm, rfl⟩

theorem read_perm {r' : Record} (hown : r.own.Perm r'.own) (hdistinct : r.own.keys.Nodup)
    (hparent : r'.parent = r.parent) : r'.read key = r.read key := by
  rw [read, read, Members.get?_perm hdistinct hown, hparent]

theorem assign_perm {r' : Record} (hown : r.own.Perm r'.own) (hdistinct : r.own.keys.Nodup)
    (hparent : r'.parent = r.parent) (key : String) (v : Value) :
    (r.assign key v).own.Perm (r'.assign key v).own ∧ (r.assign key v).own.keys.Nodup ∧
      (r'.assign key v).parent = (r.assign key v).parent := by
  have hhas : r'.own.has key = r.own.has key := hown.symm.any_eq
  have hredirects : r'.redirects key = r.redirects key := by
    rw [redirects, redirects, hhas, hparent]
  unfold assign
  rw [hredirects]
  split
  · exact ⟨hown, hdistinct, congrArg (·.replacedBy v) hparent⟩
  · exact ⟨Members.set_perm hown key v, Members.nodup_keys_set hdistinct key v, hparent⟩

end SkillPipeline.Record
