import SkillPipeline.Document.Digest
import SkillPipeline.Document.Json.Reader
import SkillPipeline.Proofs.Document.Members
import SkillPipeline.Proofs.Number.Decimal
import SkillPipeline.Proofs.Outcome
import SkillPipeline.Proofs.Text.Basic

namespace SkillPipeline.Json

open Number

def Ends (rest : List Char) : Prop := ∀ c ∈ rest.head?, c = ',' ∨ c = ']' ∨ c = '}'

variable {rest : List Char} {n : Numeral}

/-- Whether there is a minus sign, and what follows it. -/
def splitSign (s : List Char) : Bool × List Char :=
  match s with
  | '-' :: r => (true, r)
  | r => (false, r)

def readFractionPart : List Char → Option (List Char × List Char)
  | '.' :: r =>
    if (r.takeWhile isDigit).isEmpty then none
    else some (r.takeWhile isDigit, r.dropWhile isDigit)
  | r => some ([], r)

def readPowerPart : List Char → Option (ℤ × List Char)
  | 'e' :: r | 'E' :: r => readNumber.readPower r
  | r => some (0, r)

def readUnsigned (negative : Bool) (s : List Char) : Option (Float × List Char) := do
  if !isWholePart (s.takeWhile isDigit) then none
  else
    let (fraction, rest) ← readFractionPart (s.dropWhile isDigit)
    let (exponent, rest) ← readPowerPart rest
    some (mirrored negative (Decimal.toFloat
      ⟨digitsValue (s.takeWhile isDigit ++ fraction), exponent - fraction.length⟩), rest)

theorem readPowerPart_bind {α : Type} (s : List Char) (f : ℤ × List Char → Option α) :
    (readPowerPart s).bind f = match s with
      | 'e' :: r => (readNumber.readPower r).bind f
      | 'E' :: r => (readNumber.readPower r).bind f
      | r => (some (0, r)).bind f := by
  rw [readPowerPart.eq_def]
  split
  · rfl
  · rfl
  · rfl

theorem readFractionPart_bind {α : Type} (s : List Char) (f : List Char × List Char → Option α) :
    (readFractionPart s).bind f = match s with
      | '.' :: r =>
        if (r.takeWhile isDigit).isEmpty then none.bind f
        else (some (r.takeWhile isDigit, r.dropWhile isDigit)).bind f
      | r => (some ([], r)).bind f := by
  rw [readFractionPart.eq_def]
  split
  · split
    · rfl
    · rfl
  · rfl

theorem readNumber_eq (s : List Char) :
    readNumber s = readUnsigned (splitSign s).1 (splitSign s).2 := by
  rw [readNumber.eq_def]
  split
  next negative r hsign =>
  have hsign : splitSign s = (negative, r) := hsign
  rw [hsign, readUnsigned]
  simp only [Option.bind_eq_bind, readPowerPart_bind, readFractionPart_bind]
  rfl

theorem splitSign_digits {n : Numeral} (hproper : n.Proper) (rest : List Char) :
    splitSign (n.chars ++ rest) = (false, n.chars ++ rest) := by
  obtain ⟨whole, fraction, power⟩ := n
  cases whole with
  | nil => exact absurd rfl hproper.nonempty
  | cons c digits =>
    have hc : c ≠ '-' := by
      rintro rfl
      cases hproper.whole '-' List.mem_cons_self
    rw [splitSign]
    rintro r heq
    injection heq with hhead
    exact hc hhead

theorem readPowerPart_powerChars (power : ℤ) (hrest : Ends rest) :
    readPowerPart (powerChars power ++ rest) = some (power, rest) := by
  have hends : ∀ c ∈ rest.head?, isDigit c = false := by
    intro c hc
    obtain rfl | rfl | rfl := hrest c hc <;> rfl
  obtain ⟨htake, hdrop⟩ := Numeral.span_digits
    (isDigit_of_mem_digitChars (n := power.natAbs)) hends
  have hsome : (digitChars power.natAbs).isEmpty = false :=
    List.isEmpty_eq_false_iff.mpr (digitChars_ne_nil _)
  by_cases hneg : power < 0
  · have habs : -(power.natAbs : ℤ) = power := by omega
    rw [powerChars, if_pos hneg]
    simp only [List.cons_append, readPowerPart, readNumber.readPower, htake, hdrop, hsome,
      digitsValue_digitChars, if_true, Bool.false_eq_true, if_false, habs]
  · have habs : (power.natAbs : ℤ) = power := by omega
    rw [powerChars, if_neg hneg]
    simp only [List.cons_append, readPowerPart, readNumber.readPower, htake, hdrop, hsome,
      digitsValue_digitChars, Bool.false_eq_true, if_false, habs]

theorem readPowerPart_tail (power : Option ℤ) (hrest : Ends rest) :
    readPowerPart (power.elim [] powerChars ++ rest) = some (power.getD 0, rest) := by
  cases power with
  | some power => exact readPowerPart_powerChars power hrest
  | none =>
    change readPowerPart rest = some (0, rest)
    cases rest with
    | nil => rfl
    | cons c rest => obtain rfl | rfl | rfl := hrest c rfl <;> rfl

theorem head?_tail (power : Option ℤ) (hrest : Ends rest) :
    ∀ c ∈ (power.elim [] powerChars ++ rest).head?, isDigit c = false ∧ c ≠ '.' := by
  cases power with
  | some power => simp [powerChars, isDigit]
  | none =>
    intro c hc
    obtain rfl | rfl | rfl := hrest c hc <;> exact ⟨rfl, by decide⟩

theorem isWholePart_of_plain {n : Numeral} (hproper : n.Proper) (hplain : n.Plain) :
    isWholePart n.whole = true := by
  obtain hzero | hhead := hplain
  · rw [hzero]
    rfl
  · cases hwhole : n.whole with
    | nil => exact absurd hwhole hproper.nonempty
    | cons c digits =>
      rw [hwhole] at hhead
      have hc : c ≠ '0' := by simpa using hhead
      rw [isWholePart]
      · simpa using hc
      · intro hzero _
        exact hc hzero

theorem readUnsigned_chars {n : Numeral} (negative : Bool) (hproper : n.Proper) (hplain : n.Plain)
    (hrest : Ends rest) : readUnsigned negative (n.chars ++ rest) =
      some (mirrored negative n.decimal.toFloat, rest) := by
  have hpart := isWholePart_of_plain hproper hplain
  have htail := head?_tail n.power hrest
  have hpower := readPowerPart_tail n.power hrest
  obtain ⟨whole, fraction, power⟩ := n
  -- Without a fraction there is no point, so the power or the end follows the digits at once.
  by_cases hfraction : fraction = []
  · subst hfraction
    obtain ⟨htake, hdrop⟩ := Numeral.span_digits hproper.whole fun c hc => (htail c hc).1
    have hpoint (s : List Char) (hs : ∀ c ∈ s.head?, isDigit c = false ∧ c ≠ '.') :
        readFractionPart s = some ([], s) := by
      rw [readFractionPart]
      rintro r rfl
      exact (hs '.' rfl).2 rfl
    rw [Numeral.chars, pointChars, if_pos rfl, List.nil_append, List.append_assoc, readUnsigned,
      htake, hdrop, hpart, hpoint _ htail]
    simp only [Option.bind_eq_bind, Option.bind_some, hpower]
    rfl
  · obtain ⟨htake, hdrop⟩ := Numeral.span_digits hproper.fraction fun c hc => (htail c hc).1
    have hpoint : ∀ c ∈ ('.' :: (fraction ++ (power.elim [] powerChars ++ rest))).head?,
        isDigit c = false := by
      simp [isDigit]
    obtain ⟨htake', hdrop'⟩ := Numeral.span_digits hproper.whole hpoint
    have hempty : fraction.isEmpty = false := List.isEmpty_eq_false_iff.mpr hfraction
    rw [Numeral.chars, pointChars, if_neg hfraction, List.cons_append, List.append_assoc,
      List.cons_append, List.append_assoc, readUnsigned, htake', hdrop', hpart, readFractionPart,
      htake, hdrop, hempty]
    simp only [Bool.false_eq_true, if_false, Option.bind_eq_bind, Option.bind_some, hpower]
    rfl

section Strings

variable {c : Char} {s text : List Char}

theorem escapeChar_cases (c : Char) :
    (∃ d, escapeChar c = ['\\', d] ∧ d ≠ 'u' ∧ readStringFrom.simpleEscape d = some c) ∨
      (c.toNat < 32 ∧ escapeChar c =
        ['\\', 'u', '0', '0', hexDigit (c.toNat / 16), hexDigit (c.toNat % 16)]) ∨
      (32 ≤ c.toNat ∧ c ≠ '"' ∧ c ≠ '\\' ∧ escapeChar c = [c]) := by
  rw [escapeChar]
  split
  · next h => exact .inl ⟨'"', rfl, by decide, by rw [h]; rfl⟩
  split
  · next h => exact .inl ⟨'\\', rfl, by decide, by rw [h]; rfl⟩
  split
  · next h => exact .inl ⟨'n', rfl, by decide, by rw [h]; rfl⟩
  split
  · next h => exact .inl ⟨'r', rfl, by decide, by rw [h]; rfl⟩
  split
  · next h => exact .inl ⟨'t', rfl, by decide, by rw [h]; rfl⟩
  split
  · next h => exact .inl ⟨'b', rfl, by decide, by rw [h]; rfl⟩
  split
  · next h => exact .inl ⟨'f', rfl, by decide, by rw [h]; rfl⟩
  split
  · next hcontrol => exact .inr (.inl ⟨hcontrol, rfl⟩)
  · next hplain => exact .inr (.inr ⟨not_lt.mp hplain, by assumption, by assumption, rfl⟩)

theorem radixValue_control {n : ℕ} (hn : n < 32) :
    radixValue 16 ['0', '0', hexDigit (n / 16), hexDigit (n % 16)] = some n := by
  revert hn
  revert n
  decide

/-- Four digits after a backslash and `u` are hexadecimal. -/
def Escaped (s : List Char) : Prop :=
  ∀ a b c d r, s = '\\' :: 'u' :: a :: b :: c :: d :: r → (radixValue 16 [a, b, c, d]).isSome

theorem escaped_flatMap (s rest : List Char) :
    Escaped (s.flatMap escapeChar ++ '"' :: rest) := by
  intro a b c d r heq
  cases s with
  | nil => cases heq
  | cons first s =>
    rw [List.flatMap_cons] at heq
    obtain ⟨d', hchar, hd, -⟩ | ⟨hcontrol, hchar⟩ | ⟨-, -, hback, hchar⟩ := escapeChar_cases first
    · rw [hchar] at heq
      injection heq with _ htail
      injection htail with hhead
      exact absurd hhead hd
    · rw [hchar] at heq
      simp only [List.cons_append, List.cons.injEq, true_and] at heq
      obtain ⟨rfl, rfl, rfl, rfl, -⟩ := heq
      rw [radixValue_control hcontrol]
      rfl
    · rw [hchar] at heq
      injection heq with hhead
      exact absurd hhead hback

theorem readStringFrom_escapeChar (hs : Escaped s) :
    readStringFrom text (escapeChar c ++ s) = readStringFrom (c :: text) s := by
  -- By the form in which the character is written: a short escape, four digits, or itself.
  obtain ⟨d, hchar, hd, hsimple⟩ | ⟨hcontrol, hchar⟩ | ⟨hplain, hquote, hback, hchar⟩ :=
    escapeChar_cases c
  · rw [hchar, List.cons_append, List.cons_append, List.nil_append, readStringFrom.eq_5, hsimple]
    · intros
      exact absurd ‹d = 'u'› hd
    · intros
      exact absurd ‹d = 'u'› hd
  · have hnot : isSurrogate c.toNat = false := by
      rw [isSurrogate, decide_eq_false (by omega)]
      rfl
    rw [hchar]
    -- Only half of a surrogate pair would take the next escape with it, and a control is none.
    by_cases hpair : ∃ e f g h r, s = '\\' :: 'u' :: e :: f :: g :: h :: r
    · obtain ⟨e, f, g, h, r, rfl⟩ := hpair
      obtain ⟨low, hlow⟩ := Option.isSome_iff_exists.mp (hs e f g h r rfl)
      simp only [List.cons_append, List.nil_append]
      rw [readStringFrom.eq_3, radixValue_control hcontrol, hlow]
      simp only [hnot, Bool.false_eq_true, if_false, Char.ofNat_toNat]
    · simp only [List.cons_append, List.nil_append]
      rw [readStringFrom.eq_4, radixValue_control hcontrol]
      · simp only [hnot, Bool.false_eq_true, if_false, Char.ofNat_toNat]
      · intro e f g h r hr
        exact hpair ⟨e, f, g, h, r, hr⟩
  · have hread : (decide (c.toNat < 32) || decide (c = '\\')) = false := by
      rw [decide_eq_false (not_lt.mpr hplain), decide_eq_false hback]
      rfl
    rw [hchar, List.cons_append, List.nil_append, readStringFrom.eq_6, hread]
    · rfl
    · exact hquote
    · intros
      exact hback ‹_›
    · intros
      exact hback ‹_›
    · intros
      exact hback ‹_›

theorem readStringFrom_flatMap (s text rest : List Char) :
    readStringFrom text (s.flatMap escapeChar ++ '"' :: rest) =
      some (String.ofList (text.reverse ++ s), rest) := by
  induction s generalizing text with
  | nil => rw [List.flatMap_nil, List.nil_append, List.append_nil, readStringFrom]
  | cons c s ih =>
    rw [List.flatMap_cons, List.append_assoc, readStringFrom_escapeChar (escaped_flatMap s rest),
      ih, List.reverse_cons, List.append_assoc]
    rfl

theorem readStringFrom_quote (s : String) (rest : List Char) :
    readStringFrom [] (s.toList.flatMap escapeChar ++ '"' :: rest) = some (s, rest) := by
  rw [readStringFrom_flatMap, List.reverse_nil, List.nil_append, String.ofList_toList]

end Strings

def present (members : Members Value) (key : String) : Option Value :=
  (members.get? key).filter fun v => !v.isAbsent

/-- A value that JSON can tell: numbers are finite and no key stands twice. Members may be
absent. -/
inductive IsJson : Value → Prop
  | null : IsJson .null
  | bool (b : Bool) : IsJson (.bool b)
  | number {x : Float} (finite : x.isFinite = true) : IsJson (.number x)
  | string (s : String) : IsJson (.string s)
  | list {items : List Value} (h : ∀ v ∈ items, IsJson v) : IsJson (.list items)
  | object {members : Members Value} (distinct : members.keys.Nodup)
      (h : ∀ key v, (key, v) ∈ members → v.isAbsent = false → IsJson v) : IsJson (.object members)

/-- Two values are the same but for absent members and the order of members. -/
inductive Same : Value → Value → Prop
  | null : Same .null .null
  | bool (b : Bool) : Same (.bool b) (.bool b)
  | number {x y : Float} (h : (x == y) = true) : Same (.number x) (.number y)
  | string (s : String) : Same (.string s) (.string s)
  | list {items items' : List Value} (h : List.Forall₂ Same items items') :
      Same (.list items) (.list items')
  | object {members members' : Members Value}
      (h : ∀ key, Option.Rel Same (present members key) (present members' key)) :
      Same (.object members) (.object members')

/-- On the value, from its items or the values of its members. -/
@[elab_as_elim]
theorem value_induction {P : Value → Prop} (null : P .null) (bool : ∀ b, P (.bool b))
    (number : ∀ x, P (.number x)) (string : ∀ s, P (.string s)) (instant : ∀ t, P (.instant t))
    (list : ∀ items, (∀ v ∈ items, P v) → P (.list items))
    (object : ∀ members, (∀ key v, (key, v) ∈ members → P v) → P (.object members))
    (absent : P .absent) (v : Value) : P v := by
  -- On the size, as items and members are reached through lists.
  induction hn : sizeOf v using Nat.strongRecOn generalizing v with
  | ind n ih =>
    subst hn
    cases v with
    | null => exact null
    | bool b => exact bool b
    | number x => exact number x
    | string s => exact string s
    | instant t => exact instant t
    | list items =>
      refine list items fun v hv => ih (sizeOf v) ?_ v rfl
      have hsize := List.sizeOf_lt_of_mem hv
      rw [Value.list.sizeOf_spec]
      omega
    | object members =>
      refine object members fun key v hv => ih (sizeOf v) ?_ v rfl
      have hsize := List.sizeOf_lt_of_mem hv
      rw [Prod.mk.sizeOf_spec] at hsize
      rw [Value.object.sizeOf_spec]
      omega
    | absent => exact absent

theorem mem_of_present {members : Members Value} {key : String} {v : Value}
    (h : present members key = some v) : (key, v) ∈ members ∧ v.isAbsent = false := by
  obtain ⟨hget, hpresent⟩ := Option.filter_eq_some_iff.mp h
  exact ⟨Members.mem_of_get? hget, by simpa using hpresent⟩

section Rel

variable {α β γ : Type} {R : α → β → Prop} {S : β → γ → Prop} {T : α → γ → Prop} {a : Option α}
  {b : Option β} {c : Option γ}

theorem rel_symm {S : β → α → Prop} (h : Option.Rel R a b)
    (hsymm : ∀ x, a = some x → ∀ y, R x y → S y x) : Option.Rel S b a := by
  cases h with
  | none => exact .none
  | some h => exact .some (hsymm _ rfl _ h)

theorem rel_trans (h : Option.Rel R a b) (h' : Option.Rel S b c)
    (htrans : ∀ x, a = some x → ∀ y z, R x y → S y z → T x z) : Option.Rel T a c := by
  cases h with
  | none =>
    cases h'
    exact .none
  | some h =>
    cases h' with
    | some h' => exact .some (htrans _ rfl _ _ h h')

theorem rel_map_eq {f : α → γ} {g : β → γ} (h : Option.Rel R a b)
    (hmap : ∀ x, a = some x → ∀ y, b = some y → R x y → f x = g y) : a.map f = b.map g := by
  cases h with
  | none => rfl
  | some h => rw [Option.map_some, Option.map_some, hmap _ rfl _ rfl h]

theorem forall₂_imp_mem {S : α → β → Prop} {l : List α} {l' : List β} (h : List.Forall₂ R l l')
    (himp : ∀ x ∈ l, ∀ y ∈ l', R x y → S x y) : List.Forall₂ S l l' := by
  induction h with
  | nil => exact .nil
  | cons h _ ih =>
    refine .cons (himp _ List.mem_cons_self _ List.mem_cons_self h) (ih fun x hx y hy => ?_)
    exact himp x (List.mem_cons_of_mem _ hx) y (List.mem_cons_of_mem _ hy)

theorem forall₂_trans {l : List α} {l' : List β} {l'' : List γ} (h : List.Forall₂ R l l')
    (h' : List.Forall₂ S l' l'') (htrans : ∀ x ∈ l, ∀ y z, R x y → S y z → T x z) :
    List.Forall₂ T l l'' := by
  induction h generalizing l'' with
  | nil =>
    cases h'
    exact .nil
  | cons h _ ih =>
    cases h' with
    | cons h' hrest =>
      obtain ⟨hfirst, htrans⟩ := List.forall_mem_cons.mp htrans
      exact .cons (hfirst _ _ h h') (ih hrest htrans)

end Rel

theorem Same.symm {a b : Value} (h : Same a b) : Same b a := by
  induction a using value_induction generalizing b with
  | null | bool | string =>
    cases h
    constructor
  | instant | absent => cases h
  | number x =>
    cases h with
    | number h => exact .number (beq_symm h)
  | list items ih =>
    cases h with
    | list h => exact .list (forall₂_imp_mem h fun v hv w _ => ih v hv).flip
  | object members ih =>
    cases h with
    | object h =>
      exact .object fun key => rel_symm (h key) fun v hv w => ih key v (mem_of_present hv).1

theorem Same.trans {a b c : Value} (h : Same a b) (h' : Same b c) : Same a c := by
  induction a using value_induction generalizing b c with
  | null | bool | string =>
    cases h
    exact h'
  | instant | absent => cases h
  | number x =>
    cases h with
    | number h =>
      cases h' with
      | number h' => exact .number (beq_trans h h')
  | list items ih =>
    cases h with
    | list h =>
      cases h' with
      | list h' => exact .list (forall₂_trans h h' fun v hv w u => ih v hv)
  | object members ih =>
    cases h with
    | object h =>
      cases h' with
      | object h' =>
        exact .object fun key => rel_trans (h key) (h' key) fun v hv w u =>
          ih key v (mem_of_present hv).1

theorem canonicalMembers_eq (members : Members Value) : canonicalMembers members =
    (members.filter fun p => !p.2.isAbsent).map fun p => (p.1, canonicalChars p.2) := by
  induction members with
  | nil => rfl
  | cons p rest ih =>
    rw [canonicalMembers, ih, List.filter_cons]
    cases p.2.isAbsent <;> rfl

theorem mem_canonicalMembers {members : Members Value} (h : members.keys.Nodup) {key : String}
    {t : List Char} : (key, t) ∈ canonicalMembers members ↔
      ∃ v, present members key = some v ∧ canonicalChars v = t := by
  rw [canonicalMembers_eq, List.mem_map]
  constructor
  · rintro ⟨⟨key, v⟩, hp, heq⟩
    obtain ⟨hmem, hpresent⟩ := List.mem_filter.mp hp
    cases heq
    refine ⟨v, ?_, rfl⟩
    rw [present, Members.get?_of_mem h hmem, Option.filter_some, if_pos hpresent]
  · rintro ⟨v, hv, rfl⟩
    obtain ⟨hmem, hpresent⟩ := mem_of_present hv
    exact ⟨(key, v), List.mem_filter.mpr ⟨hmem, by rw [hpresent]; rfl⟩, rfl⟩

theorem nodup_canonicalMembers {members : Members Value} (h : members.keys.Nodup) :
    ((canonicalMembers members).map Prod.fst).Nodup := by
  have hkeys : (canonicalMembers members).map Prod.fst =
      (members.filter fun p => !p.2.isAbsent).map Prod.fst := by
    rw [canonicalMembers_eq, List.map_map]
    rfl
  rw [hkeys]
  exact h.sublist (List.filter_sublist.map Prod.fst)

theorem sortMembers_perm {α : Type} (members : Members α) : (sortMembers members).Perm members :=
  List.mergeSort_perm _ _

theorem pairwise_sortMembers {α : Type} (members : Members α) :
    (sortMembers members).Pairwise fun p q => Text.units p.1 ≤ Text.units q.1 := by
  have hle (p q : String × α) :
      (!Text.before q.1 p.1) = true ↔ Text.units p.1 ≤ Text.units q.1 := by
    rw [Bool.not_eq_true', ← Bool.not_eq_true, Text.before_iff, not_lt]
  have hsorted : (sortMembers members).Pairwise fun p q => (!Text.before q.1 p.1) = true := by
    refine List.pairwise_mergeSort (fun p q r hpq hqr => ?_) (fun p q => ?_) members
    · exact (hle p r).mpr (((hle p q).mp hpq).trans ((hle q r).mp hqr))
    · rw [Bool.or_eq_true, hle, hle]
      exact le_total ..
  exact hsorted.imp fun h => (hle _ _).mp h

theorem sortMembers_congr {α : Type} {members members' : Members α} (hperm : members.Perm members')
    (h : (members.map Prod.fst).Nodup) : sortMembers members = sortMembers members' := by
  have hsame := (sortMembers_perm members).trans (hperm.trans (sortMembers_perm members').symm)
  refine hsame.eq_of_pairwise (fun p q hp hq hle hle' => ?_) (pairwise_sortMembers members)
    (pairwise_sortMembers members')
  have hkey : p.1 = q.1 := Text.units_injective (le_antisymm hle hle')
  have hp' : p ∈ members := (sortMembers_perm members).mem_iff.mp hp
  have hq' : q ∈ members := (hperm.trans (sortMembers_perm members').symm).mem_iff.mpr hq
  exact List.inj_on_of_nodup_map h hp' hq' hkey

theorem canonicalItems_eq (items : List Value) :
    canonicalItems items = items.map canonicalChars := by
  induction items with
  | nil => rfl
  | cons v rest ih => rw [canonicalItems, ih, List.map_cons]

theorem Same.canonicalChars_eq {a b : Value} (h : Same a b) (ha : IsJson a) (hb : IsJson b) :
    canonicalChars a = canonicalChars b := by
  induction a using value_induction generalizing b with
  | null | bool | string =>
    cases h
    rfl
  | instant | absent => cases h
  | number x =>
    cases h with
    | @number _ y h =>
      cases ha with
      | number hx =>
        cases hb with
        | number hy =>
          rw [canonicalChars, canonicalChars, numberChars, numberChars, if_pos hx, if_pos hy,
            text_congr h]
  | list items ih =>
    cases h with
    | @list _ items' h =>
      cases ha with
      | list ha =>
        cases hb with
        | list hb =>
          have hitems : items.map canonicalChars = items'.map canonicalChars := by
            rw [← List.forall₂_eq_eq_eq, List.forall₂_map_left_iff, List.forall₂_map_right_iff]
            exact forall₂_imp_mem h fun v hv w hw hsame => ih v hv hsame (ha v hv) (hb w hw)
          rw [canonicalChars, canonicalChars, canonicalItems_eq, canonicalItems_eq, hitems]
  | object members ih =>
    cases h with
    | @object _ members' h =>
      cases ha with
      | object distinct ha =>
        cases hb with
        | object distinct' hb =>
          -- The same keys have values, and equal texts by induction; sorting then forgets the
          -- order.
          have hmembers : (canonicalMembers members).Perm (canonicalMembers members') := by
            refine (List.perm_ext_iff_of_nodup (nodup_canonicalMembers distinct).of_map
              (nodup_canonicalMembers distinct').of_map).mpr fun entry => ?_
            rw [mem_canonicalMembers distinct, mem_canonicalMembers distinct',
              ← Option.map_eq_some_iff, ← Option.map_eq_some_iff,
              rel_map_eq (h entry.1) fun v hv w hw hsame => ?_]
            obtain ⟨hmem, hpresent⟩ := mem_of_present hv
            obtain ⟨hmem', hpresent'⟩ := mem_of_present hw
            exact ih _ v hmem hsame (ha _ v hmem hpresent) (hb _ w hmem' hpresent')
          rw [canonicalChars, canonicalChars, sortMembers_congr hmembers
            (nodup_canonicalMembers distinct)]

theorem skipSpace_cons {c : Char} (hc : isSpace c = false) (s : List Char) :
    skipSpace (c :: s) = c :: s := List.dropWhile_cons_of_neg (by rw [hc]; exact Bool.false_ne_true)

theorem commas_cons (t u : List Char) (rest : List (List Char)) :
    commas (t :: u :: rest) = t ++ ',' :: commas (u :: rest) := by
  rw [commas, List.intercalate_cons_cons, List.append_assoc]
  rfl

theorem commas_singleton (t : List Char) : commas [t] = t := List.intercalate_singleton

/-- The text is read as the value inside any document. -/
structure Reads (t : List Char) (v : Value) : Prop where
  starts : ∃ c r, t = c :: r ∧ isSpace c = false ∧ c ≠ ']'
  reads : ∀ fuel rest, t.length ≤ fuel → Ends rest → readValue fuel (t ++ rest) = some (v, rest)

theorem ends_cons {c : Char} (hc : c = ',' ∨ c = ']' ∨ c = '}') (rest : List Char) :
    Ends (c :: rest) := by
  intro d hd
  cases hd
  exact hc

theorem readItems_commas {texts : List (List Char)} {values : List Value}
    (h : List.Forall₂ Reads texts values) (hsome : texts ≠ []) {fuel : ℕ}
    (hfuel : (commas texts).length < fuel) (items : List Value) (rest : List Char) :
    readItems fuel items (commas texts ++ ']' :: rest) =
      some (.list (items.reverse ++ values), rest) := by
  induction h generalizing fuel items with
  | nil => exact absurd rfl hsome
  | @cons t v texts values ht hrest ih =>
    obtain ⟨fuel, rfl⟩ : ∃ n, fuel = n + 1 := ⟨fuel - 1, by omega⟩
    cases hrest with
    | nil =>
      rw [commas_singleton] at hfuel ⊢
      have hread := ht.reads fuel (']' :: rest) (by omega) (ends_cons (by simp) rest)
      rw [readItems, hread]
      simp only [skipSpace_cons (c := ']') rfl, List.reverse_cons]
    | @cons u w texts values hu hrest =>
      rw [commas_cons, List.length_append, List.length_cons] at hfuel
      have hread := ht.reads fuel (',' :: (commas (u :: texts) ++ ']' :: rest)) (by omega)
        (ends_cons (by simp) _)
      rw [commas_cons, List.append_assoc, List.cons_append, readItems, hread]
      simp only [skipSpace_cons (c := ',') rfl]
      rw [ih (List.cons_ne_nil _ _) (by omega), List.reverse_cons, List.append_assoc]
      rfl

def memberText (p : String × List Char) : List Char := quote p.1 ++ ':' :: p.2

theorem readMembers_memberText {fuel : ℕ} {p : String × List Char} {v : Value} (hp : Reads p.2 v)
    (hlength : (memberText p).length ≤ fuel) (members : Members Value) (rest : List Char) :
    readMembers (fuel + 1) members (memberText p ++ ',' :: rest) =
        readMembers fuel (members.set p.1 v) rest ∧
      readMembers (fuel + 1) members (memberText p ++ '}' :: rest) =
        some (.object (members.set p.1 v), rest) := by
  rw [memberText, List.length_append, List.length_cons] at hlength
  have hread (c : Char) (hc : c = ',' ∨ c = ']' ∨ c = '}') :=
    hp.reads fuel (c :: rest) (by omega) (ends_cons hc rest)
  simp only [memberText, quote, List.cons_append, List.append_assoc, List.nil_append]
  rw [readMembers, readMembers]
  constructor
  · simp only [skipSpace_cons (c := '"') rfl, readStringFrom_quote, skipSpace_cons (c := ':') rfl,
      hread ',' (by simp), skipSpace_cons (c := ',') rfl]
  · simp only [skipSpace_cons (c := '"') rfl, readStringFrom_quote, skipSpace_cons (c := ':') rfl,
      hread '}' (by simp), skipSpace_cons (c := '}') rfl]

theorem readMembers_commas {entries : List (String × List Char)} {pairs : Members Value}
    (h : List.Forall₂ (fun p q => p.1 = q.1 ∧ Reads p.2 q.2) entries pairs) (hsome : entries ≠ [])
    {fuel : ℕ} (hfuel : (commas (entries.map memberText)).length < fuel) (members : Members Value)
    (rest : List Char) : readMembers fuel members (commas (entries.map memberText) ++ '}' :: rest) =
      some (.object (pairs.foldl (fun m p => Members.set m p.1 p.2) members), rest) := by
  induction h generalizing fuel members with
  | nil => exact absurd rfl hsome
  | @cons p q entries pairs hp hrest ih =>
    obtain ⟨fuel, rfl⟩ : ∃ n, fuel = n + 1 := ⟨fuel - 1, by omega⟩
    obtain ⟨hkey, hp⟩ := hp
    cases hrest with
    | nil =>
      rw [List.map_singleton, commas_singleton] at hfuel ⊢
      rw [(readMembers_memberText hp (by omega) members rest).2, hkey]
      rfl
    | @cons p' q' entries pairs hp' hrest =>
      rw [List.map_cons, List.map_cons, commas_cons] at hfuel ⊢
      rw [List.length_append, List.length_cons] at hfuel
      rw [List.append_assoc, List.cons_append, (readMembers_memberText hp (by omega) members _).1,
        hkey]
      exact ih (List.cons_ne_nil _ _) (by rw [List.map_cons]; omega) (members.set q.1 q.2)

theorem Reads.of_succ {t : List Char} {v : Value}
    (starts : ∃ c r, t = c :: r ∧ isSpace c = false ∧ c ≠ ']')
    (reads : ∀ fuel rest, t.length ≤ fuel + 1 → Ends rest →
      readValue (fuel + 1) (t ++ rest) = some (v, rest)) : Reads t v where
  starts := starts
  reads := by
    intro fuel rest hfuel hrest
    obtain ⟨c, r, ht, -⟩ := starts
    cases fuel with
    | zero => simp [ht] at hfuel
    | succ fuel => exact reads fuel rest hfuel hrest

theorem reads_null : Reads "null".toList .null := by
  refine .of_succ ⟨'n', _, rfl, rfl, by decide⟩ fun fuel rest _ _ => ?_
  change readValue (fuel + 1) ('n' :: 'u' :: 'l' :: 'l' :: rest) = _
  rw [readValue, skipSpace_cons rfl]
  rfl

theorem reads_bool (b : Bool) :
    Reads (if b then "true".toList else "false".toList) (.bool b) := by
  cases b
  · refine .of_succ ⟨'f', _, rfl, rfl, by decide⟩ fun fuel rest _ _ => ?_
    change readValue (fuel + 1) ('f' :: 'a' :: 'l' :: 's' :: 'e' :: rest) = _
    rw [readValue, skipSpace_cons rfl]
    rfl
  · refine .of_succ ⟨'t', _, rfl, rfl, by decide⟩ fun fuel rest _ _ => ?_
    change readValue (fuel + 1) ('t' :: 'r' :: 'u' :: 'e' :: rest) = _
    rw [readValue, skipSpace_cons rfl]
    rfl

theorem reads_string (s : String) : Reads (quote s) (.string s) := by
  refine .of_succ ⟨'"', _, rfl, rfl, by decide⟩ fun fuel rest _ _ => ?_
  simp only [quote, List.cons_append, List.append_assoc, List.nil_append]
  rw [readValue, skipSpace_cons rfl]
  simp only [readStringFrom_quote, Option.map_some]

theorem readNumber_written {x : Float} {negative : Bool} {n : Numeral} (h : Written x negative n)
    (hrest : Ends rest) : readNumber ((text x).toList ++ rest) =
      some (mirrored negative n.decimal.toFloat, rest) := by
  rw [h.chars, readNumber_eq]
  cases negative
  · rw [if_neg Bool.false_ne_true, List.nil_append, splitSign_digits h.proper]
    exact readUnsigned_chars false h.proper h.plain hrest
  · exact readUnsigned_chars true h.proper h.plain hrest

theorem exists_cons_written {x : Float} {negative : Bool} {n : Numeral} (h : Written x negative n) :
    ∃ c r, (text x).toList = c :: r ∧ (c = '-' ∨ isDigit c = true) := by
  rw [h.chars]
  cases negative
  · obtain ⟨c, r, hwhole⟩ := List.exists_cons_of_ne_nil h.proper.nonempty
    refine ⟨c, r ++ (pointChars n.fraction ++ n.power.elim [] powerChars), ?_, .inr ?_⟩
    · rw [if_neg Bool.false_ne_true, List.nil_append, Numeral.chars, hwhole]
      rfl
    · exact h.proper.whole c (hwhole ▸ List.mem_cons_self)
  · exact ⟨'-', _, rfl, .inl rfl⟩

section

variable {c : Char} (hc : c = '-' ∨ isDigit c = true)
include hc

theorem ne_of_sign_or_digit {d : Char} (hd : isDigit d = false) (hminus : d ≠ '-') : c ≠ d := by
  rintro rfl
  obtain hc | hc := hc
  · exact hminus hc
  · rw [hc] at hd
    cases hd

theorem isSpace_of_sign_or_digit : isSpace c = false := by
  have hother {d : Char} (hd : isDigit d = false) (hminus : d ≠ '-') : decide (c = d) = false :=
    decide_eq_false (ne_of_sign_or_digit hc hd hminus)
  rw [isSpace, hother rfl (by decide), hother rfl (by decide), hother rfl (by decide),
    hother rfl (by decide)]
  rfl

theorem readValue_number (fuel : ℕ) (s : List Char) :
    readValue (fuel + 1) (c :: s) = (readNumber (c :: s)).map fun p => (.number p.1, p.2) := by
  have hother {d : Char} {r t : List Char} (heq : c :: r = d :: t) (hd : isDigit d = false)
      (hminus : d ≠ '-') : False := by
    injection heq with hhead
    exact ne_of_sign_or_digit hc hd hminus hhead
  rw [readValue, skipSpace_cons (isSpace_of_sign_or_digit hc)]
  split
  · next heq => exact (hother heq rfl (by decide)).elim
  · next heq => exact (hother heq rfl (by decide)).elim
  · next heq => exact (hother heq rfl (by decide)).elim
  · next heq => exact (hother heq rfl (by decide)).elim
  · next heq => exact (hother heq rfl (by decide)).elim
  · next heq => exact (hother heq rfl (by decide)).elim
  · rfl

end

theorem reads_number {x : Float} (hx : x.isFinite = true) :
    ∃ y, Reads (numberChars x) (.number y) ∧ (x == y) = true := by
  obtain ⟨negative, n, h⟩ := exists_written hx
  refine ⟨mirrored negative n.decimal.toFloat, ?_,
    (beq_iff_exact_eq hx h.read.finite).mpr h.read.value.symm⟩
  obtain ⟨c, r, ht, hc⟩ := exists_cons_written h
  rw [numberChars, if_pos hx]
  refine .of_succ ⟨c, r, ht, isSpace_of_sign_or_digit hc,
    ne_of_sign_or_digit hc rfl (by decide)⟩ fun fuel rest _ hrest => ?_
  have hread := readNumber_written h hrest
  rw [ht, List.cons_append] at hread ⊢
  rw [readValue_number hc, hread]
  rfl

theorem reads_list {texts : List (List Char)} {values : List Value}
    (h : List.Forall₂ Reads texts values) :
    Reads ('[' :: commas texts ++ [']']) (.list values) := by
  refine .of_succ ⟨'[', _, rfl, rfl, by decide⟩ fun fuel rest hfuel _ => ?_
  simp only [List.cons_append, List.append_assoc, List.nil_append]
  rw [readValue, skipSpace_cons rfl]
  cases h with
  | nil => rfl
  | @cons t v texts values ht hrest =>
    obtain ⟨c, r, hstart, hspace, hbracket⟩ := ht.starts
    obtain ⟨tail, htail⟩ : ∃ tail, commas (t :: texts) ++ ']' :: rest = c :: tail := by
      cases texts with
      | nil => exact ⟨_, by rw [commas_singleton, hstart]; rfl⟩
      | cons u texts => exact ⟨_, by rw [commas_cons, hstart]; rfl⟩
    have hlength : (commas (t :: texts)).length < fuel := by
      simp at hfuel
      omega
    have hitems := readItems_commas (.cons ht hrest) (List.cons_ne_nil _ _) hlength [] rest
    rw [htail] at hitems ⊢
    simp only [skipSpace_cons hspace]
    split
    · next heq =>
      injection heq with hhead
      exact absurd hhead hbracket
    · exact hitems

theorem reads_object {entries : List (String × List Char)} {pairs : Members Value}
    (h : List.Forall₂ (fun p q => p.1 = q.1 ∧ Reads p.2 q.2) entries pairs) :
    Reads ('{' :: commas (entries.map memberText) ++ ['}']) (.object (Members.ofList pairs)) := by
  refine .of_succ ⟨'{', _, rfl, rfl, by decide⟩ fun fuel rest hfuel _ => ?_
  simp only [List.cons_append, List.append_assoc, List.nil_append]
  rw [readValue, skipSpace_cons rfl]
  cases h with
  | nil => rfl
  | @cons p q entries pairs hp hrest =>
    have hlength : (commas ((p :: entries).map memberText)).length < fuel := by
      simp at hfuel ⊢
      omega
    have hmembers := readMembers_commas (.cons hp hrest) (List.cons_ne_nil _ _) hlength [] rest
    obtain ⟨tail, htail⟩ : ∃ tail, commas ((p :: entries).map memberText) ++ '}' :: rest =
        '"' :: tail := by
      cases entries with
      | nil => exact ⟨_, by rw [List.map_singleton, commas_singleton]; rfl⟩
      | cons p' entries => exact ⟨_, by rw [List.map_cons, List.map_cons, commas_cons]; rfl⟩
    rw [htail] at hmembers ⊢
    simp only [skipSpace_cons (c := '"') rfl]
    exact hmembers

theorem exists_forall₂ {α β : Type} {R : α → β → Prop} {l : List α} (h : ∀ x ∈ l, ∃ y, R x y) :
    ∃ l', List.Forall₂ R l l' := by
  induction l with
  | nil => exact ⟨[], .nil⟩
  | cons x l ih =>
    obtain ⟨⟨y, hy⟩, hl⟩ := List.forall_mem_cons.mp h
    obtain ⟨l', hl'⟩ := ih hl
    exact ⟨y :: l', .cons hy hl'⟩

theorem Same.isAbsent_eq_false {a b : Value} (h : Same a b) : b.isAbsent = false := by
  cases h <;> rfl

theorem same_members {members pairs : Members Value} (distinct : members.keys.Nodup)
    (h : List.Forall₂ (fun p q => p.1 = q.1 ∧ ∃ v, present members p.1 = some v ∧ Same v q.2)
      (sortMembers (canonicalMembers members)) pairs) (key : String) :
    Option.Rel Same (present members key) (present (Members.ofList pairs) key) := by
  have hkeys : (sortMembers (canonicalMembers members)).map Prod.fst = pairs.keys := by
    rw [Members.keys, ← List.forall₂_eq_eq_eq, List.forall₂_map_left_iff,
      List.forall₂_map_right_iff]
    exact h.imp fun _ _ h => h.1
  have hdistinct : pairs.keys.Nodup := by
    rw [← hkeys, ((sortMembers_perm _).map Prod.fst).nodup_iff]
    exact nodup_canonicalMembers distinct
  have hget : present (Members.ofList pairs) key = present pairs key := by
    rw [present, present, Members.get?_ofList hdistinct]
  rw [hget]
  -- What was read under a key and what is present under it have one text, and each tells of the
  -- other.
  cases hv : present members key with
  | some v =>
    have hentry : (key, canonicalChars v) ∈ sortMembers (canonicalMembers members) :=
      (sortMembers_perm _).mem_iff.mpr ((mem_canonicalMembers distinct).mpr ⟨v, hv, rfl⟩)
    obtain ⟨⟨key', w⟩, hmem, hkey, v', hv', hsame⟩ := Outcome.exists_of_mem_left h hentry
    obtain rfl : key = key' := hkey
    obtain rfl : v = v' := Option.some_injective _ (hv.symm.trans hv')
    have hw : present pairs key = some w := by
      rw [present, Members.get?_of_mem hdistinct hmem, Option.filter_some,
        hsame.isAbsent_eq_false]
      rfl
    rw [hw]
    exact .some hsame
  | none =>
    cases hw : present pairs key with
    | none => exact .none
    | some w =>
      obtain ⟨p, -, hkey, v, hv', -⟩ := Outcome.exists_of_mem_right h (mem_of_present hw).1
      rw [hkey, hv] at hv'
      cases hv'

theorem exists_reads {a : Value} (ha : IsJson a) :
    ∃ a', Reads (canonicalChars a) a' ∧ Same a a' := by
  induction a using value_induction with
  | null => exact ⟨_, reads_null, .null⟩
  | bool b => exact ⟨_, reads_bool b, .bool b⟩
  | string s => exact ⟨_, reads_string s, .string s⟩
  | instant | absent => cases ha
  | number x =>
    cases ha with
    | number hx =>
      obtain ⟨y, hread, hsame⟩ := reads_number hx
      exact ⟨_, hread, .number hsame⟩
  | list items ih =>
    cases ha with
    | list ha =>
      obtain ⟨values, h⟩ := exists_forall₂ (l := items)
        (R := fun v w => Reads (canonicalChars v) w ∧ Same v w) fun v hv => ih v hv (ha v hv)
      refine ⟨.list values, ?_, .list (h.imp fun _ _ h => h.2)⟩
      rw [canonicalChars, canonicalItems_eq]
      exact reads_list (List.forall₂_map_left_iff.mpr (h.imp fun _ _ h => h.1))
  | object members ih =>
    cases ha with
    | object distinct ha =>
      -- Each key with its text is read as the key and a value that is the same.
      have hentries : ∀ p ∈ sortMembers (canonicalMembers members), ∃ q : String × Value,
          p.1 = q.1 ∧ Reads p.2 q.2 ∧ ∃ v, present members p.1 = some v ∧ Same v q.2 := by
        intro p hp
        obtain ⟨v, hv, htext⟩ := (mem_canonicalMembers distinct).mp
          ((sortMembers_perm _).mem_iff.mp hp)
        obtain ⟨hmem, hpresent⟩ := mem_of_present hv
        obtain ⟨w, hread, hsame⟩ := ih p.1 v hmem (ha p.1 v hmem hpresent)
        exact ⟨(p.1, w), rfl, htext ▸ hread, v, hv, hsame⟩
      obtain ⟨pairs, h⟩ := exists_forall₂ hentries
      refine ⟨.object (Members.ofList pairs), ?_, .object (same_members distinct ?_)⟩
      · exact reads_object (h.imp fun _ _ h => ⟨h.1, h.2.1⟩)
      · exact h.imp fun _ _ h => ⟨h.1, h.2.2⟩

/-- The canonical text tells a value up to absent members and the order of members: what is read of
it is the same value, and two values have one text just if they are the same. -/
theorem canonical_iff_same {a b : Value} (ha : IsJson a) (hb : IsJson b) :
    (canonical a = canonical b ↔ Same a b) ∧ ∃ a', parse (canonical a) = some a' ∧ Same a a' := by
  have hparse {a : Value} (ha : IsJson a) : ∃ a', parse (canonical a) = some a' ∧ Same a a' := by
    obtain ⟨a', hread, hsame⟩ := exists_reads ha
    refine ⟨a', ?_, hsame⟩
    have hvalue :=
      hread.reads (2 * (canonicalChars a).length + 2) [] (by omega) fun _ h => by cases h
    rw [List.append_nil] at hvalue
    rw [parse, canonical, String.toList_ofList]
    simp only [hvalue]
    rfl
  refine ⟨⟨fun heq => ?_, fun hsame => ?_⟩, hparse ha⟩
  · obtain ⟨a', hread, hsame⟩ := hparse ha
    obtain ⟨b', hread', hsame'⟩ := hparse hb
    rw [heq, hread'] at hread
    cases hread
    exact hsame.trans hsame'.symm
  · rw [canonical, canonical, hsame.canonicalChars_eq ha hb]

/-- Neither an absent member nor the order of members makes a difference. -/
theorem canonical_iff_same_reordered :
    canonical (.object [("b", .number 1), ("a", .list [.null]), ("c", .absent)]) =
        canonical (.object [("a", .list [.null]), ("b", .number 1)]) ∧
      ∃ a, parse (canonical (.object [("b", .number 1), ("a", .list [.null]), ("c", .absent)])) =
        some a ∧ Same (.object [("b", .number 1), ("a", .list [.null]), ("c", .absent)]) a := by
  have hlist : IsJson (.list [.null]) := .list fun v hv => by
    rw [List.mem_singleton.mp hv]
    exact .null
  have hjson : IsJson (.object [("b", .number 1), ("a", .list [.null]), ("c", .absent)]) := by
    refine .object (by decide) fun key v hv hpresent => ?_
    simp only [List.mem_cons, Prod.mk.injEq, List.not_mem_nil, or_false] at hv
    obtain ⟨-, rfl⟩ | ⟨-, rfl⟩ | ⟨-, rfl⟩ := hv
    · exact .number rfl
    · exact hlist
    · cases hpresent
  have hjson' : IsJson (.object [("a", .list [.null]), ("b", .number 1)]) := by
    refine .object (by decide) fun key v hv hpresent => ?_
    simp only [List.mem_cons, Prod.mk.injEq, List.not_mem_nil, or_false] at hv
    obtain ⟨-, rfl⟩ | ⟨-, rfl⟩ := hv
    · exact hlist
    · exact .number rfl
  have hsame : Same (.object [("b", .number 1), ("a", .list [.null]), ("c", .absent)])
      (.object [("a", .list [.null]), ("b", .number 1)]) := by
    refine .object fun key => ?_
    simp only [present, Members.get?_cons]
    by_cases ha : key = "a"
    · subst ha
      exact .some (.list (.cons .null .nil))
    · by_cases hb : key = "b"
      · subst hb
        exact .some (.number rfl)
      · by_cases hc : key = "c"
        · subst hc
          exact .none
        · simp only [ha, hb, hc, if_false]
          exact .none
  obtain ⟨hiff, hparse⟩ := canonical_iff_same hjson hjson'
  exact ⟨hiff.mpr hsame, hparse⟩

end SkillPipeline.Json
