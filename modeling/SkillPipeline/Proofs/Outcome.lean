import Mathlib.Data.List.Forall2

namespace SkillPipeline.Outcome

variable {ε α β σ : Type}

theorem bind_eq_ok {x : Except ε α} {f : α → Except ε β} {b : β} :
    (x >>= f) = .ok b ↔ ∃ a, x = .ok a ∧ f a = .ok b := by
  cases x with
  | error e => simp [bind, Except.bind]
  | ok a => simp [bind, Except.bind]

theorem pure_eq_ok {a b : α} : (pure a : Except ε α) = .ok b ↔ a = b := by
  simp [pure, Except.pure]

theorem exists_of_isOk {x : Except ε α} (h : x.isOk = true) : ∃ a, x = .ok a := by
  cases x with
  | error e => cases h
  | ok a => exact ⟨a, rfl⟩

theorem map_eq_ok {x : Except ε α} {f : α → β} {b : β} :
    x.map f = .ok b ↔ ∃ a, x = .ok a ∧ f a = b := by
  cases x with
  | error e => simp [Except.map]
  | ok a => simp [Except.map]

theorem map_toOption_eq_some {x : Except ε α} {f : α → β} {b : β} :
    (x.map f).toOption = some b ↔ ∃ a, x = .ok a ∧ f a = b := by
  cases x with
  | error e => simp [Except.map, Except.toOption]
  | ok a => simp [Except.map, Except.toOption]

theorem fmap_eq_ok {x : Except ε α} {f : α → β} {b : β} :
    f <$> x = .ok b ↔ ∃ a, x = .ok a ∧ f a = b := map_eq_ok

theorem bind_eq_error {x : Except ε α} {f : α → Except ε β} {e : ε} :
    (x >>= f) = .error e ↔ x = .error e ∨ ∃ a, x = .ok a ∧ f a = .error e := by
  cases x with
  | error e' => simp [bind, Except.bind]
  | ok a => simp [bind, Except.bind]

theorem map_eq_error {x : Except ε α} {f : α → β} {e : ε} : x.map f = .error e ↔ x = .error e := by
  cases x with
  | error e' => simp [Except.map]
  | ok a => simp [Except.map]

theorem mapM_eq_ok {f : α → Except ε β} {l : List α} {r : List β} :
    l.mapM f = .ok r ↔ List.Forall₂ (fun a b => f a = .ok b) l r := by
  induction l generalizing r with
  | nil =>
    rw [List.mapM_nil, pure_eq_ok, List.forall₂_nil_left_iff, eq_comm]
  | cons a l ih =>
    simp only [List.mapM_cons, bind_eq_ok, pure_eq_ok, List.forall₂_cons_left_iff, ih]
    constructor
    · rintro ⟨b, hb, bs, hbs, rfl⟩
      exact ⟨b, bs, hb, hbs, rfl⟩
    · rintro ⟨b, bs, hb, hbs, rfl⟩
      exact ⟨b, hb, bs, hbs, rfl⟩

/-- What is related to an element of a list, one by one, is in the other list. -/
theorem exists_of_mem_left {R : α → β → Prop} {l : List α} {r : List β} (h : List.Forall₂ R l r)
    {a : α} (ha : a ∈ l) : ∃ b ∈ r, R a b := by
  induction h with
  | nil => cases ha
  | @cons first b l r hfirst hrest ih =>
    obtain rfl | ha := List.mem_cons.mp ha
    · exact ⟨b, List.mem_cons_self, hfirst⟩
    · obtain ⟨c, hc, hac⟩ := ih ha
      exact ⟨c, List.mem_cons_of_mem b hc, hac⟩

theorem exists_of_mem_right {R : α → β → Prop} {l : List α} {r : List β} (h : List.Forall₂ R l r)
    {b : β} (hb : b ∈ r) : ∃ a ∈ l, R a b :=
  exists_of_mem_left h.flip hb

theorem forall₂_mem {R : α → β → Prop} {l : List α} {r : List β} (h : List.Forall₂ R l r) :
    List.Forall₂ (fun a b => a ∈ l ∧ b ∈ r ∧ R a b) l r := by
  refine List.forall₂_iff_zip.mpr ⟨h.length_eq, fun {a b} hmem => ?_⟩
  obtain ⟨ha, hb⟩ := List.of_mem_zip hmem
  exact ⟨ha, hb, List.forall₂_zip h hmem⟩

theorem map_eq_of_forall₂ {γ : Type} {R : α → β → Prop} {f : α → γ} {g : β → γ} {l : List α}
    {r : List β} (h : List.Forall₂ R l r) (heq : ∀ a b, R a b → g b = f a) : r.map g = l.map f := by
  induction h with
  | nil => rfl
  | cons hfirst hrest ih => rw [List.map_cons, List.map_cons, heq _ _ hfirst, ih]

theorem forall₂_filter {R : α → β → Prop} {p : α → Bool} {q : β → Bool} {l : List α}
    {r : List β} (h : List.Forall₂ R l r) (hpq : ∀ a b, R a b → p a = q b) :
    List.Forall₂ R (l.filter p) (r.filter q) := by
  induction h with
  | nil => exact .nil
  | cons hfirst hrest ih =>
    rw [List.filter_cons, List.filter_cons, hpq _ _ hfirst]
    split
    · exact .cons hfirst ih
    · exact ih

/-- What is true of all that an element is related to is true of everything together. -/
theorem forall_mem_flatten {R : α → List β → Prop} {P : β → Prop} {l : List α} {r : List (List β)}
    (h : List.Forall₂ R l r) (hP : ∀ a bs, R a bs → ∀ b ∈ bs, P b) : ∀ b ∈ r.flatten, P b := by
  intro b hb
  obtain ⟨bs, hbs, hb⟩ := List.mem_flatten.mp hb
  obtain ⟨a, -, hR⟩ := exists_of_mem_right h hbs
  exact hP a bs hR b hb

theorem foldlM_cons_eq_ok {f : σ → α → Except ε σ} {a : α} {l : List α} {s t : σ} :
    (a :: l).foldlM f s = .ok t ↔ ∃ u, f s a = .ok u ∧ l.foldlM f u = .ok t := by
  rw [List.foldlM_cons, bind_eq_ok]

theorem exists_of_mapM_error {f : α → Except ε β} {l : List α} {e : ε} (h : l.mapM f = .error e) :
    ∃ a ∈ l, f a = .error e := by
  induction l with
  | nil => cases h
  | cons a rest ih =>
    rw [List.mapM_cons, bind_eq_error] at h
    obtain ha | ⟨b, -, hrest⟩ := h
    · exact ⟨a, List.mem_cons_self, ha⟩
    · obtain hrest | ⟨bs, -, hpure⟩ := bind_eq_error.mp hrest
      · obtain ⟨c, hc, hfault⟩ := ih hrest
        exact ⟨c, List.mem_cons_of_mem a hc, hfault⟩
      · cases hpure

theorem exists_mapM {f : α → Except ε β} {l : List α} :
    (∃ r, l.mapM f = .ok r) ↔ ∀ a ∈ l, ∃ b, f a = .ok b := by
  constructor
  · rintro ⟨r, hr⟩ a ha
    obtain ⟨b, -, hb⟩ := exists_of_mem_left (mapM_eq_ok.mp hr) ha
    exact ⟨b, hb⟩
  · intro h
    cases hr : l.mapM f with
    | ok r => exact ⟨r, rfl⟩
    | error e =>
      obtain ⟨a, ha, hfault⟩ := exists_of_mapM_error hr
      obtain ⟨b, hb⟩ := h a ha
      cases hfault.symm.trans hb

theorem exists_of_foldlM_error {f : σ → α → Except ε σ} {l : List α} {s : σ} {e : ε}
    (h : l.foldlM f s = .error e) : ∃ a ∈ l, ∃ t, f t a = .error e := by
  induction l generalizing s with
  | nil => cases h
  | cons a rest ih =>
    rw [List.foldlM_cons, bind_eq_error] at h
    obtain ha | ⟨t, -, hrest⟩ := h
    · exact ⟨a, List.mem_cons_self, s, ha⟩
    · obtain ⟨c, hc, hfault⟩ := ih hrest
      exact ⟨c, List.mem_cons_of_mem a hc, hfault⟩

section Gives

variable {P : α → Prop} {Q : β → Prop} {x : Except ε α} {f : α → Except ε β}

/-- If the work succeeds, its answer has the property. -/
def Gives (P : α → Prop) (x : Except ε α) : Prop := ∀ a, x = .ok a → P a

theorem gives_ok {a : α} (h : P a) : Gives P (.ok a : Except ε α) := by
  intro b hb
  cases hb
  exact h

theorem gives_error {e : ε} : Gives P (.error e) := by
  intro a ha
  cases ha

theorem gives_bind (h : ∀ a, x = .ok a → Gives Q (f a)) : Gives Q (x >>= f) := by
  intro b hb
  obtain ⟨a, ha, hb⟩ := bind_eq_ok.mp hb
  exact h a ha b hb

theorem Gives.bind (hx : Gives P x) (hf : ∀ a, P a → Gives Q (f a)) : Gives Q (x >>= f) :=
  gives_bind fun a ha => hf a (hx a ha)

theorem Gives.map {g : α → β} (hx : Gives P x) (hg : ∀ a, P a → Q (g a)) : Gives Q (x.map g) := by
  intro b hb
  obtain ⟨a, ha, rfl⟩ := map_eq_ok.mp hb
  exact hg a (hx a ha)

theorem gives_mapM {l : List α} (h : ∀ a ∈ l, Gives Q (f a)) :
    Gives (fun bs => ∀ b ∈ bs, Q b) (l.mapM f) := by
  intro bs hbs b hb
  obtain ⟨a, ha, hab⟩ := exists_of_mem_right ((List.forall₂_and_left _ _).mpr
    ⟨fun _ ha => ha, mapM_eq_ok.mp hbs⟩) hb
  exact h a hab.1 b hab.2

end Gives

section FailsBy

variable {E : ε → Prop} {x : Except ε α} {f : α → Except ε β}

def FailsBy (E : ε → Prop) (x : Except ε α) : Prop := ∀ e, x = .error e → E e

theorem failsBy_ok {a : α} : FailsBy E (.ok a : Except ε α) := by
  intro e he
  cases he

theorem failsBy_error {e : ε} (h : E e) : FailsBy E (.error e : Except ε α) := by
  intro e' he
  cases he
  exact h

theorem failsBy_bind (hx : FailsBy E x) (hf : ∀ a, x = .ok a → FailsBy E (f a)) :
    FailsBy E (x >>= f) := by
  intro e he
  obtain he | ⟨a, ha, he⟩ := bind_eq_error.mp he
  · exact hx e he
  · exact hf a ha e he

theorem FailsBy.map {g : α → β} (hx : FailsBy E x) : FailsBy E (x.map g) := by
  intro e he
  exact hx e (map_eq_error.mp he)

end FailsBy

end SkillPipeline.Outcome

namespace SkillPipeline.Outcome

variable {ε δ α β α' β' σ τ : Type} {P : α → β → Prop} {Q : α' → β' → Prop}

/-- Both succeed, with related answers, or both fail. -/
def Agree (P : α → β → Prop) : Except ε α → Except δ β → Prop
  | .ok a, .ok b => P a b
  | .error _, .error _ => True
  | _, _ => False

theorem Agree.ok {a : α} {b : β} (h : P a b) : Agree P (.ok a : Except ε α) (.ok b : Except δ β) :=
  h

theorem Agree.error {e : ε} {f : δ} : Agree P (.error e) (.error f) := trivial

variable {x : Except ε α} {y : Except δ β}

/-- Where work agrees, one succeeds as the other does, and the answers are related. -/
theorem Agree.exists_iff (h : Agree P x y) : (∃ a, x = .ok a) ↔ ∃ b, y = .ok b := by
  cases x <;> cases y
  · simp
  · exact h.elim
  · exact h.elim
  · simp

theorem Agree.of_ok (h : Agree P x y) {a : α} {b : β} (ha : x = .ok a) (hb : y = .ok b) :
    P a b := by
  subst ha hb
  exact h

theorem Agree.mono {P' : α → β → Prop} (h : Agree P x y)
    (hP : ∀ a b, x = .ok a → y = .ok b → P a b → P' a b) : Agree P' x y := by
  cases x <;> cases y
  · trivial
  · exact h
  · exact h
  · exact hP _ _ rfl rfl h

theorem Agree.bind {f : α → Except ε α'} {g : β → Except δ β'} (h : Agree P x y)
    (hfg : ∀ a b, P a b → Agree Q (f a) (g b)) : Agree Q (x >>= f) (y >>= g) := by
  cases x <;> cases y
  · trivial
  · exact h.elim
  · exact h.elim
  · exact hfg _ _ h

theorem Agree.map {f : α → α'} {g : β → β'} (h : Agree P x y) (hfg : ∀ a b, P a b → Q (f a) (g b)) :
    Agree Q (x.map f) (y.map g) := by
  cases x <;> cases y
  · trivial
  · exact h.elim
  · exact h.elim
  · exact hfg _ _ h

theorem agree_of_image {γ : Type} {f : α → γ} {g : β → γ}
    (h : ∀ c, (∃ a, x = .ok a ∧ f a = c) ↔ ∃ b, y = .ok b ∧ g b = c) :
    Agree (fun a b => f a = g b) x y := by
  cases x with
  | error e =>
    cases y with
    | error e' => trivial
    | ok b =>
      obtain ⟨a, ha, -⟩ := (h (g b)).mpr ⟨b, rfl, rfl⟩
      cases ha
  | ok a =>
    obtain ⟨b, hb, heq⟩ := (h (f a)).mp ⟨a, rfl, rfl⟩
    rw [hb]
    exact heq.symm

theorem agree_mapM {R : σ → τ → Prop} {f : σ → Except ε α} {g : τ → Except δ β} {l : List σ}
    {r : List τ} (h : List.Forall₂ R l r) (hfg : ∀ s t, R s t → Agree P (f s) (g t)) :
    Agree (List.Forall₂ P) (l.mapM f) (r.mapM g) := by
  induction h with
  | nil => exact .nil
  | cons hfirst hrest ih =>
    rw [List.mapM_cons, List.mapM_cons]
    refine (hfg _ _ hfirst).bind fun a b hab => ?_
    refine ih.bind fun as bs habs => ?_
    exact List.Forall₂.cons hab habs

theorem agree_foldlM {R : σ → τ → Prop} {f : α → σ → Except ε α} {g : β → τ → Except δ β}
    {l : List σ} {r : List τ} (h : List.Forall₂ R l r) {a : α} {b : β} (hab : P a b)
    (hfg : ∀ a b s t, P a b → R s t → Agree P (f a s) (g b t)) :
    Agree P (l.foldlM f a) (r.foldlM g b) := by
  induction h generalizing a b with
  | nil => exact hab
  | cons hfirst hrest ih =>
    rw [List.foldlM_cons, List.foldlM_cons]
    exact (hfg _ _ _ _ hab hfirst).bind fun a' b' hab' => ih hab'

theorem agree_foldlM_same {f : α → σ → Except ε α} {g : β → σ → Except δ β} {l : List σ} {a : α}
    {b : β} (hab : P a b) (hfg : ∀ a b s, P a b → Agree P (f a s) (g b s)) :
    Agree P (l.foldlM f a) (l.foldlM g b) := by
  refine agree_foldlM (List.forall₂_same.mpr fun s _ => Eq.refl s) hab fun a b s t hab hst => ?_
  subst hst
  exact hfg a b s hab

/-- If both succeed, the answers are related. -/
def Linked (P : α → β → Prop) (x : Except ε α) (y : Except δ β) : Prop :=
  ∀ a b, x = .ok a → y = .ok b → P a b

theorem Agree.linked (h : Agree P x y) : Linked P x y := fun _ _ ha hb => h.of_ok ha hb

theorem linked_ok {a : α} {b : β} (h : P a b) :
    Linked P (.ok a : Except ε α) (.ok b : Except δ β) := by
  intro a' b' ha hb
  cases ha
  cases hb
  exact h

theorem linked_error {e : ε} : Linked P (.error e : Except ε α) y := by
  intro a b ha _
  cases ha

theorem linked_error_right {e : δ} : Linked P x (.error e : Except δ β) := by
  intro a b _ hb
  cases hb

theorem linked_bind {f : α → Except ε α'} {g : β → Except δ β'}
    (hfg : ∀ a b, x = .ok a → y = .ok b → Linked Q (f a) (g b)) : Linked Q (x >>= f) (y >>= g) := by
  intro a' b' ha hb
  obtain ⟨a, hx, ha⟩ := bind_eq_ok.mp ha
  obtain ⟨b, hy, hb⟩ := bind_eq_ok.mp hb
  exact hfg a b hx hy a' b' ha hb

theorem Linked.bind {f : α → Except ε α'} {g : β → Except δ β'} (h : Linked P x y)
    (hfg : ∀ a b, P a b → Linked Q (f a) (g b)) : Linked Q (x >>= f) (y >>= g) :=
  linked_bind fun a b ha hb => hfg a b (h a b ha hb)

theorem Gives.linked {P : α → α → Prop} (h : Gives (fun a => P a a) x) : Linked P x x := by
  intro a b ha hb
  obtain rfl : a = b := Except.ok.inj (ha.symm.trans hb)
  exact h a ha

theorem linked_same {y : Except ε α} {f : α → Except ε α'} {g : α → Except ε β'} (h : x = y)
    (hfg : ∀ a, y = .ok a → Linked Q (f a) (g a)) : Linked Q (x >>= f) (y >>= g) := by
  subst h
  refine linked_bind fun a b ha hb => ?_
  obtain rfl : a = b := Except.ok.inj (ha.symm.trans hb)
  exact hfg a ha

theorem linked_mapM {R : σ → τ → Prop} {f : σ → Except ε α} {g : τ → Except δ β} {l : List σ}
    {r : List τ} (h : List.Forall₂ R l r) (hfg : ∀ s t, R s t → Linked P (f s) (g t)) :
    Linked (List.Forall₂ P) (l.mapM f) (r.mapM g) := by
  induction h with
  | nil => exact linked_ok .nil
  | cons hfirst hrest ih =>
    rw [List.mapM_cons, List.mapM_cons]
    refine (hfg _ _ hfirst).bind fun a b hab => ?_
    refine ih.bind fun as bs habs => ?_
    exact linked_ok (.cons hab habs)

theorem linked_foldlM {R : σ → τ → Prop} {f : α → σ → Except ε α} {g : β → τ → Except δ β}
    {l : List σ} {r : List τ} (h : List.Forall₂ R l r) {a : α} {b : β} (hab : P a b)
    (hfg : ∀ a b s t, P a b → R s t → Linked P (f a s) (g b t)) :
    Linked P (l.foldlM f a) (r.foldlM g b) := by
  induction h generalizing a b with
  | nil => exact linked_ok hab
  | cons hfirst hrest ih =>
    rw [List.foldlM_cons, List.foldlM_cons]
    exact (hfg _ _ _ _ hab hfirst).bind fun a' b' hab' => ih hab'

end SkillPipeline.Outcome
