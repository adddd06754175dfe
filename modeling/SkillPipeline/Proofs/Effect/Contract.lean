import SkillPipeline.Effect.Handler
import SkillPipeline.Proofs.Files.Access
import SkillPipeline.Proofs.Graph.Wiring

namespace SkillPipeline

inductive Need where
  /-- A parameter that has a value. -/
  | value (name : String)
  /-- A parameter that has a value, if it is there. -/
  | valueIfAny (name : String)
  /-- A parameter that has a number for its value. -/
  | number (name : String)
  /-- A parameter that has a number for its value, if it is there. -/
  | numberIfAny (name : String)
  /-- A parameter that has a switch for its value. -/
  | flag (name : String)
  /-- A parameter that has a time for its value, if it has one. -/
  | timeIfAny (name : String)
  /-- An extra input of the step's own. -/
  | ownInput
  deriving DecidableEq, Repr

namespace Need

def Met (p : Params) (ctx : HandlerContext) : Need → Prop
  | .value name => (p.raw? name).isSome = true
  | .valueIfAny name => p.has name = true → (p.raw? name).isSome = true
  | .number name => ∃ n, p.raw? name = some (.number n)
  | .numberIfAny name => p.has name = true → ∃ n, p.raw? name = some (.number n)
  | .flag name => ∃ b, p.raw? name = some (.flag b)
  | .timeIfAny name => ∀ v, p.raw? name = some v →
      (∃ n, v = .number n) ∨ (TimeText.parse Float v.shown).isSome = true
  | .ownInput => (ctx.ownInputs.head?.bind ctx.extra?).isSome = true

end Need

theorem Params.has_of_raw? {p : Params} {name : String} {v : ParamValue}
    (h : p.raw? name = some v) :
    p.has name = true := by
  rw [raw?, Option.filter_eq_some_iff] at h
  rw [has, h.1, Option.isSome_some]

/-- The colour for text that the step gives is one that every table of colours inherits. -/
def Params.InheritsColor (p : Params) (m : Inherited) : Prop :=
  ∃ v, p.raw? "fontcolor" = some v ∧ Inherited.find? (Text.lower v.shown) = some m

structure Reliance where
  needs : List Need
  params : Params
  ctx : HandlerContext

namespace Reliance

def Failed (r : Reliance) : Prop := ∃ need ∈ r.needs, ¬ need.Met r.params r.ctx

/-- The faults for which a handler is not to blame: those of the request, numbers that are not
finite, colours that are inherited, files that the system refuses to look at, and where some need is
not met any fault but one; an input of its own it misses only if it needs one and has none. -/
def Excuses (r : Reliance) : Fault → Prop
  | .invariant (.notFinite n) => n.isFinite = false ∨ r.Failed
  | .invariant (.notText kind) => (∃ m, r.params.InheritsColor m ∧ kind = m.kindName) ∨ r.Failed
  | .invariant (.noReservedInput _) => .ownInput ∈ r.needs ∧ ¬Need.ownInput.Met r.params r.ctx
  | .invariant _ => r.Failed
  | .exception e => ∃ path f, r.ctx.files.lookUp path = .error f ∧ e = .system f
  | _ => True

/-- If the work succeeds its answer has the property, and if not its fault is excused. -/
def Meets {α : Type} (r : Reliance) (x : Except Fault α) (P : α → Prop) : Prop :=
  match x with
  | .ok a => P a
  | .error f => r.Excuses f

variable {r : Reliance} {α β : Type}

theorem Meets.of_eq_ok {x : Except Fault α} {P : α → Prop} {a : α} (h : r.Meets x P)
    (hx : x = .ok a) : P a := by
  rw [hx] at h
  exact h

theorem Meets.of_eq_error {x : Except Fault α} {P : α → Prop} {f : Fault} (h : r.Meets x P)
    (hx : x = .error f) : r.Excuses f := by
  rw [hx] at h
  exact h

theorem Meets.mono {x : Except Fault α} {P Q : α → Prop} (h : r.Meets x P)
    (hpq : ∀ a, P a → Q a) : r.Meets x Q := by
  cases x with
  | ok a => exact hpq a h
  | error f => exact h

@[simp] theorem meets_ok {a : α} {P : α → Prop} : r.Meets (.ok a) P ↔ P a := Iff.rfl

@[simp] theorem meets_pure {a : α} {P : α → Prop} : r.Meets (pure a) P ↔ P a := Iff.rfl

@[simp] theorem meets_error {f : Fault} {P : α → Prop} :
    r.Meets (.error f) P ↔ r.Excuses f := Iff.rfl

@[simp] theorem meets_bind {x : Except Fault α} {k : α → Except Fault β} {P : β → Prop} :
    r.Meets (x >>= k) P ↔ r.Meets x fun a => r.Meets (k a) P := by
  cases x <;> rfl

@[simp] theorem meets_map {x : Except Fault α} {g : α → β} {P : β → Prop} :
    r.Meets (x.map g) P ↔ r.Meets x fun a => P (g a) := by
  cases x <;> rfl

@[simp] theorem meets_fmap {x : Except Fault α} {g : α → β} {P : β → Prop} :
    r.Meets (g <$> x) P ↔ r.Meets x fun a => P (g a) := meets_map

@[simp] theorem meets_ite {c : Prop} [Decidable c] {x y : Except Fault α} {P : α → Prop} :
    r.Meets (if c then x else y) P ↔ (c → r.Meets x P) ∧ (¬ c → r.Meets y P) := by
  by_cases h : c <;> simp [h]

@[simp] theorem excuses_validation (cause : ValidationFault) : r.Excuses (.validation cause) :=
  trivial

@[simp] theorem excuses_sanitization (path : String) (cause : PathFault) :
    r.Excuses (.sanitization path cause) := trivial

theorem excuses_notFinite {n : Float} (h : n.isFinite = false) :
    r.Excuses (.invariant (.notFinite n)) := .inl h

theorem Failed.excuses (h : r.Failed) {cause : InvariantFault}
    (hcause : ∀ skill, cause ≠ .noReservedInput skill) : r.Excuses (.invariant cause) := by
  unfold Excuses
  split
  · exact .inr h
  · exact .inr h
  · next skill heq => exact absurd (Fault.invariant.inj heq) (hcause skill)
  · exact h
  · next heq => cases heq
  · trivial

theorem meets_of_forall {x : Except Fault α} {Q : α → Prop} (h : r.Meets x fun _ => True)
    (hq : ∀ a, Q a) : r.Meets x Q := h.mono fun a _ => hq a

theorem meets_mapM {γ : Type} {f : α → Except Fault β} {g : β → γ} {h : α → γ} {l : List α}
    (hf : ∀ a ∈ l, r.Meets (f a) fun b => g b = h a) :
    r.Meets (l.mapM f) fun bs => bs.map g = l.map h := by
  induction l with
  | nil => rfl
  | cons a rest ih =>
    rw [List.mapM_cons, meets_bind]
    refine (hf a List.mem_cons_self).mono fun b hb => ?_
    rw [meets_bind]
    refine (ih fun c hc => hf c (List.mem_cons_of_mem a hc)).mono fun bs hbs => ?_
    rw [meets_pure, List.map_cons, List.map_cons, hb, hbs]

@[simp] theorem meets_mapM_true {f : α → Except Fault β} {l : List α}
    (hf : ∀ a ∈ l, r.Meets (f a) fun _ => True) : r.Meets (l.mapM f) fun _ => True :=
  (meets_mapM (g := fun _ => ()) (h := fun _ => ()) fun a ha => (hf a ha).mono fun _ _ => rfl).mono
    fun _ _ => trivial

@[simp] theorem meets_number (n : Float) (form : Filter.NumberForm) :
    r.Meets (FilterText.number n form) fun _ => True := by
  rw [FilterText.number]
  split
  · trivial
  · next hn => exact excuses_notFinite (eq_false_of_ne_true hn)

@[simp] theorem meets_decimal (n : Float) : r.Meets (FilterText.decimal n) fun _ => True :=
  meets_number n .decimal

@[simp] theorem meets_places (n : Float) (count : Nat) :
    r.Meets (FilterText.places n count) fun _ => True := meets_number n (.places count)

@[simp] theorem meets_ofPart (part : FilterText.Part) :
    r.Meets (FilterText.ofPart part) fun _ => True := by
  cases part with
  | lit wording => trivial
  | num n => exact meets_number n .shortest
  | sub t => trivial

@[simp] theorem meets_ofParts (parts : List FilterText.Part) :
    r.Meets (FilterText.ofParts parts) fun _ => True := by
  induction parts with
  | nil => trivial
  | cons part rest ih =>
    rw [FilterText.ofParts]
    split
    · next f hf => exact (meets_ofPart part).of_eq_error hf
    · split
      · next f hf => exact ih.of_eq_error hf
      · trivial

@[simp] theorem meets_accept {needs : List Need} {p : Params} {ctx : HandlerContext} (path : String)
    (purpose : Purpose) (mustExist : Bool) :
    Reliance.Meets ⟨needs, p, ctx⟩ (ctx.files.accept path purpose mustExist) fun _ => True := by
  cases haccept : ctx.files.accept path purpose mustExist with
  | ok resolved => trivial
  | error f =>
    obtain ⟨why, rfl⟩ | ⟨-, e, rfl, hlook⟩ := FileSystem.of_accept_eq_error haccept
    · trivial
    · exact ⟨_, e, hlook, rfl⟩

/-- Work whose faults are all of the library's own making, and that misses no input of the step's
own: it asks for none. -/
def Furnished {α : Type} (x : Except Fault α) : Prop :=
  ∀ f, x = .error f → ∃ cause, f = .invariant cause ∧ ∀ skill, cause ≠ .noReservedInput skill

section Furnished

variable (p : Params) (name : String)

theorem furnished_ok {α : Type} {a : α} : Furnished (.ok a) := nofun

theorem furnished_error {α : Type} {cause : InvariantFault}
    (h : ∀ skill, cause ≠ .noReservedInput skill) :
    Furnished (.error (.invariant cause) : Except Fault α) := by
  rintro f ⟨⟩
  exact ⟨cause, rfl, h⟩

theorem furnished_bind {α β : Type} {x : Except Fault α} {k : α → Except Fault β}
    (hx : Furnished x) (hk : ∀ a, Furnished (k a)) : Furnished (x >>= k) := by
  cases x with
  | error f => exact fun g hg => hx g (congrArg _ (Except.error.inj hg))
  | ok a => exact hk a

theorem furnished_read (fallback : Option ParamValue) : Furnished (p.read name fallback) := by
  rw [Params.read]
  split
  · exact furnished_ok
  · exact furnished_error nofun

theorem furnished_float (fallback : Option Float) : Furnished (p.float name fallback) :=
  furnished_bind (furnished_read p name _) fun v => by
    cases v with
    | number n => exact furnished_ok
    | _ => exact furnished_error nofun

theorem furnished_bool (fallback : Option Bool) : Furnished (p.bool name fallback) :=
  furnished_bind (furnished_read p name _) fun v => by
    cases v with
    | flag b => exact furnished_ok
    | _ => exact furnished_error nofun

theorem furnished_string (fallback : Option String) : Furnished (p.string name fallback) :=
  furnished_bind (furnished_read p name _) fun _ => furnished_ok

theorem furnished_time : Furnished (p.time name) := by
  rw [Params.time]
  split
  · exact furnished_ok
  · exact furnished_ok
  · split
    · exact furnished_ok
    · exact furnished_error nofun

end Furnished

theorem meets_of_need {x : Except Fault α} {P : α → Prop} {need : Need} (h : need ∈ r.needs)
    (hmet : need.Met r.params r.ctx → r.Meets x P) (hother : ∀ a, x = .ok a → P a)
    (hx : Furnished x) : r.Meets x P := by
  by_cases hm : need.Met r.params r.ctx
  · exact hmet hm
  · cases x with
    | ok a => exact hother a rfl
    | error f =>
      obtain ⟨cause, rfl, hcause⟩ := hx f rfl
      exact Failed.excuses ⟨need, h, hm⟩ hcause

section Params

variable {needs : List Need} {p : Params} {ctx : HandlerContext} {name : String}

@[simp] theorem meets_float (h : Need.number name ∈ needs) :
    Reliance.Meets ⟨needs, p, ctx⟩ (p.float name) fun _ => True := by
  refine meets_of_need h (fun ⟨n, hn⟩ => ?_) (fun _ _ => trivial)
    (furnished_float p name _)
  have hread : p.read name none = .ok (.number n) := by rw [Params.read, hn]; rfl
  rw [Params.float, Option.map_none, hread]
  trivial

@[simp] theorem meets_floatOr {fallback : Float} (h : Need.numberIfAny name ∈ needs) :
    Reliance.Meets ⟨needs, p, ctx⟩ (p.float name (some fallback)) fun _ => True := by
  refine meets_of_need h (fun hmet => ?_) (fun _ _ => trivial)
    (furnished_float p name _)
  have hread : ∃ n, p.read name (some (.number fallback)) = .ok (.number n) := by
    cases hv : p.raw? name with
    | none => exact ⟨fallback, by rw [Params.read, hv]; rfl⟩
    | some v =>
      obtain ⟨n, hn⟩ := hmet (Params.has_of_raw? hv)
      exact ⟨n, by rw [Params.read, hn]; rfl⟩
  obtain ⟨n, hread⟩ := hread
  rw [Params.float, Option.map_some, hread]
  trivial

theorem meets_floatIfAny (hhas : p.has name = true) (h : Need.numberIfAny name ∈ needs) :
    Reliance.Meets ⟨needs, p, ctx⟩ (p.float name) fun _ => True := by
  refine meets_of_need h (fun hmet => ?_) (fun _ _ => trivial)
    (furnished_float p name _)
  obtain ⟨n, hn⟩ := hmet hhas
  have hread : p.read name none = .ok (.number n) := by rw [Params.read, hn]; rfl
  rw [Params.float, Option.map_none, hread]
  trivial

@[simp] theorem meets_int (h : Need.number name ∈ needs) :
    Reliance.Meets ⟨needs, p, ctx⟩ (p.int name) fun _ => True := by
  rw [Params.int, meets_map]
  exact meets_float h

@[simp] theorem meets_intOr {fallback : Float} (h : Need.numberIfAny name ∈ needs) :
    Reliance.Meets ⟨needs, p, ctx⟩ (p.int name (some fallback)) fun _ => True := by
  rw [Params.int, meets_map]
  exact meets_floatOr h

@[simp] theorem meets_paramDecimal (h : Need.number name ∈ needs) :
    Reliance.Meets ⟨needs, p, ctx⟩ (p.decimal name) fun _ => True := by
  rw [Params.decimal, meets_bind]
  exact meets_of_forall (meets_float h) fun n => meets_decimal n

@[simp] theorem meets_bool (h : Need.flag name ∈ needs) :
    Reliance.Meets ⟨needs, p, ctx⟩ (p.bool name) fun _ => True := by
  refine meets_of_need h (fun ⟨b, hb⟩ => ?_) (fun _ _ => trivial)
    (furnished_bool p name _)
  have hread : p.read name none = .ok (.flag b) := by rw [Params.read, hb]; rfl
  rw [Params.bool, Option.map_none, hread]
  trivial

theorem meets_stringOfValue (hvalue : (p.raw? name).isSome = true) :
    Reliance.Meets ⟨needs, p, ctx⟩ (p.string name) fun _ => True := by
  obtain ⟨v, hv⟩ := Option.isSome_iff_exists.mp hvalue
  have hread : p.read name none = .ok v := by rw [Params.read, hv]; rfl
  rw [Params.string, Option.map_none, hread]
  trivial

@[simp] theorem meets_string (h : Need.value name ∈ needs) :
    Reliance.Meets ⟨needs, p, ctx⟩ (p.string name) fun _ => True :=
  meets_of_need h meets_stringOfValue (fun _ _ => trivial) (furnished_string p name _)

theorem meets_shown (h : Need.value name ∈ needs) :
    Reliance.Meets ⟨needs, p, ctx⟩ (p.string name) fun s =>
      ∃ v, p.raw? name = some v ∧ s = v.shown := by
  have hshown (s : String) (hs : p.string name = .ok s) :
      ∃ v, p.raw? name = some v ∧ s = v.shown := by
    rw [Params.string, Option.map_none, Params.read, Option.or_none] at hs
    cases hv : p.raw? name with
    | none =>
      rw [hv] at hs
      cases hs
    | some v =>
      rw [hv] at hs
      exact ⟨v, rfl, (Except.ok.inj hs).symm⟩
  cases hs : p.string name with
  | ok s => exact hshown s hs
  | error f => exact (meets_string h).of_eq_error hs

theorem meets_stringIfAny (hhas : p.has name = true) (h : Need.valueIfAny name ∈ needs) :
    Reliance.Meets ⟨needs, p, ctx⟩ (p.string name) fun _ => True :=
  meets_of_need h (fun hmet => meets_stringOfValue (hmet hhas)) (fun _ _ => trivial)
    (furnished_string p name _)

@[simp] theorem meets_text (h : Need.value name ∈ needs) :
    Reliance.Meets ⟨needs, p, ctx⟩ (p.text name) fun _ => True := by
  rw [Params.text, meets_map]
  exact meets_string h

theorem meets_textIfAny (hhas : p.has name = true) (h : Need.valueIfAny name ∈ needs) :
    Reliance.Meets ⟨needs, p, ctx⟩ (p.text name) fun _ => True := by
  rw [Params.text, meets_map]
  exact meets_stringIfAny hhas h

@[simp] theorem meets_time (h : Need.timeIfAny name ∈ needs) :
    Reliance.Meets ⟨needs, p, ctx⟩ (p.time name) fun _ => True := by
  refine meets_of_need h (fun hmet => ?_) (fun _ _ => trivial)
    (furnished_time p name)
  cases hv : p.raw? name with
  | none =>
    rw [Params.time, hv]
    trivial
  | some v =>
    rw [Params.time, hv]
    obtain ⟨n, rfl⟩ | hparse := hmet v hv
    · trivial
    · obtain ⟨seconds, hseconds⟩ := Option.isSome_iff_exists.mp hparse
      cases v <;> simp [hseconds]

theorem meets_ownExtra {skill : String} (h : Need.ownInput ∈ needs) :
    Reliance.Meets ⟨needs, p, ctx⟩ (ctx.ownExtra skill) fun e => e.index ∈ ctx.ownInputs := by
  rw [HandlerContext.ownExtra]
  split
  · next e he =>
    obtain ⟨index, hindex, hextra⟩ := Option.bind_eq_some_iff.mp he
    have heq : e.index = index := by simpa using List.find?_some hextra
    rw [meets_ok, heq]
    exact List.mem_of_mem_head? hindex
  · next hnone =>
    refine ⟨h, fun hmet => ?_⟩
    rw [Need.Met, hnone] at hmet
    cases hmet

theorem meets_requestedInput (h : Need.numberIfAny "input" ∈ needs) :
    Reliance.Meets ⟨needs, p, ctx⟩ p.requestedInput fun _ => True := by
  rw [Params.requestedInput]
  split
  · next hhas =>
    rw [meets_map, Params.int, meets_map]
    exact meets_floatIfAny hhas h
  · trivial

end Params

theorem mem_extras_of_mem_freeExtras {ctx : HandlerContext} {kinds : List MediaKind}
    {e : ExtraInput} (h : e ∈ ctx.freeExtras kinds) : e ∈ ctx.extras := by
  rw [HandlerContext.freeExtras] at h
  exact (List.mem_filter.mp h).1

@[simp] theorem meets_claimExtra {ctx : HandlerContext} {skill : String} {kinds : List MediaKind}
    {requested? : Option Float} :
    r.Meets (ctx.claimExtra skill kinds requested?) fun index =>
      ∃ e ∈ ctx.extras, e.index = index := by
  unfold HandlerContext.claimExtra
  split
  · next n =>
    split
    · next e he =>
      obtain ⟨hfound, -⟩ := Option.filter_eq_some_iff.mp he
      exact ⟨e, List.mem_of_find?_eq_some hfound, rfl⟩
    · trivial
  · split
    · next e rest hfree =>
      exact ⟨e, mem_extras_of_mem_freeExtras (hfree ▸ List.mem_cons_self), rfl⟩
    · trivial

end Reliance

/-- The faults of those who write the text of a filter or look at a file. -/
inductive Outward : Fault → Prop
  | notFinite (n : Float) : Outward (.invariant (.notFinite n))
  | notText (kind : String) : Outward (.invariant (.notText kind))
  | exception (e : Exception) : Outward (.exception e)

/-- Work that never breaks down over such things: it writes no text and looks at no file. -/
def Wordless {α : Type} (x : Except Fault α) : Prop := ∀ f, x = .error f → ¬Outward f

section Wordless

variable {α β : Type}

theorem wordless_ok {a : α} : Wordless (.ok a) := nofun

theorem wordless_error {f : Fault} (h : ¬Outward f) : Wordless (.error f : Except Fault α) := by
  rintro g ⟨⟩
  exact h

theorem Wordless.bind {x : Except Fault α} {k : α → Except Fault β} (hx : Wordless x)
    (hk : ∀ a, Wordless (k a)) : Wordless (x >>= k) := by
  cases x with
  | error f => exact fun g hg => hx g (congrArg Except.error (Except.error.inj hg))
  | ok a => exact hk a

theorem Wordless.map {x : Except Fault α} {g : α → β} (hx : Wordless x) : Wordless (x.map g) :=
  hx.bind fun _ => wordless_ok

theorem wordless_int (p : Params) (name : String) : Wordless (p.int name) := by
  refine Wordless.map (Wordless.bind ?_ fun v => ?_)
  · rw [Params.read]
    split
    · exact wordless_ok
    · exact wordless_error nofun
  · cases v with
    | number n => exact wordless_ok
    | _ => exact wordless_error nofun

theorem wordless_requestedInput (p : Params) : Wordless p.requestedInput := by
  rw [Params.requestedInput]
  split
  · exact (wordless_int p _).map
  · exact wordless_ok

theorem wordless_claimExtra {ctx : HandlerContext} {skill : String} {kinds : List MediaKind}
    {requested? : Option Float} : Wordless (ctx.claimExtra skill kinds requested?) := by
  unfold HandlerContext.claimExtra
  split
  · split
    · exact wordless_ok
    · exact wordless_error nofun
  · split
    · exact wordless_ok
    · exact wordless_error nofun

end Wordless

namespace Contribution

/-- A contribution of simple filters and flags only. -/
structure Plain (c : Contribution) : Prop where
  graph : c.graph? = none
  maps : c.maps? = none
  audioSource : c.audioSource? = none

@[simp] theorem plain_mk (videoFilters audioFilters : List FilterText)
    (outputFlags inputFlags : List String) :
    Plain ⟨videoFilters, audioFilters, outputFlags, inputFlags, none, none, none⟩ :=
  ⟨rfl, rfl, rfl⟩

@[simp] theorem plain_video (filters : List FilterText) : (video filters).Plain := plain_mk ..

@[simp] theorem plain_audio (filters : List FilterText) : (audio filters).Plain := plain_mk ..

@[simp] theorem plain_flags (tokens : List String) : (flags tokens).Plain := plain_mk ..

@[simp] theorem meets_videoOf {r : Reliance} (parts : List FilterText.Part) :
    r.Meets (videoOf parts) Plain := by
  rw [videoOf, Reliance.meets_bind]
  exact Reliance.meets_of_forall (Reliance.meets_ofParts parts) fun t => plain_video [t]

@[simp] theorem meets_audioOf {r : Reliance} (parts : List FilterText.Part) :
    r.Meets (audioOf parts) Plain := by
  rw [audioOf, Reliance.meets_bind]
  exact Reliance.meets_of_forall (Reliance.meets_ofParts parts) fun t => plain_audio [t]

/-- The mappings that steps ask for: the main streams, or one subtitle track. -/
def Usual : List MapTarget → Prop
  | [.main .video, .main .audio] => True
  | [.subtitle 0 _] => True
  | _ => False

theorem Usual.cases {targets : List MapTarget} (h : Usual targets) :
    targets = [.main .video, .main .audio] ∨ ∃ track, targets = [.subtitle 0 track] := by
  unfold Usual at h
  split at h
  · exact .inl rfl
  · exact .inr ⟨_, rfl⟩
  · exact h.elim

/-- A contribution that fits the merger and takes no extra inputs but the step's own. -/
structure Sound (c : Contribution) (own : List Nat) : Prop where
  fragment : ∀ f, c.graph? = some f → f.nodes ≠ [] → f.Sound own
  alone : c.graph?.isSome = true → c.hasFilters = false
  maps : ∀ targets, c.maps? = some targets → Usual targets
  audioSource : ∀ index, c.audioSource? = some index → index ∈ own

theorem Plain.sound {c : Contribution} {own : List Nat} (h : c.Plain) : c.Sound own where
  fragment f hf := by rw [h.graph] at hf; cases hf
  alone hsome := by rw [h.graph] at hsome; cases hsome
  maps targets htargets := by rw [h.maps] at htargets; cases htargets
  audioSource index hindex := by rw [h.audioSource] at hindex; cases hindex

theorem sound_graph {f : Fragment} {own : List Nat} {outputFlags inputFlags : List String}
    (hf : f.nodes ≠ [] → f.Sound own) :
    Sound ⟨[], [], outputFlags, inputFlags, some f, none, none⟩ own where
  fragment g hg := Option.some.inj hg ▸ hf
  alone _ := rfl
  maps targets htargets := by cases htargets
  audioSource index hindex := by cases hindex

end Contribution

namespace Handler

/-- A handler that has these needs, and whose contributions are sound. -/
def Compiles (needs : List Need) (compile : Params → HandlerContext → Except Fault Contribution) :
    Prop :=
  ∀ p ctx, Reliance.Meets ⟨needs, p, ctx⟩ (compile p ctx) (Contribution.Sound · ctx.ownInputs)

theorem compiles_of_plain {needs : List Need}
    {compile : Params → HandlerContext → Except Fault Contribution}
    (h : ∀ p ctx, Reliance.Meets ⟨needs, p, ctx⟩ (compile p ctx) Contribution.Plain) :
    Compiles needs compile :=
  fun p ctx => (h p ctx).mono fun _ hc => hc.sound

/-- The needs of a handler while it claims inputs, when it has none of its own yet. -/
def claimNeeds (needs : List Need) : List Need := needs.filter (· ≠ .ownInput)

/-- A way of claiming inputs that has these needs, and claims only inputs that are there; some, if
the handler needs one of its own. -/
structure Claims (needs : List Need)
    (claim : Params → HandlerContext → Except Fault (List Nat)) : Prop where
  meets : ∀ p ctx, Reliance.Meets ⟨claimNeeds needs, p, ctx⟩ (claim p ctx) fun claimed =>
    (∀ index ∈ claimed, ∃ e ∈ ctx.extras, e.index = index) ∧
      (Need.ownInput ∈ needs → claimed ≠ [])
  wordless : ∀ p ctx, Wordless (claim p ctx)

/-- A handler that relies on no more than its needs, and claims inputs if it needs one of its
own. -/
structure Keeps (needs : List Need) (h : Handler) : Prop where
  compiles : Compiles needs h.compile
  claims : ∀ claim, h.reserve? = some claim → Claims needs claim
  owns : Need.ownInput ∈ needs → h.reserve?.isSome = true

/-- The handler of an entry has the needs that are listed for its name. -/
def Listed (entry : String × Handler) (needed : String × List Need) : Prop :=
  entry.1 = needed.1 ∧ entry.2.Keeps needed.2

theorem Compiles.keeps {needs : List Need}
    {compile : Params → HandlerContext → Except Fault Contribution}
    {notices : Params → HandlerContext → List Notice} (h : Compiles needs compile)
    (hown : needs.contains .ownInput = false) : Keeps needs { compile, notices } :=
  ⟨h, fun _ hclaim => (nomatch hclaim), fun hneed =>
    absurd (List.contains_iff_mem.mpr hneed) (ne_true_of_eq_false hown)⟩

theorem Compiles.keeps_claiming {needs : List Need}
    {compile : Params → HandlerContext → Except Fault Contribution}
    {claim : Params → HandlerContext → Except Fault (List Nat)} {reservesLast : Bool}
    (h : Compiles needs compile) (hclaim : Claims needs claim) :
    Keeps needs { compile, reserve? := some claim, reservesLast } :=
  ⟨h, fun _ heq => Option.some.inj heq ▸ hclaim, fun _ => rfl⟩

end Handler

end SkillPipeline
