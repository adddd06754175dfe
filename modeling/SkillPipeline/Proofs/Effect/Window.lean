import SkillPipeline.Effect.Lettering
import SkillPipeline.Proofs.Effect.Accounting
import SkillPipeline.Proofs.Number.Decimal

namespace SkillPipeline.TextWindow

open Number

theorem isPositive_iff (x : ℚ) : isPositive x = true ↔ 0 < x := by
  change decide (((0 : ℕ) : ℚ) < x) = true ↔ 0 < x
  rw [decide_eq_true_iff, Nat.cast_zero]

/-- When a window starts under an envelope with this start. -/
def opening (w : TextWindow ℚ) (start? : Option ℚ) : ℚ :=
  if 0 < start?.getD 0 then start?.getD 0 else w.start

variable {w : TextWindow ℚ} {start? : Option ℚ} {stop : ℚ}

theorem override_start (w : TextWindow ℚ) (start? end? : Option ℚ) :
    (w.override start? end?).start = w.opening start? := by
  cases start? with
  | none => exact (if_neg (lt_irrefl 0)).symm
  | some s =>
    change (if isPositive s = true then s else w.start) = if 0 < s then s else w.start
    simp only [isPositive_iff]

theorem override_duration (hpositive : 0 < stop) (hlater : start?.getD 0 < stop) :
    (w.override start? (some stop)).duration = stop - start?.getD 0 := by
  have hlength : 0 < stop - start?.getD 0 := sub_pos.mpr hlater
  change (if (isPositive stop && isPositive (stop - start?.getD zero)) = true then
    stop - start?.getD zero else w.duration) = _
  rw [show (zero : ℚ) = 0 from Nat.cast_zero, (isPositive_iff _).mpr hpositive,
    (isPositive_iff _).mpr hlength]
  rfl

/-- An envelope with a positive end that is later than its start sets the length of the window. -/
theorem visible_override (w : TextWindow ℚ) (hpositive : 0 < stop)
    (hlater : start?.getD 0 < stop) : (w.override start? (some stop)).visible =
      .between (w.opening start?) (w.opening start? + (stop - start?.getD 0)) := by
  rw [visible, override_duration hpositive hlater, override_start,
    if_pos ((isPositive_iff _).mpr (sub_pos.mpr hlater))]

/-- The window ends at the end of the envelope exactly if it starts where the length is counted
from. -/
theorem opening_add_eq_iff (w : TextWindow ℚ) (start? : Option ℚ) (stop : ℚ) :
    w.opening start? + (stop - start?.getD 0) = stop ↔
      0 < start?.getD 0 ∨ w.start = start?.getD 0 := by
  have hends : w.opening start? + (stop - start?.getD 0) = stop ↔
      w.opening start? = start?.getD 0 := by
    constructor <;> intro h <;> linarith
  rw [hends, opening]
  split
  · next h => simp [h]
  · next h => simp [h]

def exactly (w : TextWindow Float) : TextWindow ℚ := ⟨exact w.start, exact w.duration⟩

/-- The double is finite, and so small that no sum of two such overflows. -/
def Moderate (x : Float) : Prop := x.isFinite = true ∧ |exact x| ≤ limit / 2

section Doubles

variable {x s stop : Float} {start? : Option Float}

theorem holds_zero : Holds (zero : Float) 0 := by
  have hzero := holds_ofNat (n := 0) (by norm_num)
  rwa [Nat.cast_zero] at hzero

theorem isPositive_iff_exact (hx : x.isFinite = true) : isPositive x = true ↔ 0 < exact x := by
  change decide (zero < x) = true ↔ _
  rw [decide_eq_true_iff, lt_iff_exact_lt holds_zero.finite hx, holds_zero.value]

theorem holds_base (hstart : ∀ s ∈ start?, Moderate s) :
    Holds (start?.getD zero) ((start?.map exact).getD 0) ∧
      |(start?.map exact).getD 0| ≤ limit / 2 := by
  cases start? with
  | none => exact ⟨holds_zero, abs_zero.trans_le (div_nonneg limit_nonneg zero_le_two)⟩
  | some s => exact ⟨⟨(hstart s rfl).1, rfl⟩, (hstart s rfl).2⟩

theorem holds_override_start {w : TextWindow Float} (hw : w.start.isFinite = true)
    (hstart : ∀ s ∈ start?, Moderate s) (end? : Option Float) :
    Holds (w.override start? end?).start (w.exactly.opening (start?.map exact)) := by
  rw [opening]
  cases start? with
  | none => exact ⟨hw, (if_neg (lt_irrefl 0)).symm⟩
  | some s =>
    obtain ⟨hs, -⟩ := hstart s rfl
    change Holds (if isPositive s = true then s else w.start) (if 0 < exact s then exact s else _)
    simp only [isPositive_iff_exact hs]
    split
    · exact ⟨hs, rfl⟩
    · exact ⟨hw, rfl⟩

/-- In doubles the window is the exact one up to the rounding of its length and of its end. -/
theorem visible_override_rounds {w : TextWindow Float} (hw : Moderate w.start)
    (hstart : ∀ s ∈ start?, Moderate s) (hstop : Moderate stop) (hpositive : 0 < exact stop)
    (hlater : (start?.map exact).getD 0 < exact stop) :
    ∃ opens length closes, (w.override start? (some stop)).visible = .between opens closes ∧
      Holds opens (w.exactly.opening (start?.map exact)) ∧
        Rounds (exact stop - (start?.map exact).getD 0) length ∧
          closes = opens + length := by
  obtain ⟨hbase, hbaseLimit⟩ := holds_base hstart
  have hlength : Rounds (exact stop - (start?.map exact).getD 0) (stop - start?.getD zero) :=
    Holds.sub ⟨hstop.1, rfl⟩ hbase ((abs_sub _ _).trans (by linarith [hstop.2]))
  have hstopHolds : Holds stop (exact stop) := ⟨hstop.1, rfl⟩
  have hsome := hlength.nearest.sub_pos hstopHolds.holdable hbase.holdable hlater
  have hduration : (w.override start? (some stop)).duration = stop - start?.getD zero := by
    change (if (isPositive stop && isPositive (stop - start?.getD zero)) = true then
      stop - start?.getD zero else w.duration) = _
    rw [(isPositive_iff_exact hstop.1).mpr hpositive,
      (isPositive_iff_exact hlength.finite).mpr hsome]
    rfl
  refine ⟨_, _, _, ?_, holds_override_start hw.1 hstart (some stop), hlength, rfl⟩
  rw [visible, hduration, if_pos ((isPositive_iff_exact hlength.finite).mpr hsome)]

end Doubles

end SkillPipeline.TextWindow

namespace SkillPipeline.FilterText

theorem exists_text_between {parts : List Part} {first : String} {last t : FilterText}
    (h : ofParts parts = .ok t) (hfirst : parts.head? = some (.lit first))
    (hlast : parts.tail.getLast? = some (.sub last)) :
    ∃ between, t.text = first ++ between ++ last.text := by
  obtain ⟨rest, rfl⟩ := List.head?_eq_some_iff.mp hfirst
  obtain ⟨middle, hmiddle⟩ := List.getLast?_eq_some_iff.mp hlast
  rw [List.tail_cons] at hmiddle
  refine ⟨String.ofList (middle.flatMap Part.chars), ?_⟩
  rw [text, chars_ofParts h, hmiddle, text, ← String.toList_inj]
  simp [Part.chars]

theorem exists_number {n : Float} {form : Filter.NumberForm} :
    (∃ t, number n form = .ok t) ↔ n.isFinite = true := by
  rw [number]
  split
  · next h => exact iff_of_true ⟨_, rfl⟩ h
  · next h => exact iff_of_false (by rintro ⟨t, ht⟩; cases ht) h

theorem exists_ofParts {parts : List Part} :
    (∃ t, ofParts parts = .ok t) ↔ ∀ n, .num n ∈ parts → n.isFinite = true := by
  induction parts with
  | nil => exact iff_of_true ⟨_, rfl⟩ (by simp)
  | cons part rest ih =>
    have hsplit : (∃ t, ofParts (part :: rest) = .ok t) ↔
        (∃ t, ofPart part = .ok t) ∧ ∃ t, ofParts rest = .ok t := by
      constructor
      · rintro ⟨t, ht⟩
        obtain ⟨first, hfirst, tail, htail, -⟩ := ofParts_cons_eq_ok.mp ht
        exact ⟨⟨first, hfirst⟩, tail, htail⟩
      · rintro ⟨⟨first, hfirst⟩, tail, htail⟩
        exact ⟨_, ofParts_cons_eq_ok.mpr ⟨first, hfirst, tail, htail, rfl⟩⟩
    rw [hsplit, ih]
    cases part with
    | lit s => simp [ofPart]
    | sub t => simp [ofPart]
    | num n =>
      rw [ofPart, exists_number]
      simp

end SkillPipeline.FilterText

namespace SkillPipeline

/-- When the text of an envelope starts and ends, as far as it says so. -/
def TextPayload.times? : TextPayload → Option (Option Float × Option Float)
  | .literal _ => none
  | .envelope e => some (e.startTime?, e.endTime?)

end SkillPipeline

namespace SkillPipeline.Effect

open Outcome

/-- The option that shows a text while its window lasts. -/
def enableText : TextWindow.Visible Float → String
  | .always => ""
  | .since start => ":enable='gte(t," ++ Number.text start ++ ")'"
  | .between start stop =>
    ":enable='between(t," ++ Number.text start ++ "," ++ Number.text stop ++ ")'"

variable {params : Params} {ctx : HandlerContext} {made : Contribution}

theorem overlayEnable_text {blink : Float} {window : TextWindow Float} {t : FilterText}
    (hblink : ¬blink > 0) (h : overlayEnable blink window = .ok t) :
    t.text = enableText window.visible := by
  rw [overlayEnable] at h
  split at h
  · next hsome => exact absurd hsome hblink
  · generalize window.visible = visible at h ⊢
    cases visible with
    | always =>
      obtain rfl : FilterText.empty = t := Except.ok.inj h
      rfl
    | since start =>
      have hparts : FilterText.ofParts [.lit ":enable='gte(t,", .num start, .lit ")'"] = .ok t := h
      change t.text = ":enable='gte(t," ++ Number.text start ++ ")'"
      rw [FilterText.text, FilterText.chars_ofParts hparts, ← String.toList_inj]
      simp [FilterText.Part.chars]
    | between start stop =>
      have hparts : FilterText.ofParts [.lit ":enable='between(t,", .num start, .lit ",",
        .num stop, .lit ")'"] = .ok t := h
      change t.text =
        ":enable='between(t," ++ Number.text start ++ "," ++ Number.text stop ++ ")'"
      rw [FilterText.text, FilterText.chars_ofParts hparts, ← String.toList_inj]
      simp [FilterText.Part.chars]

theorem textOverlay_enables (h : textOverlay params ctx = .ok made) :
    ∃ style blink filter, OverlayStyle.ofParams params = .ok style ∧
      params.float "blink" = .ok blink ∧ made.videoFilters = [filter] ∧
        (¬blink > 0 → ∃ before, filter.text = "drawtext=text=" ++ before ++
          enableText (style.override (TextPayload.first? ctx.textInputs)).window.visible) := by
  simp only [textOverlay, bind_eq_ok] at h
  obtain ⟨style, hstyle, margin, -, position, -, border, -, h⟩ := h
  -- The box is drawn only where a background is given; the rest is the same.
  obtain ⟨box, h⟩ : ∃ box : FilterText, _ := by
    split at h
    · obtain ⟨background, -, h⟩ := bind_eq_ok.mp h
      obtain ⟨box, -, h⟩ := bind_eq_ok.mp h
      exact ⟨box, h⟩
    · exact ⟨FilterText.empty, h⟩
  simp only [bind_eq_ok] at h
  obtain ⟨blink, hblink, enable, henable, name, -, font, -, borderColor, -, h⟩ := h
  obtain ⟨filter, hfilter, h⟩ := bind_eq_ok.mp h
  obtain rfl := pure_eq_ok.mp h
  refine ⟨style, blink, filter, hstyle, hblink, rfl, fun hoff => ?_⟩
  rw [← overlayEnable_text hoff henable]
  exact FilterText.exists_text_between hfilter rfl rfl

theorem OverlayStyle.window_ofParams {style : OverlayStyle}
    (h : OverlayStyle.ofParams params = .ok style) :
    ∃ start duration, params.float "start" = .ok start ∧
      params.float "duration" = .ok duration ∧ style.window = ⟨start, duration⟩ := by
  simp only [ofParams, bind_eq_ok, pure_eq_ok] at h
  obtain ⟨text, -, size, -, color, -, position, -, start, hstart, duration, hduration, rfl⟩ := h
  exact ⟨start, duration, hstart, hduration, rfl⟩

theorem OverlayStyle.window_override {style : OverlayStyle} {payload? : Option TextPayload}
    {start? end? : Option Float} (h : payload?.bind TextPayload.times? = some (start?, end?)) :
    (style.override payload?).window = style.window.override start? end? := by
  obtain ⟨payload, rfl, htimes⟩ := Option.bind_eq_some_iff.mp h
  cases payload with
  | literal text => cases htimes
  | envelope e =>
    cases htimes
    rfl

/-- A compiled overlay that does not blink and whose text is that of an envelope with an end shows
it between two times. In exact arithmetic it opens at the start of the envelope if that is positive
and at that of the step otherwise, and it closes at the end of the envelope exactly if it opens
where the length of the envelope is counted from. The doubles that are written are the exact times
but for the rounding of the length and of the sum. -/
theorem envelope_window {blink stop : Float} {start? : Option Float} {base : ℚ}
    (h : textOverlay params ctx = .ok made) (hblink : params.float "blink" = .ok blink)
    (hoff : ¬blink > 0) (hinput : (TextPayload.first? ctx.textInputs).bind TextPayload.times? =
      some (start?, some stop))
    (hbase : (start?.map Number.exact).getD 0 = base) (hpositive : 0 < Number.exact stop)
    (hlater : base < Number.exact stop) :
    ∃ start duration filter before, params.float "start" = .ok start ∧
      params.float "duration" = .ok duration ∧ made.videoFilters = [filter] ∧
        filter.text = "drawtext=text=" ++ before ++
          enableText ((TextWindow.mk start duration).override start? (some stop)).visible ∧
        ∃ opens closes, ((TextWindow.mk start duration).exactly.override
            (start?.map Number.exact) (some (Number.exact stop))).visible = .between opens closes ∧
          (opens = if 0 < base then base else Number.exact start) ∧
            (closes = Number.exact stop ↔ 0 < base ∨ Number.exact start = base) ∧
              (TextWindow.Moderate start → (∀ s ∈ start?, TextWindow.Moderate s) →
                TextWindow.Moderate stop → ∃ first length last,
                  ((TextWindow.mk start duration).override start? (some stop)).visible =
                      .between first last ∧
                    Number.Holds first opens ∧
                      Number.Rounds (Number.exact stop - base) length ∧ last = first + length) := by
  subst hbase
  obtain ⟨style, blink', filter, hstyle, hblink', hfilter, hshown⟩ := textOverlay_enables h
  obtain rfl := Except.ok.inj (hblink.symm.trans hblink')
  obtain ⟨start, duration, hstart, hduration, hwindow⟩ := OverlayStyle.window_ofParams hstyle
  obtain ⟨before, hbefore⟩ := hshown hoff
  rw [OverlayStyle.window_override hinput, hwindow] at hbefore
  exact ⟨start, duration, filter, before, hstart, hduration, hfilter, hbefore, _, _,
    TextWindow.visible_override _ hpositive hlater, rfl, TextWindow.opening_add_eq_iff ..,
    fun hs hstart? hstop =>
      TextWindow.visible_override_rounds hs hstart? hstop hpositive hlater⟩

/-- The text appears after two seconds and stays. -/
def lateParams : Params where
  skill := { name := "overlay", category := .text, strategy := .handler "overlay" }
  values := [("text", .text "Hello"), ("size", .number 48), ("color", .text "white"),
    ("position", .text "bottom"), ("start", .number 2), ("duration", .number 0),
    ("margin", .number 24), ("border", .flag true), ("border_color", .text "black"),
    ("blink", .number 0), ("font", .text "Sans")]

/-- The envelope says when its text starts and when it ends. -/
def timedContext : HandlerContext := { mixedContext with
  textInputs := ["\x7b\"mode\":\"overlay\",\"start_time\":1,\"end_time\":5\x7d"] }

theorem envelope_window_timed : ∃ made filter before,
    textOverlay lateParams timedContext = .ok made ∧ made.videoFilters = [filter] ∧
      filter.text = "drawtext=text=" ++ before ++ ":enable='between(t,1,5)'" ∧
        ((TextWindow.mk 2 0).exactly.override (some 1) (some 5)).visible = .between 1 5 := by
  obtain ⟨made, hmade⟩ :=
    exists_of_isOk (by decide +kernel : (textOverlay lateParams timedContext).isOk = true)
  have hone : Number.exact 1 = 1 := by
    exact_mod_cast Number.exact_ofNat (n := 1) (by norm_num)
  have hfive : Number.exact 5 = 5 := by
    exact_mod_cast Number.exact_ofNat (n := 5) (by norm_num)
  have hinput : (TextPayload.first? timedContext.textInputs).bind TextPayload.times? =
      some (some 1, some 5) := by decide +kernel
  obtain ⟨start, duration, filter, before, hstart, hduration, hfilter, htext, opens, closes,
    hvisible, hopens, hcloses, -⟩ := envelope_window hmade
      (rfl : lateParams.float "blink" = .ok 0) (by decide +kernel) hinput hone
      (by norm_num [hfive]) (by norm_num [hfive])
  obtain rfl : 2 = start := Except.ok.inj hstart
  obtain rfl : 0 = duration := Except.ok.inj hduration
  obtain rfl : opens = 1 := hopens.trans (if_pos one_pos)
  obtain rfl := hcloses.mpr (.inl one_pos)
  rw [hfive, Option.map_some, hone] at hvisible
  exact ⟨made, filter, before, hmade, hfilter, htext.trans (congrArg _ (by decide +kernel)),
    hvisible⟩

/-- The envelope says only when its text ends. -/
def endingContext : HandlerContext :=
  { mixedContext with textInputs := ["\x7b\"mode\":\"overlay\",\"end_time\":5\x7d"] }

/-- The text of an envelope need not be gone at its end: the step's own start moves the window. -/
theorem not_envelope_window :
    (TextPayload.first? endingContext.textInputs).bind TextPayload.times? = some (none, some 5) ∧
      lateParams.float "blink" = .ok 0 ∧
        (textOverlay lateParams endingContext).toOption.map (·.videoFilters.map (·.text)) =
          some ["drawtext=text=:font=Sans:fontsize=48:fontcolor=white:borderw=2" ++
            ":bordercolor=black:x=(w-text_w)/2:y=h-text_h-24:enable='between(t,2,7)'"] ∧
          ((TextWindow.mk 2 0 : TextWindow ℚ).override none (some 5)).visible = .between 2 7 := by
  refine ⟨by decide +kernel, rfl, by decide +kernel, ?_⟩
  rw [TextWindow.visible_override _ (by norm_num) (by norm_num)]
  norm_num [TextWindow.opening]

end SkillPipeline.Effect

namespace SkillPipeline.Typing

open Number

variable {start speed : Float} {n : ℕ}

theorem inOrder_opening (hspeed : 0 < speed) (hstart : 0 ≤ start)
    (hfinite : (opening start speed (n + 1)).isFinite = true) :
    InOrder (opening start speed n) (opening start speed (n + 1)) := by
  change (start + Float.ofNat (n + 1) / speed).isFinite = true at hfinite
  change InOrder (start + Float.ofNat n / speed) (start + Float.ofNat (n + 1) / speed)
  obtain ⟨hstartFinite, hquotient⟩ := isFinite_of_add hfinite
  have hnumbers := inOrder_ofNat (isFinite_of_div hquotient)
  have hzero : Holds (0 : Float) 0 := ⟨rfl, rfl⟩
  have hstart' : 0 ≤ exact start := by
    rw [← hzero.value]
    exact not_lt.mp ((lt_iff_exact_lt hstartFinite hzero.finite).not.mp (not_lt_of_le hstart))
  refine InOrder.add ?_ hstart' hfinite
  cases hspeedFinite : speed.isFinite with
  | true =>
    refine hnumbers.div ?_ hquotient
    rw [← hzero.value]
    exact (lt_iff_exact_lt hzero.finite hspeedFinite).mp hspeed
  | false =>
    -- At infinite speed nothing takes time.
    have hfirst := holds_div_infinite hnumbers.finite hspeed hspeedFinite
    have hnext := holds_div_infinite hnumbers.finite' hspeed hspeedFinite
    exact ⟨hfirst.finite, hnext.finite, hfirst.value.ge, (hfirst.value.trans hnext.value.symm).le⟩

theorem isFinite_opening (hspeed : 0 < speed) (hstart : 0 ≤ start) {m : ℕ} (hle : m ≤ n)
    (hfinite : (opening start speed n).isFinite = true) :
    (opening start speed m).isFinite = true := by
  induction n, hle using Nat.le_induction with
  | base => exact hfinite
  | succ n hle ih => exact ih (inOrder_opening hspeed hstart hfinite).finite

end SkillPipeline.Typing

namespace SkillPipeline.Effect

open Outcome

def typingOf (p : Params) (ctx : HandlerContext) : Except Fault (String × TypingStyle) := do
  let text ← p.string "text"
  let size ← p.int "size"
  let color ← p.text "color"
  let font ← fontOption ctx.files (← p.string "font")
  let position ← placement (← p.string "position") 24
  let speed ← p.float "speed"
  let start ← p.float "start"
  return (text, { size, color, font, position, speed, start })

theorem typewriterText_eq (p : Params) (ctx : HandlerContext) : typewriterText p ctx =
    typingOf p ctx >>= fun typing =>
      Contribution.video <$> typingLayers typing.2 typing.1.toList := by
  simp only [typewriterText, typingOf, bind_assoc, pure_bind]
  rfl

theorem reads_of_typingOf {p : Params} {ctx : HandlerContext} {text : String} {style : TypingStyle}
    (h : typingOf p ctx = .ok (text, style)) : p.string "text" = .ok text ∧
      p.int "size" = .ok style.size ∧ p.float "speed" = .ok style.speed ∧
        p.float "start" = .ok style.start := by
  simp only [typingOf, bind_eq_ok, pure_eq_ok] at h
  obtain ⟨text, htext, size, hsize, color, -, name, -, font, -, position, -, placement, -, speed,
    hspeed, start, hstart, heq⟩ := h
  cases heq
  exact ⟨htext, hsize, hspeed, hstart⟩

namespace TypingStyle

variable (style : TypingStyle)

/-- When the character after `typed` others is typed, as it is written. -/
def time (typed : ℕ) : String :=
  Number.fixedText (Typing.opening style.start style.speed typed) 4

/-- What all layers say between their text and their times. -/
def look : String :=
  style.font.text ++ ":fontsize=" ++ Number.text style.size ++ ":fontcolor=" ++ style.color.text ++
    ":borderw=2:bordercolor=black:x=" ++ style.position.x.text ++ ":y=" ++ style.position.y.text

/-- The layer with one character more than `typed`. It closes when the next opens. -/
def layerText (text : String) (typed : ℕ) : String :=
  "drawtext=text=" ++ Filter.escape (String.ofList (text.toList.take (typed + 1))) ++ ":" ++
    style.look ++ ":enable='" ++
      (if typed + 1 < text.toList.length then
        "between(t\\," ++ style.time typed ++ "\\," ++ style.time (typed + 1)
      else "gte(t\\," ++ style.time typed) ++ ")'"

variable {style} {text : String} {typed : ℕ}

/-- The option that shows a layer from its own character on, until the next is typed. -/
def enabling (style : TypingStyle) (text : String) (typed : ℕ) : Except Fault FilterText := do
  let opening ← FilterText.places (Typing.opening style.start style.speed typed) 4
  if typed + 1 < text.toList.length then
    let closing ← FilterText.places (Typing.opening style.start style.speed (typed + 1)) 4
    FilterText.ofParts
      [.lit ":enable='between(t\\,", .sub opening, .lit "\\,", .sub closing, .lit ")'"]
  else FilterText.ofParts [.lit ":enable='gte(t\\,", .sub opening, .lit ")'"]

def parts (style : TypingStyle) (text : String) (typed : ℕ) (enable : FilterText) :
    List FilterText.Part :=
  [.lit "drawtext=text=", .sub (.escaped (String.ofList (text.toList.take (typed + 1)))), .lit ":",
    .sub style.font, .lit ":fontsize=", .num style.size, .lit ":fontcolor=", .sub style.color,
    .lit ":borderw=2:bordercolor=black:x=", .sub style.position.x, .lit ":y=",
    .sub style.position.y, .sub enable]

theorem typingLayer_eq : typingLayer style text.toList (typed + 1) =
    style.enabling text typed >>= fun enable =>
      FilterText.ofParts (style.parts text typed enable) := by
  rw [typingLayer, enabling, bind_assoc]
  refine congrArg _ (funext fun opening => ?_)
  split
  · rw [bind_assoc]
    rfl
  · rfl

theorem chars_enabling {enable : FilterText} (h : style.enabling text typed = .ok enable) :
    enable.chars = (":enable='" ++ (if typed + 1 < text.toList.length then
        "between(t\\," ++ style.time typed ++ "\\," ++ style.time (typed + 1)
      else "gte(t\\," ++ style.time typed) ++ ")'").toList := by
  obtain ⟨opening, hopening, h⟩ := bind_eq_ok.mp h
  have hopens : opening.chars = (style.time typed).toList := FilterText.chars_number hopening
  split at h
  · next hmore =>
    obtain ⟨closing, hclosing, h⟩ := bind_eq_ok.mp h
    have hcloses : closing.chars = (style.time (typed + 1)).toList :=
      FilterText.chars_number hclosing
    rw [FilterText.chars_ofParts h, if_pos hmore]
    simp [FilterText.Part.chars, hopens, hcloses]
  · next hlast =>
    rw [FilterText.chars_ofParts h, if_neg hlast]
    simp [FilterText.Part.chars, hopens]

theorem text_typingLayer {t : FilterText} (h : typingLayer style text.toList (typed + 1) = .ok t) :
    t.text = style.layerText text typed := by
  rw [typingLayer_eq] at h
  obtain ⟨enable, henable, h⟩ := bind_eq_ok.mp h
  have htoList (u : FilterText) : u.text.toList = u.chars := by
    rw [FilterText.text, String.toList_ofList]
  have hescape (raw : String) : (Filter.escape raw).toList = Filter.escapeChars raw.toList := by
    rw [Filter.escape, String.toList_ofList]
  refine String.toList_inj.mp ?_
  rw [htoList, FilterText.chars_ofParts h]
  unfold layerText look
  simp only [parts, List.flatMap_cons, List.flatMap_nil, FilterText.Part.chars, List.append_nil,
    chars_enabling henable, FilterText.chars_escaped, String.toList_append, List.append_assoc,
    htoList, hescape]

theorem exists_enabling : (∃ enable, style.enabling text typed = .ok enable) ↔
    (Typing.opening style.start style.speed typed).isFinite = true ∧
      (typed + 1 < text.toList.length →
        (Typing.opening style.start style.speed (typed + 1)).isFinite = true) := by
  have hplaces {x : Float} : (∃ t, FilterText.places x 4 = .ok t) ↔ x.isFinite = true :=
    FilterText.exists_number
  constructor
  · rintro ⟨enable, henable⟩
    obtain ⟨opening, hopening, h⟩ := bind_eq_ok.mp henable
    refine ⟨hplaces.mp ⟨opening, hopening⟩, fun hmore => ?_⟩
    rw [if_pos hmore] at h
    obtain ⟨closing, hclosing, -⟩ := bind_eq_ok.mp h
    exact hplaces.mp ⟨closing, hclosing⟩
  · rintro ⟨hopens, hcloses⟩
    obtain ⟨opening, hopening⟩ := hplaces.mpr hopens
    by_cases hmore : typed + 1 < text.toList.length
    · obtain ⟨closing, hclosing⟩ := hplaces.mpr (hcloses hmore)
      obtain ⟨enable, henable⟩ : ∃ enable, FilterText.ofParts [.lit ":enable='between(t\\,",
          .sub opening, .lit "\\,", .sub closing, .lit ")'"] = .ok enable :=
        FilterText.exists_ofParts.mpr (by simp)
      refine ⟨enable, bind_eq_ok.mpr ⟨opening, hopening, ?_⟩⟩
      rw [if_pos hmore]
      exact bind_eq_ok.mpr ⟨closing, hclosing, henable⟩
    · obtain ⟨enable, henable⟩ : ∃ enable, FilterText.ofParts [.lit ":enable='gte(t\\,",
          .sub opening, .lit ")'"] = .ok enable :=
        FilterText.exists_ofParts.mpr (by simp)
      refine ⟨enable, bind_eq_ok.mpr ⟨opening, hopening, ?_⟩⟩
      rwa [if_neg hmore]

theorem exists_typingLayer : (∃ t, typingLayer style text.toList (typed + 1) = .ok t) ↔
    (∃ enable, style.enabling text typed = .ok enable) ∧ style.size.isFinite = true := by
  have hparts (enable : FilterText) :
      (∃ t, FilterText.ofParts (style.parts text typed enable) = .ok t) ↔
        style.size.isFinite = true := by
    rw [FilterText.exists_ofParts]
    simp [parts]
  simp only [typingLayer_eq, bind_eq_ok]
  constructor
  · rintro ⟨t, enable, henable, ht⟩
    exact ⟨⟨enable, henable⟩, (hparts enable).mp ⟨t, ht⟩⟩
  · rintro ⟨⟨enable, henable⟩, hsize⟩
    obtain ⟨t, ht⟩ := (hparts enable).mpr hsize
    exact ⟨t, enable, henable, ht⟩

theorem map_text_typingLayers {layers : List FilterText}
    (h : typingLayers style text.toList = .ok layers) :
    layers.map (·.text) = (List.range text.toList.length).map (style.layerText text) :=
  map_eq_of_forall₂ (mapM_eq_ok.mp h) fun _ _ ht => text_typingLayer ht

/-- All layers are there if the time of the last can be written, since no other is later. -/
theorem exists_typingLayers (hspeed : 0 < style.speed) (hstart : 0 ≤ style.start) :
    (∃ layers, typingLayers style text.toList = .ok layers) ↔
      (text ≠ "" → style.size.isFinite = true ∧
        (Typing.opening style.start style.speed (text.toList.length - 1)).isFinite = true) := by
  have hsome : text ≠ "" ↔ 0 < text.toList.length := by
    rw [List.length_pos_iff, ne_eq, ne_eq, String.toList_eq_nil_iff]
  rw [typingLayers, exists_mapM, hsome]
  simp only [List.mem_range, exists_typingLayer, exists_enabling]
  constructor
  · intro h hpositive
    obtain ⟨⟨hlast, -⟩, hsize⟩ := h (text.toList.length - 1) (by omega)
    exact ⟨hsize, hlast⟩
  · intro h typed htyped
    obtain ⟨hsize, hlast⟩ := h (by omega)
    refine ⟨⟨?_, fun hmore => ?_⟩, hsize⟩
    · exact Typing.isFinite_opening hspeed hstart (by omega) hlast
    · exact Typing.isFinite_opening hspeed hstart (by omega) hlast

theorem layerText_last (hlast : typed + 1 = text.toList.length) :
    style.layerText text typed = "drawtext=text=" ++ Filter.escape text ++ ":" ++ style.look ++
      ":enable='" ++ ("gte(t\\," ++ style.time typed) ++ ")'" := by
  unfold layerText
  rw [if_neg hlast.not_lt, hlast, List.take_length, String.ofList_toList]

end TypingStyle

variable {p : Params} {ctx : HandlerContext} {text : String} {style : TypingStyle}

/-- A text that is typed at some speed from some time on has one layer for each of its characters,
unless the last of their times is too large for a double: then it has none, and compiling fails.
Each layer shows the text up to its own character, each but the last closes with the very text with
which the next opens, and the written times never decrease. -/
theorem typed_layers_tile (hreads : typingOf p ctx = .ok (text, style)) (hspeed : 0 < style.speed)
    (hstart : 0 ≤ style.start) :
    ((∃ made, typewriterText p ctx = .ok made) ↔ (text ≠ "" → style.size.isFinite = true ∧
      (Typing.opening style.start style.speed (text.toList.length - 1)).isFinite = true)) ∧
    ∀ made, typewriterText p ctx = .ok made →
      made.videoFilters.map (·.text) =
          (List.range text.toList.length).map (style.layerText text) ∧
        (∀ typed, typed + 1 = text.toList.length → style.layerText text typed =
          "drawtext=text=" ++ Filter.escape text ++ ":" ++ style.look ++ ":enable='" ++
            ("gte(t\\," ++ style.time typed) ++ ")'") ∧
          ∀ typed, typed + 1 < text.toList.length → ∃ v w,
            Number.decimalValue (style.time typed) = some v ∧
              Number.decimalValue (style.time (typed + 1)) = some w ∧ v ≤ w := by
  have hmade {made : Contribution} : typewriterText p ctx = .ok made ↔
      ∃ layers, typingLayers style text.toList = .ok layers ∧ Contribution.video layers = made := by
    rw [typewriterText_eq, hreads]
    exact fmap_eq_ok
  have hexists : (∃ made, typewriterText p ctx = .ok made) ↔
      ∃ layers, typingLayers style text.toList = .ok layers := by
    constructor
    · rintro ⟨made, h⟩
      obtain ⟨layers, hlayers, -⟩ := hmade.mp h
      exact ⟨layers, hlayers⟩
    · rintro ⟨layers, hlayers⟩
      exact ⟨_, hmade.mpr ⟨layers, hlayers, rfl⟩⟩
  rw [hexists, TypingStyle.exists_typingLayers hspeed hstart]
  refine ⟨Iff.rfl, fun made h => ?_⟩
  obtain ⟨layers, hlayers, rfl⟩ := hmade.mp h
  refine ⟨TypingStyle.map_text_typingLayers hlayers, fun typed => TypingStyle.layerText_last,
    fun typed hmore => ?_⟩
  have hsome : text ≠ "" := by
    rintro rfl
    exact absurd hmore (Nat.not_lt_zero _)
  -- The last layer opens at a finite time, and no earlier one opens later.
  obtain ⟨-, hlast⟩ := (TypingStyle.exists_typingLayers hspeed hstart).mp ⟨layers, hlayers⟩ hsome
  refine (Typing.inOrder_opening hspeed hstart ?_).decimalValue 4
  exact Typing.isFinite_opening hspeed hstart (by omega) hlast

def typingParams (speed : Float) : Params where
  skill := { name := "typing", category := .text, strategy := .handler "typewriter_text" }
  values := [("text", .text "Go!"), ("size", .number 48), ("color", .text "white"),
    ("font", .text "Mono"), ("position", .text "center"), ("speed", .number speed),
    ("start", .number 1)]

theorem typed_layers_tile_three : ∃ made style, typingOf (typingParams 8) mixedContext =
    .ok ("Go!", style) ∧ 0 < style.speed ∧ 0 ≤ style.start ∧
      typewriterText (typingParams 8) mixedContext = .ok made ∧
        made.videoFilters.map (·.text) =
          [style.layerText "Go!" 0, style.layerText "Go!" 1, style.layerText "Go!" 2] ∧
            style.time 0 = "1.0000" ∧ style.time 1 = "1.1250" ∧ style.time 2 = "1.2500" := by
  obtain ⟨⟨text, style⟩, hreads⟩ :=
    exists_of_isOk (by decide +kernel : (typingOf (typingParams 8) mixedContext).isOk = true)
  obtain ⟨htext, hsize, hspeed, hstart⟩ := reads_of_typingOf hreads
  obtain rfl : "Go!" = text := Except.ok.inj htext
  have hsize' : Number.truncate 48 = style.size := Except.ok.inj hsize
  have hspeed' : 8 = style.speed := Except.ok.inj hspeed
  have hstart' : 1 = style.start := Except.ok.inj hstart
  have hpositive : 0 < style.speed := by
    rw [← hspeed']
    decide +kernel
  have hnonneg : 0 ≤ style.start := by
    rw [← hstart']
    decide +kernel
  have hlength : "Go!".toList.length = 3 := by decide +kernel
  have htime (typed : ℕ) : style.time typed = Number.fixedText (Typing.opening 1 8 typed) 4 := by
    rw [TypingStyle.time, hspeed', hstart']
  obtain ⟨hmakes, htiles⟩ := typed_layers_tile hreads hpositive hnonneg
  obtain ⟨made, hmade⟩ := hmakes.mpr fun _ => by
    rw [hlength, ← hsize', ← hspeed', ← hstart']
    decide +kernel
  refine ⟨made, style, hreads, hpositive, hnonneg, hmade, ?_, ?_, ?_, ?_⟩
  · rw [(htiles made hmade).1, hlength]
    rfl
  · rw [htime]
    decide +kernel
  · rw [htime]
    decide +kernel
  · rw [htime]
    decide +kernel

/-- At a positive speed the third character may be typed at no time that a double holds. -/
theorem not_typed_layers_tile : ¬∀ (p : Params) (ctx : HandlerContext) (text : String)
    (style : TypingStyle), typingOf p ctx = .ok (text, style) → 0 < style.speed →
      0 ≤ style.start → ∃ made, typewriterText p ctx = .ok made ∧
        made.videoFilters.length = text.toList.length := by
  intro htiles
  obtain ⟨⟨text, style⟩, hreads⟩ := exists_of_isOk
    (by decide +kernel : (typingOf (typingParams 1e-308) mixedContext).isOk = true)
  obtain ⟨-, -, hspeed, hstart⟩ := reads_of_typingOf hreads
  have hspeed' : 1e-308 = style.speed := Except.ok.inj hspeed
  have hstart' : 1 = style.start := Except.ok.inj hstart
  obtain ⟨made, hmade, -⟩ := htiles _ _ _ _ hreads (by rw [← hspeed']; decide +kernel)
    (by rw [← hstart']; decide +kernel)
  have hfails : (typewriterText (typingParams 1e-308) mixedContext).isOk = false := by
    decide +kernel
  rw [hmade] at hfails
  cases hfails

end SkillPipeline.Effect
