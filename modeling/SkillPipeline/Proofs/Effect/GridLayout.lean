import SkillPipeline.Proofs.Effect.Accounting
import SkillPipeline.Proofs.Number.Whole
import SkillPipeline.Proofs.Text.Basic

namespace SkillPipeline.GridLayout

open Number

/-- Cells of one size with these corners keep a distance, side by side or one above the other. -/
def Apart (g : GridLayout ℚ) (a b : ℚ × ℚ) : Prop :=
  a.1 + g.cellWidth + g.gap ≤ b.1 ∨ b.1 + g.cellWidth + g.gap ≤ a.1 ∨
    a.2 + g.cellHeight + g.gap ≤ b.2 ∨ b.2 + g.cellHeight + g.gap ≤ a.2

/-- The points of the cell with this corner. -/
def cell (g : GridLayout ℚ) (corner : ℚ × ℚ) : Set (ℚ × ℚ) :=
  Set.Ico corner.1 (corner.1 + g.cellWidth) ×ˢ Set.Ico corner.2 (corner.2 + g.cellHeight)

/-- The corners of cells that lie apart, row by row, with so many in a row at most. -/
structure RowMajor (g : GridLayout ℚ) (corners : List (ℚ × ℚ)) : Prop where
  apart : corners.Pairwise g.Apart
  disjoint : corners.Pairwise fun a b => Disjoint (g.cell a) (g.cell b)
  ordered : corners.Pairwise fun a b => a.2 < b.2 ∨ a.2 = b.2 ∧ a.1 < b.1
  rows : ∀ y, (corners.countP fun corner => corner.2 = y) ≤ g.columns

section Corners

variable {α : Type} [Arithmetic α]

def corners (g : GridLayout α) (count : ℕ) : List (α × α) := (List.range count).map g.corner

end Corners

section Exact

variable {n i j : ℕ} {w h gap : ℚ}

theorem corner_eq (n : ℕ) (w h gap : ℚ) (i : ℕ) :
    (⟨n, w, h, gap⟩ : GridLayout ℚ).corner i =
      ((i % n : ℕ) * (w + gap), (i / n : ℕ) * (h + gap)) := by
  have hfloor : ((i : ℚ) / n).floor = (i / n : ℕ) := Rat.floor_natCast_div_natCast i n
  have hnonneg : ¬(i : ℚ) / n < 0 := not_lt.mpr (by positivity)
  have hrest : (i : ℚ) - n * (i / n : ℕ) = (i % n : ℕ) := by
    rw [sub_eq_iff_eq_add]
    exact_mod_cast (Nat.mod_add_div i n).symm
  change ((i - n * ((if (i : ℚ) / n < 0 then ((i : ℚ) / n).ceil else ((i : ℚ) / n).floor : ℤ) : ℚ))
    * (w + gap), ((((i : ℚ) / n).floor : ℤ) : ℚ) * (h + gap)) = _
  rw [if_neg hnonneg, hfloor, Int.cast_natCast, hrest]

theorem later_cell (hij : i < j) : i / n + 1 ≤ j / n ∨ i / n = j / n ∧ i % n + 1 ≤ j % n := by
  rcases Nat.lt_or_eq_of_le (Nat.div_le_div_right (c := n) hij.le) with hlt | heq
  · exact .inl hlt
  · refine .inr ⟨heq, ?_⟩
    have hi := Nat.div_add_mod i n
    have hj := Nat.div_add_mod j n
    rw [heq] at hi
    omega

theorem step_le {a b : ℕ} {step : ℚ} (hstep : 0 ≤ step) (hab : a + 1 ≤ b) :
    (a : ℚ) * step + step ≤ b * step := by
  have hab' : (a : ℚ) + 1 ≤ b := by exact_mod_cast hab
  calc (a : ℚ) * step + step = (a + 1) * step := by ring
    _ ≤ b * step := mul_le_mul_of_nonneg_right hab' hstep

theorem disjoint_of_apart {g : GridLayout ℚ} (hgap : 0 ≤ g.gap) {a b : ℚ × ℚ} (hab : g.Apart a b) :
    Disjoint (g.cell a) (g.cell b) := by
  rw [Set.disjoint_left]
  rintro ⟨x, y⟩ ⟨⟨hax, hax'⟩, hay, hay'⟩ ⟨⟨hbx, hbx'⟩, hby, hby'⟩
  rcases hab with hab | hab | hab | hab <;> linarith

theorem countP_row_le (hn : 0 < n) (count row : ℕ) :
    (List.range count).countP (fun i => i / n = row) ≤ n := by
  rw [List.countP_eq_length_filter,
    ← List.toFinset_card_of_nodup (List.nodup_range.filter fun i => decide (i / n = row))]
  calc _ ≤ (Finset.Ico (row * n) (row * n + n)).card := Finset.card_le_card fun i hi => ?_
    _ = n := by rw [Nat.card_Ico, Nat.add_sub_cancel_left]
  rw [List.mem_toFinset, List.mem_filter, decide_eq_true_iff] at hi
  rw [Finset.mem_Ico, ← hi.2]
  exact ⟨Nat.div_mul_le_self i n, Nat.lt_div_mul_add hn⟩

theorem countP_corners_le (hn : 0 < n) (hstep : 0 < h + gap) (count : ℕ) (y : ℚ) :
    ((⟨n, w, h, gap⟩ : GridLayout ℚ).corners count).countP (fun corner => corner.2 = y) ≤ n := by
  rw [corners, List.countP_map]
  by_cases hrow : ∃ i, ((⟨n, w, h, gap⟩ : GridLayout ℚ).corner i).2 = y
  · obtain ⟨i, rfl⟩ := hrow
    refine (List.countP_mono_left fun j _ hj => ?_).trans (countP_row_le hn count (i / n))
    rw [Function.comp_apply, decide_eq_true_iff, corner_eq, corner_eq] at hj
    have hsame : ((j / n : ℕ) : ℚ) = (i / n : ℕ) := mul_right_cancel₀ hstep.ne' hj
    exact decide_eq_true (by exact_mod_cast hsame)
  · have hnone : (List.range count).countP ((fun corner => decide (corner.2 = y)) ∘
        (⟨n, w, h, gap⟩ : GridLayout ℚ).corner) = 0 :=
      List.countP_eq_zero.mpr fun i _ hi => hrow ⟨i, of_decide_eq_true hi⟩
    rw [hnone]
    exact Nat.zero_le n

theorem rowMajor_corners (hn : 0 < n) (hw : 0 < w) (hh : 0 < h) (hgap : 0 ≤ gap) (count : ℕ) :
    (⟨n, w, h, gap⟩ : GridLayout ℚ).RowMajor ((⟨n, w, h, gap⟩ : GridLayout ℚ).corners count) := by
  have hpair {R : ℚ × ℚ → ℚ × ℚ → Prop} (hR : ∀ i j, i < j → R
      ((i % n : ℕ) * (w + gap), (i / n : ℕ) * (h + gap))
      ((j % n : ℕ) * (w + gap), (j / n : ℕ) * (h + gap))) :
      ((⟨n, w, h, gap⟩ : GridLayout ℚ).corners count).Pairwise R := by
    refine List.pairwise_map.mpr (List.pairwise_lt_range.imp fun {i j} hij => ?_)
    rw [corner_eq, corner_eq]
    exact hR i j hij
  -- A later cell is a step below, or in the same row and a step further on.
  have hapart : ((⟨n, w, h, gap⟩ : GridLayout ℚ).corners count).Pairwise
      (⟨n, w, h, gap⟩ : GridLayout ℚ).Apart := by
    refine hpair fun i j hij => ?_
    rcases later_cell (n := n) hij with hrow | ⟨-, hcolumn⟩
    · refine .inr (.inr (.inl ?_))
      have hstep := step_le (by linarith : 0 ≤ h + gap) hrow
      linarith
    · refine .inl ?_
      have hstep := step_le (by linarith : 0 ≤ w + gap) hcolumn
      linarith
  refine ⟨hapart, hapart.imp (disjoint_of_apart hgap), hpair fun i j hij => ?_, fun y => ?_⟩
  · rcases later_cell (n := n) hij with hrow | ⟨hrow, hcolumn⟩
    · have hstep := step_le (by linarith : 0 ≤ h + gap) hrow
      exact .inl (by linarith)
    · have hstep := step_le (by linarith : 0 ≤ w + gap) hcolumn
      exact .inr ⟨by rw [hrow], by linarith⟩
  · exact Nat.cast_le.mpr (countP_corners_le hn (by linarith) count y)

end Exact

def exactly (g : GridLayout Float) : GridLayout ℚ :=
  ⟨exact g.columns, exact g.cellWidth, exact g.cellHeight, exact g.gap⟩

/-- There is a column, cells have a size, and the gap is not negative. -/
structure Proper (g : GridLayout Float) : Prop where
  columns : 1 ≤ exact g.columns
  width : 0 < exact g.cellWidth
  height : 0 < exact g.cellHeight
  gap : g.gap.isFinite = true ∧ 0 ≤ exact g.gap

/-- The cells, with a gap behind each, end before `2^53`, and so do their numbers. -/
structure Fits (g : GridLayout ℚ) (count : ℕ) : Prop where
  columns : g.columns < 2 ^ 53
  indices : count ≤ 2 ^ 53
  ends : ∀ corner ∈ g.corners count,
    corner.1 + (g.cellWidth + g.gap) < 2 ^ 53 ∧ corner.2 + (g.cellHeight + g.gap) < 2 ^ 53

/-- What the doubles hold, where they are whole numbers. -/
structure Whole (g : GridLayout Float) (n w h gap : ℕ) : Prop where
  columns : Holds g.columns n
  width : Holds g.cellWidth w
  height : Holds g.cellHeight h
  gap : Holds g.gap gap

section Whole

variable {g : GridLayout Float} {n w h gap i count : ℕ}

theorem Whole.exactly_eq (hg : g.Whole n w h gap) : g.exactly = ⟨n, w, h, gap⟩ := by
  rw [exactly, hg.columns.value, hg.width.value, hg.height.value, hg.gap.value]

theorem Whole.proper (hg : g.Whole n w h gap) (hn : 0 < n) (hw : 0 < w) (hh : 0 < h) :
    g.Proper where
  columns := by rw [hg.columns.value]; exact_mod_cast hn
  width := by rw [hg.width.value]; exact_mod_cast hw
  height := by rw [hg.height.value]; exact_mod_cast hh
  gap := ⟨hg.gap.finite, by rw [hg.gap.value]; exact Nat.cast_nonneg gap⟩

theorem Whole.corner_holds (hg : g.Whole n w h gap) (hn : 0 < n)
    (hfits : (⟨n, w, h, gap⟩ : GridLayout ℚ).Fits count) (hi : i < count) :
    Holds (g.corner i).1 (i % n * (w + gap) : ℕ) ∧ Holds (g.corner i).2 (i / n * (h + gap) : ℕ) ∧
      i % n * (w + gap) < 2 ^ 53 ∧ i / n * (h + gap) < 2 ^ 53 := by
  have hcolumns : (n : ℚ) < 2 ^ 53 := hfits.columns
  have hcolumns : n < 2 ^ 53 := by exact_mod_cast hcolumns
  have hcount := hfits.indices
  have hindex : Holds (Float.ofNat i) i := holds_ofNat (by omega)
  obtain ⟨hright, hbelow⟩ := hfits.ends _ (List.mem_map_of_mem (List.mem_range.mpr hi))
  rw [corner_eq] at hright hbelow
  change ((i % n : ℕ) : ℚ) * (w + gap) + (w + gap) < 2 ^ 53 at hright
  change ((i / n : ℕ) : ℚ) * (h + gap) + (h + gap) < 2 ^ 53 at hbelow
  have hright' : i % n * (w + gap) + (w + gap) < 2 ^ 53 := by exact_mod_cast hright
  have hbelow' : i / n * (h + gap) + (h + gap) < 2 ^ 53 := by exact_mod_cast hbelow
  have hwidth := holds_add hg.width hg.gap (by omega)
  have hheight := holds_add hg.height hg.gap (by omega)
  have hcolumn := holds_remainder hindex hg.columns hn (by omega) hcolumns
  have hrow := holds_floor_div hindex hg.columns hn (by omega) hcolumns
  exact ⟨holds_mul hcolumn hwidth (by omega), holds_mul hrow hheight (by omega), by omega, by omega⟩

/-- The places of the first cells in whole numbers. -/
def positions (n w h gap count : ℕ) : List (ℕ × ℕ) :=
  (List.range count).map fun i => (i % n * (w + gap), i / n * (h + gap))

theorem corners_eq_positions (n w h gap count : ℕ) :
    (⟨n, w, h, gap⟩ : GridLayout ℚ).corners count =
      (positions n w h gap count).map fun p => ((p.1 : ℚ), (p.2 : ℚ)) := by
  rw [corners, positions, List.map_map]
  refine List.map_congr_left fun i _ => ?_
  rw [corner_eq, Function.comp_apply]
  push_cast
  rfl

theorem Proper.exists_whole {g : GridLayout Float} (hg : g.Proper)
    (htruncated : ∀ x ∈ [g.columns, g.cellWidth, g.cellHeight, g.gap], ∃ y, truncate y = x) :
    ∃ n w h gap, g.Whole n w h gap ∧ 0 < n ∧ 0 < w ∧ 0 < h := by
  have hwhole {x : Float} (hx : x ∈ [g.columns, g.cellWidth, g.cellHeight, g.gap])
      (hfinite : x.isFinite = true) (hnonneg : 0 ≤ exact x) : ∃ n : ℕ, Holds x n := by
    obtain ⟨y, rfl⟩ := htruncated x hx
    exact exists_holds_truncate hfinite hnonneg
  have hpositive {x : Float} (hx : x ∈ [g.columns, g.cellWidth, g.cellHeight, g.gap])
      (h : 0 < exact x) : ∃ n : ℕ, Holds x n ∧ 0 < n := by
    obtain ⟨n, hn⟩ := hwhole hx (isFinite_of_exact_ne_zero h.ne') h.le
    rw [hn.value] at h
    exact ⟨n, hn, by exact_mod_cast h⟩
  obtain ⟨n, hcolumns, hn⟩ := hpositive (x := g.columns) (by simp) (by linarith [hg.columns])
  obtain ⟨w, hwidth, hw⟩ := hpositive (by simp) hg.width
  obtain ⟨h, hheight, hh⟩ := hpositive (by simp) hg.height
  obtain ⟨gap, hgap⟩ := hwhole (by simp) hg.gap.1 hg.gap.2
  exact ⟨n, w, h, gap, ⟨hcolumns, hwidth, hheight, hgap⟩, hn, hw, hh⟩

end Whole

end SkillPipeline.GridLayout

namespace SkillPipeline

namespace Effect

open Outcome

structure GridMeasures (params : Params) (ctx : HandlerContext) (g : GridLayout Float) :
    Prop where
  columns : params.int "columns" = .ok g.columns
  width : params.int "cell_width" (some ctx.primary.width) = .ok g.cellWidth
  height : params.int "cell_height" (some ctx.primary.height) = .ok g.cellHeight
  gap : params.int "gap" = .ok g.gap

def place (corner : Float × Float) : String := Number.text corner.1 ++ "_" ++ Number.text corner.2

/-- The place of a cell in decimal numerals. -/
def numerals (position : ℕ × ℕ) : String := toString position.1 ++ "_" ++ toString position.2

/-- The text that lists the places of as many cells. -/
def layoutText (g : GridLayout Float) (count : ℕ) : String :=
  Text.join "|" ((g.corners count).map place)

/-- The pictures of two segments or more are stacked in their order, and the last node names as many
places in the order of the cells. -/
structure LaysOut (g : GridLayout Float) (segments : List SequenceSegment) (f : Fragment) :
    Prop where
  enough : 2 ≤ segments.length
  stacked : Stacks "g" "xstack=inputs=" segments f
  layout : ∃ stack background, f.nodes.getLast? = some stack ∧
    stack.filter.text = "xstack=inputs=" ++ Number.text (Float.ofNat segments.length) ++
      ":layout=" ++ layoutText g segments.length ++ ":fill=" ++ background

variable {params : Params} {ctx : HandlerContext} {made : Contribution} {g : GridLayout Float}

theorem GridMeasures.truncated (h : GridMeasures params ctx g) :
    ∀ x ∈ [g.columns, g.cellWidth, g.cellHeight, g.gap], ∃ y, Number.truncate y = x := by
  have hint {name : String} {fallback : Option Float} {x : Float}
      (hx : params.int name fallback = .ok x) : ∃ y, Number.truncate y = x := by
    obtain ⟨y, -, hy⟩ := map_eq_ok.mp hx
    exact ⟨y, hy⟩
  simp only [List.forall_mem_cons]
  exact ⟨hint h.columns, hint h.width, hint h.height, hint h.gap, by simp⟩

theorem gridCell_place {c : Canvas} {seconds : Float} {p : SequenceSegment × ℕ}
    {cell : GraphNode × FilterText} (h : gridCell c g seconds p = .ok cell) :
    cell.2.text = place (g.corner p.2) := by
  simp only [gridCell, bind_eq_ok, pure_eq_ok] at h
  obtain ⟨retime, -, filter, -, entry, hentry, rfl⟩ := h
  rw [FilterText.text, FilterText.chars_ofParts hentry, ← String.toList_inj]
  simp [FilterText.Part.chars, place]

theorem canvasOf_measures {c : Canvas} {width height : String}
    (h : canvasOf params ctx width height = .ok c) :
    params.int width (some ctx.primary.width) = .ok c.width ∧
      params.int height (some ctx.primary.height) = .ok c.height := by
  simp only [canvasOf, bind_eq_ok] at h
  obtain ⟨w, hw, h', hh, h⟩ := h
  split at h <;> obtain ⟨background, -, h⟩ := bind_eq_ok.mp h <;> cases h <;> exact ⟨hw, hh⟩

theorem grid_laysOut (h : grid params ctx = .ok made) :
    ∃ includeMain g f, params.bool "include_video" = .ok includeMain ∧
      GridMeasures params ctx g ∧ made.graph? = some f ∧
        LaysOut g (sequenceSegments ctx includeMain) f := by
  obtain ⟨includeMain, f, hinclude, hgraph, hstacks, -⟩ := grid_stacks h
  simp only [grid, bind_eq_ok, mapM_eq_ok, pure_eq_ok] at h
  obtain ⟨includeMain', hinclude', _, henough, columns, hcolumns, gap, hgap, hold, -, c, hc, cells,
    hcells, joined, hjoined, length, -, rfl⟩ := h
  obtain rfl : includeMain' = includeMain := Except.ok.inj (hinclude'.symm.trans hinclude)
  obtain rfl := Option.some.inj hgraph
  obtain ⟨hwidth, hheight⟩ := canvasOf_measures hc
  obtain ⟨-, -, hchars⟩ := GraphNode.of_eq_ok hjoined
  -- Every cell is followed by its place, so the places come in the order of the segments.
  have hplaces : (cells.map (·.2)).map FilterText.text =
      (GridLayout.corners ⟨columns, c.width, c.height, gap⟩
        (sequenceSegments ctx includeMain').length).map place := by
    have hcell := map_eq_of_forall₂ hcells fun p cell hcell => gridCell_place hcell
    rw [map_zipIdx_snd _ fun i => place (GridLayout.corner _ i)] at hcell
    rw [List.map_map, GridLayout.corners, List.map_map]
    exact hcell
  refine ⟨includeMain', ⟨columns, c.width, c.height, gap⟩, _, hinclude,
    ⟨hcolumns, hwidth, hheight, hgap⟩, rfl, ?_, hstacks, joined, c.background.text,
    List.getLast?_concat, ?_⟩
  · unfold requireSegments at henough
    split at henough
    · cases henough
    · next hmany => exact not_lt.mp hmany
  · have hlayout := FilterText.text_join "|" (cells.map (·.2))
    rw [hplaces] at hlayout
    rw [layoutText, ← hlayout, ← String.toList_inj, FilterText.text, hchars]
    simp [FilterText.Part.chars, FilterText.text]

theorem not_mem_numerals (position : ℕ × ℕ) : '|' ∉ (numerals position).toList := by
  have hdigits (k : ℕ) : '|' ∉ Nat.toDigits 10 k := fun hmem =>
    absurd (Nat.isDigit_of_mem_toDigits (by norm_num) (by norm_num) hmem) (by decide)
  simp [numerals, hdigits]

theorem place_eq_numerals {n w h gap count : ℕ} (hg : g.Whole n w h gap) (hn : 0 < n)
    (hfits : (⟨n, w, h, gap⟩ : GridLayout ℚ).Fits count) :
    (g.corners count).map place = (GridLayout.positions n w h gap count).map numerals := by
  rw [GridLayout.corners, GridLayout.positions, List.map_map, List.map_map]
  refine List.map_congr_left fun i hi => ?_
  obtain ⟨hx, hy, hx', hy'⟩ := hg.corner_holds hn hfits (List.mem_range.mp hi)
  rw [Function.comp_apply, Function.comp_apply, place, numerals, Number.text_whole hx hx',
    Number.text_whole hy hy']

/-- The last node of a grid names one place for each segment, in their order. In exact arithmetic
cells at these places, whatever their number, have no point in common and keep the gap at least, row
by row and with so many in a row as there are columns at most. The places that are written are the
exact ones if all cells end before `2^53`. -/
theorem grid_cells (h : grid params ctx = .ok made) :
    ∃ includeMain g f, params.bool "include_video" = .ok includeMain ∧
      GridMeasures params ctx g ∧ made.graph? = some f ∧
        LaysOut g (sequenceSegments ctx includeMain) f ∧
          (g.Proper → g.exactly.RowMajor
            (g.exactly.corners (sequenceSegments ctx includeMain).length) ∧
              (g.exactly.Fits (sequenceSegments ctx includeMain).length →
                ∃ positions : List (ℕ × ℕ), positions.map (fun p => ((p.1 : ℚ), (p.2 : ℚ))) =
                    g.exactly.corners (sequenceSegments ctx includeMain).length ∧
                  Text.splitAt '|' (layoutText g (sequenceSegments ctx includeMain).length) =
                    positions.map numerals)) := by
  obtain ⟨includeMain, g, f, hinclude, hg, hgraph, hf⟩ := grid_laysOut h
  refine ⟨includeMain, g, f, hinclude, hg, hgraph, hf, fun hproper => ?_⟩
  obtain ⟨n, width, height, gap, hwhole, hn, hwidth, hheight⟩ := hproper.exists_whole hg.truncated
  rw [hwhole.exactly_eq]
  -- The exact layout is in order whatever its size; only what is written has to fit.
  refine ⟨GridLayout.rowMajor_corners hn (by exact_mod_cast hwidth) (by exact_mod_cast hheight)
    (Nat.cast_nonneg gap) _, fun hfits => ?_⟩
  refine ⟨GridLayout.positions n width height gap _,
    (GridLayout.corners_eq_positions n width height gap _).symm, ?_⟩
  rw [layoutText, place_eq_numerals hwhole hn hfits]
  refine Text.splitAt_join rfl ?_ fun entry hentry => ?_
  · have henough := hf.enough
    simp only [GridLayout.positions, ne_eq, List.map_eq_nil_iff, List.range_eq_nil]
    omega
  · obtain ⟨position, -, rfl⟩ := List.mem_map.mp hentry
    exact not_mem_numerals position

theorem holds_int {name : String} {fallback : Option Float} {n : ℕ} {x : Float} (hn : n < 2 ^ 53)
    (hfloat : params.float name fallback = .ok (Float.ofNat n))
    (hint : params.int name fallback = .ok x) : Number.Holds x n := by
  rw [Params.int, hfloat] at hint
  obtain rfl := Except.ok.inj hint
  exact Number.holds_truncate_natCast (Number.holds_ofNat hn)

/-- Three segments in two columns of the size of the main clip. -/
theorem grid_cells_mixed : ∃ made f g, grid mixedParams mixedContext = .ok made ∧
    made.graph? = some f ∧ LaysOut g (sequenceSegments mixedContext true) f ∧ g.Proper ∧
      g.exactly.RowMajor (g.exactly.corners 3) ∧
        Text.splitAt '|' (layoutText g 3) = ["0_0", "640_0", "0_360"] := by
  obtain ⟨made, hmade⟩ :=
    exists_of_isOk (by decide +kernel : (grid mixedParams mixedContext).isOk = true)
  obtain ⟨includeMain, g, f, hinclude, hg, hgraph, hf, hcells⟩ := grid_cells hmade
  obtain rfl : true = includeMain := Except.ok.inj hinclude
  have hwhole : g.Whole 2 640 360 0 := by
    obtain ⟨hcolumns, hwidth, hheight, hgap⟩ := hg
    exact ⟨holds_int (by norm_num) rfl hcolumns, holds_int (by norm_num) rfl hwidth,
      holds_int (by norm_num) rfl hheight, holds_int (by norm_num) rfl hgap⟩
  have hproper := hwhole.proper (by norm_num) (by norm_num) (by norm_num)
  have hlength : (sequenceSegments mixedContext true).length = 3 := rfl
  obtain ⟨hrows, hplaces⟩ := hcells hproper
  rw [hlength] at hrows hplaces
  have hcorners : g.exactly.corners 3 =
      [(0, 0), (640, 0), (0, 360)].map fun p : ℕ × ℕ => ((p.1 : ℚ), (p.2 : ℚ)) := by
    rw [hwhole.exactly_eq, GridLayout.corners_eq_positions]
    rfl
  have hfits : g.exactly.Fits 3 := by
    refine ⟨?_, by norm_num, ?_⟩
    · rw [hwhole.exactly_eq]
      norm_num
    · rw [hcorners, hwhole.exactly_eq]
      norm_num
  obtain ⟨positions, hpositions, hsplit⟩ := hplaces hfits
  have hinjective : Function.Injective fun p : ℕ × ℕ => ((p.1 : ℚ), (p.2 : ℚ)) := by
    rintro ⟨a, b⟩ ⟨c, d⟩ heq
    simpa using heq
  obtain rfl := List.map_injective_iff.mpr hinjective (hpositions.trans hcorners)
  exact ⟨made, f, g, hmade, hgraph, hf, hproper, hrows, hsplit⟩

/-- Cells as wide as the double after which not every whole number is one, with a gap of one. -/
def wideLayout : GridLayout Float := ⟨2, 9007199254740992, 360, 1⟩

def wideParams : Params := { mixedParams with
  values := [("include_video", .flag true), ("duration", .number 1), ("columns", .number 2),
    ("gap", .number 1), ("cell_width", .number 9007199254740992), ("cell_height", .number 360)] }

theorem exact_wide : Number.exact 9007199254740992 = 2 ^ 53 := by
  have hunpacked : (9007199254740992 : Float).toModel.unpack =
    .finite .positive (2 ^ 52) 1 (by norm_num) := rfl
  rw [Number.exact, hunpacked]
  norm_num [Number.valueOf, Number.signed]

/-- Cells of a compiled grid need not lie apart: the place of the second one here is rounded. -/
theorem not_grid_apart : (grid wideParams mixedContext).isOk = true ∧
    GridMeasures wideParams mixedContext wideLayout ∧ wideLayout.Proper ∧
      layoutText wideLayout 2 = "0_0|9007199254740992_0" ∧
        ¬((wideLayout.corners 2).map fun corner =>
          (Number.exact corner.1, Number.exact corner.2)).Pairwise wideLayout.exactly.Apart := by
  have hmeasures : GridMeasures wideParams mixedContext wideLayout :=
    ⟨congrArg Except.ok (by decide +kernel : Number.truncate 2 = 2),
      congrArg Except.ok (by decide +kernel : Number.truncate 9007199254740992 = 9007199254740992),
      congrArg Except.ok (by decide +kernel : Number.truncate 360 = 360),
      congrArg Except.ok (by decide +kernel : Number.truncate 1 = 1)⟩
  have hexact : wideLayout.exactly = ⟨2, 2 ^ 53, 360, 1⟩ := by
    rw [GridLayout.exactly]
    exact congr (congr (congr (congrArg _ (Number.exact_ofNat (n := 2) (by norm_num))) exact_wide)
      (Number.exact_ofNat (n := 360) (by norm_num))) (Number.exact_ofNat (n := 1) (by norm_num))
  have hproper : wideLayout.Proper := by
    refine ⟨?_, ?_, ?_, (Number.holds_ofNat (n := 1) (by norm_num)).finite, ?_⟩
    · exact (by norm_num : (1 : ℚ) ≤ 2).trans_eq (congrArg GridLayout.columns hexact).symm
    · exact (by norm_num : (0 : ℚ) < 2 ^ 53).trans_eq (congrArg GridLayout.cellWidth hexact).symm
    · exact (by norm_num : (0 : ℚ) < 360).trans_eq (congrArg GridLayout.cellHeight hexact).symm
    · exact (by norm_num : (0 : ℚ) ≤ 1).trans_eq (congrArg GridLayout.gap hexact).symm
  -- The second column should start one unit further on, at a number that is no double.
  have hcorners : wideLayout.corners 2 = [(0, 0), (9007199254740992, 0)] := by decide +kernel
  refine ⟨by decide +kernel, hmeasures, hproper, by decide +kernel, ?_⟩
  have hzero : Number.exact 0 = 0 := by exact_mod_cast Number.exact_ofNat (n := 0) (by norm_num)
  rw [hcorners, hexact]
  norm_num [GridLayout.Apart, hzero, exact_wide]

end Effect

end SkillPipeline
