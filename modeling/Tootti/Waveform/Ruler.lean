import Tootti.Machine.Decimal
import Tootti.Waveform.Pointer

/-!
The ruler above the waveform, and how far the waveform can be scrolled.

Each row of the ruler has a label and fifteen ticks, two seconds apart, and leaves
ten seconds on the left of its label's time. The ruler has no lines of its own, so
what it says of a point is what stands at the place of the point's line. The table
of the waveform has a footer that is as high as the last row leaves room for.
-/

namespace Tootti.Waveform

open Machine

variable {α : Type*} {points : List α} {rows : List (List α)} {fuel : ℕ}

/-! ### The ruler -/

/-- The label that `setIndex:` gives row `index`. -/
def label (index : ℕ) : List Char := clock (30 * index)

/-- `n` ticks from number `i` at `y` on, each with its place and its height. -/
def drawTicks (i : ℕ) (y : ℚ) : ℕ → List (ℚ × ℚ)
  | 0 => []
  | n + 1 =>
      (y, if i % 5 = 0 then 5 else 3) :: drawTicks (i + 1) (y + kAudioPlayerLineSpacing * 2) n

/-- `MOTimeCell.drawRect:`, measured from the top of the cell. -/
def timeCell : List (ℚ × ℚ) := drawTicks 0 1 15

/-- Tick `i` of row `r`, measured from the top of the table's content. -/
def tickOf (width : ℚ) (r i : ℕ) : Option (ℚ × ℚ) :=
  timeCell[i]?.map fun (y, height) => (kLeftSpacing width + r * cellHeight + y, height)

theorem getElem?_drawTicks (i : ℕ) (y : ℚ) (n j : ℕ) :
    (drawTicks i y n)[j]? =
      if j < n then some (y + 8 * j, if (i + j) % 5 = 0 then 5 else 3) else none := by
  induction n generalizing i y j with
  | zero => simp [drawTicks]
  | succ n ih =>
      cases j with
      | zero => simp [drawTicks]
      | succ j =>
          have hy : y + kAudioPlayerLineSpacing * 2 + 8 * (j : ℚ) = y + 8 * ((j + 1 : ℕ) : ℚ) := by
            simp only [kAudioPlayerLineSpacing]
            push_cast
            ring
          have hi : i + 1 + j = i + (j + 1) := by omega
          simp only [drawTicks, List.getElem?_cons_succ, ih, hy, hi, Nat.add_lt_add_iff_right]

theorem tickOf_eq_some {width : ℚ} {r i : ℕ} {tick : ℚ × ℚ} :
    tickOf width r i = some tick ↔ i < 15 ∧
      tick = (kLeftSpacing width + ((120 * r + 1 + 8 * i : ℕ) : ℚ),
        if i % 5 = 0 then 5 else 3) := by
  have hplace : kLeftSpacing width + r * (cellHeight : ℚ) + (1 + 8 * i) =
      kLeftSpacing width + ((120 * r + 1 + 8 * i : ℕ) : ℚ) := by
    simp only [cellHeight]
    push_cast
    ring
  rw [tickOf, timeCell, getElem?_drawTicks]
  split
  · rename_i hi
    simp only [Option.map_some, Nat.zero_add, hplace, Option.some.injEq, hi, true_and, eq_comm]
  · rename_i hi
    simp [hi]

/-- A tick stands over the line of every other second from the twentieth on.
Label and tick read that second, and the long ticks are those of whole tens. -/
theorem ruler_reads (h : setPoints fuel points = some rows) (width : ℚ) {k : ℕ}
    (hk : k < points.length) :
    (∀ r i tick, tickOf width r i = some tick → lineOf width rows k = some tick.1 →
      readClock (label r) + 2 * i = k + 10 ∧ (tick.2 = 5 ↔ k % 10 = 0)) ∧
    ((∃ r i tick, r < rows.length ∧ tickOf width r i = some tick ∧
      lineOf width rows k = some tick.1) ↔ 20 ≤ k ∧ k % 2 = 0) := by
  have hrows := isRows_of_setPoints h
  have hline := lineOf_eq hrows.isChunking width hk
  have hat : ∀ r i : ℕ, lineOf width rows k =
      some (kLeftSpacing width + ((120 * r + 1 + 8 * i : ℕ) : ℚ)) ↔
        120 * r + 1 + 8 * i = (if k < 20 then 42 else 41) + 4 * k := by
    intro r i
    rw [hline, Option.some.injEq, add_right_inj]
    split <;> (constructor <;> intro heq)
    · exact_mod_cast heq.symm
    · exact_mod_cast heq.symm
    · exact_mod_cast heq.symm
    · exact_mod_cast heq.symm
  constructor
  · intro r i tick htick hover
    obtain ⟨hi, rfl⟩ := tickOf_eq_some.mp htick
    have hplace := (hat r i).mp hover
    rw [label, readClock_clock]
    split at hplace
    · omega
    · refine ⟨by omega, ?_⟩
      have hfive : i % 5 = 0 ↔ k % 10 = 0 := by omega
      rw [← hfive]
      by_cases hlong : i % 5 = 0
      · simp [hlong]
      · norm_num [hlong]
  · constructor
    case mp =>
      rintro ⟨r, i, tick, -, htick, hover⟩
      obtain ⟨hi, rfl⟩ := tickOf_eq_some.mp htick
      have hplace := (hat r i).mp hover
      split at hplace <;> omega
    case mpr =>
      rintro ⟨hlate, heven⟩
      have hrow : rowOf k = (k + 10) / 30 := by
        rw [rowOf, if_neg (by omega)]
        omega
      refine ⟨rowOf k, (k + 10) % 30 / 2, _, hrows.rowOf_lt hk,
        tickOf_eq_some.mpr ⟨by omega, rfl⟩, (hat _ _).mpr ?_⟩
      rw [if_neg (by omega), hrow]
      omega

theorem ruler_reads_twenty :
    ∃ r i tick, r < [List.replicate 20 (), [()]].length ∧ tickOf 375 r i = some tick ∧
      lineOf 375 [List.replicate 20 (), [()]] 20 = some tick.1 :=
  (ruler_reads setPoints_twenty_one 375 (by decide)).2.mpr (by decide)

/-! ### The scroll range -/

/-- The widths of the screen and of the slider. -/
structure Layout where
  screen : ℚ
  frame : ℚ

/-- What `setupView` leaves on the right of the pointer's middle. -/
def Layout.rightSpace (l : Layout) : ℚ := l.frame - (kLeftSpacing l.screen + 34 + 16 / 2)

/-- Where `drawRect:` would draw the next line. -/
def afterLines (y : ℚ) : List α → ℚ
  | [] => y
  | _ :: points => afterLines (y + kAudioPlayerLineSpacing) points

def lastBlankHeight (points : List α) (index : ℕ) : ℚ :=
  cellHeight - afterLines (cellTop index) points + kAudioPlayerLineSpacing

/-- The height with which the last row makes the footer's frame when it is drawn. It
is negative when the slider is much narrower than the screen. -/
def footerHeight (l : Layout) (rows : List (List α)) : ℚ :=
  match rows.getLast? with
  | none => 0
  | some row => l.rightSpace - lastBlankHeight row (rows.length - 1)

/-- The header, the rows and the footer; a frame is as high either way. -/
def contentHeight (l : Layout) (rows : List (List α)) : ℚ :=
  kLeftSpacing l.screen + rows.length * cellHeight + |footerHeight l rows|

/-- A table that does not bounce can be dragged until its content ends. -/
def maxContentOffset (l : Layout) (rows : List (List α)) : ℚ :=
  max 0 (contentHeight l rows - l.frame)

theorem afterLines_eq (y : ℚ) (points : List α) : afterLines y points = y + 4 * points.length := by
  induction points generalizing y with
  | nil => simp [afterLines]
  | cons point points ih =>
      rw [afterLines, ih, List.length_cons, kAudioPlayerLineSpacing]
      push_cast
      ring

/-- The last line is as far from the end of the content as the pointer is from
the right edge. -/
theorem contentHeight_eq (h : IsRows points rows) (hne : points ≠ []) {l : Layout}
    (hfooter : 0 ≤ footerHeight l rows) :
    lineOf l.screen rows (points.length - 1) = some (contentHeight l rows - l.rightSpace) := by
  have hpos : 0 < points.length := List.length_pos_of_ne_nil hne
  have hrows : 0 < rows.length := Nat.zero_lt_of_lt (h.rowOf_lt hpos)
  obtain ⟨m, hm⟩ : ∃ m, rows.length = m + 1 := ⟨rows.length - 1, by omega⟩
  have hlast : rows.getLast? = some (chunk points m) := by
    rw [List.getLast?_eq_getElem?, hm, Nat.add_sub_cancel]
    exact h.getElem?_of_lt (by omega)
  have hstarted := h.started m (by omega)
  have hcomplete := h.complete
  rw [hm, rowStart_succ] at hcomplete
  have hlength : (chunk points m).length = points.length - rowStart m := by
    rw [length_chunk]
    omega
  rw [lineOf_eq h.isChunking l.screen (by omega), contentHeight, abs_of_nonneg hfooter,
    footerHeight, hlast, hm]
  simp only [lastBlankHeight, Nat.add_sub_cancel, afterLines_eq, hlength, Option.some.injEq]
  cases m with
  | zero =>
      have hceil : ⌈((cellHeight / 3 : ℤ) : ℚ)⌉ = 40 := Int.ceil_intCast _
      have hfirst : points.length - 1 < 20 := by
        simp only [rowStart, rowSize] at hcomplete
        omega
      rw [if_pos hfirst, cellTop, if_pos rfl, hceil, rowStart, Nat.sub_zero,
        Nat.cast_sub (by omega), cellHeight, kAudioPlayerLineSpacing]
      push_cast
      ring
  | succ r =>
      simp only [rowStart] at hstarted ⊢
      rw [if_neg (by omega), cellTop, if_neg (Nat.succ_ne_zero r), Nat.cast_sub (by omega),
        Nat.cast_sub (by omega), cellHeight, kAudioPlayerLineSpacing]
      push_cast
      ring

theorem maxContentOffset_eq (h : IsRows points rows) (hne : points ≠ []) {l : Layout}
    (hfooter : 0 ≤ footerHeight l rows) :
    maxContentOffset l rows =
      4 * ((points.length - 1 : ℕ) : ℚ) - if points.length - 1 < 20 then 0 else 1 := by
  have hpos : 0 < points.length := List.length_pos_of_ne_nil hne
  have hlast := contentHeight_eq h hne hfooter
  rw [lineOf_eq h.isChunking l.screen (by omega), Option.some.injEq, Layout.rightSpace] at hlast
  have hend : contentHeight l rows - l.frame =
      4 * ((points.length - 1 : ℕ) : ℚ) - if points.length - 1 < 20 then 0 else 1 := by
    split at hlast <;> rename_i hrow
    · rw [if_pos hrow]
      linarith
    · rw [if_neg hrow]
      linarith
  rw [maxContentOffset, hend, max_eq_right]
  split <;> rename_i hrow
  · simp
  · have hlarge : (20 : ℚ) ≤ (points.length - 1 : ℕ) := by exact_mod_cast not_lt.mp hrow
    linarith

/-- A drag to a place before second `n` seeks to no later time, though the time is
rounded. -/
theorem seconds_didEndDraggingY_le {o : ℚ} {n : ℕ} (ho : 0 ≤ o) (hn : o ≤ 4 * n) :
    0 ≤ (didEndDraggingY o).seconds ∧ (didEndDraggingY o).seconds ≤ n := by
  have hround : (didEndDraggingY o).seconds =
      ((⌊o / 4 * 1000000000 + 1 / 2⌋ : ℤ) : ℚ) / 1000000000 := by
    rw [didEndDraggingY, CMTime.makeWithSeconds, CMTime.seconds, round_eq, kAudioPlayerLineSpacing]
    push_cast
    rfl
  have hlow : 0 ≤ ⌊o / 4 * 1000000000 + 1 / 2⌋ := by
    apply Int.floor_nonneg.mpr
    linarith
  have hhigh : ⌊o / 4 * 1000000000 + 1 / 2⌋ < n * 1000000000 + 1 := by
    rw [Int.floor_lt]
    push_cast
    linarith
  have hlow' : (0 : ℚ) ≤ (⌊o / 4 * 1000000000 + 1 / 2⌋ : ℤ) := by exact_mod_cast hlow
  have hhigh' : ((⌊o / 4 * 1000000000 + 1 / 2⌋ : ℤ) : ℚ) ≤ n * 1000000000 := by
    exact_mod_cast Int.lt_add_one_iff.mp hhigh
  rw [hround]
  constructor
  · positivity
  · rw [div_le_iff₀ (by norm_num)]
    exact hhigh'

/-- Dragging the waveform takes the pointer from the first line to the last one and
no further, and never seeks past the last point's second. -/
theorem pointer_sweeps_lines (h : setPoints fuel points = some rows) (hne : points ≠ [])
    {l : Layout} (hfooter : 0 ≤ footerHeight l rows) :
    (∀ y, (∃ o, 0 ≤ o ∧ o ≤ maxContentOffset l rows ∧ pointerY l.screen o = y) ↔
      ∃ first last, lineOf l.screen rows 0 = some first ∧
        lineOf l.screen rows (points.length - 1) = some last ∧ first ≤ y ∧ y ≤ last) ∧
    ∀ o, 0 ≤ o → o ≤ maxContentOffset l rows →
      0 ≤ (didEndDraggingY o).seconds ∧ (didEndDraggingY o).seconds ≤ points.length - 1 := by
  have hrows := isRows_of_setPoints h
  have hpos : 0 < points.length := List.length_pos_of_ne_nil hne
  have hmax := maxContentOffset_eq hrows hne hfooter
  constructor
  · intro y
    rw [lineOf_eq hrows.isChunking l.screen hpos,
      lineOf_eq hrows.isChunking l.screen (k := points.length - 1) (by omega), hmax]
    simp only [pointerY_eq, Option.some.injEq]
    constructor
    case mp =>
      rintro ⟨o, ho, hle, rfl⟩
      refine ⟨_, _, rfl, rfl, ?_, ?_⟩
      · norm_num
        exact ho
      · split at hle <;> rename_i hrow
        · rw [if_pos hrow]
          linarith
        · rw [if_neg hrow]
          linarith
    case mpr =>
      rintro ⟨first, last, rfl, rfl, hfirst, hlast⟩
      refine ⟨y - (kLeftSpacing l.screen + 42), ?_, ?_, by ring⟩
      · norm_num at hfirst
        linarith
      · split at hlast <;> rename_i hrow
        · rw [if_pos hrow]
          linarith
        · rw [if_neg hrow]
          linarith
  · intro o ho hle
    have hcast : ((points.length : ℚ) - 1) = ((points.length - 1 : ℕ) : ℚ) := by
      rw [Nat.cast_sub hpos, Nat.cast_one]
    rw [hcast]
    apply seconds_didEndDraggingY_le ho
    rw [hmax] at hle
    split at hle <;> linarith

/-- Twenty-one points on a slider as wide as the screen. -/
theorem pointer_sweeps_lines_twenty_one :
    ∃ o, 0 ≤ o ∧ o ≤ maxContentOffset ⟨375, 375⟩ [List.replicate 20 (), [()]] ∧
      pointerY 375 o = kLeftSpacing 375 + 121 := by
  have hfooter : 0 ≤ footerHeight ⟨375, 375⟩ [List.replicate 20 (), [()]] := by
    norm_num [footerHeight, Layout.rightSpace, lastBlankHeight, afterLines, cellTop, kLeftSpacing,
      cellHeight, kAudioPlayerLineSpacing]
  have hsweeps := pointer_sweeps_lines setPoints_twenty_one (by decide) hfooter
  have hchunks := (isRows_of_setPoints setPoints_twenty_one).isChunking
  refine (hsweeps.1 _).mpr ⟨_, _, lineOf_eq hchunks 375 (by decide),
    lineOf_eq hchunks 375 (by decide), ?_, ?_⟩ <;> norm_num

end Tootti.Waveform
