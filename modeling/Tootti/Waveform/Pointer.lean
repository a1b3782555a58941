import Tootti.Machine.Rounding
import Tootti.Waveform.Chunks
import Mathlib.Tactic.NormNum

/-!
The pointer over the waveform.

The rows hang below a header in a table that is turned on its side, and the
pointer stays in the middle of the screen. The player scrolls the table as it
plays, and where the user has dragged the table to decides where the player
goes on. Lengths along the table are taken as exact numbers; the time that the
player's observer passes on is a `float`.
-/

namespace Tootti.Waveform

open Machine

variable {α : Type*}

def cellHeight : ℤ := 120

def kAudioPlayerLineSpacing : ℤ := 4

/-- Half the width of the screen, less ten seconds and the button. -/
def kLeftSpacing (width : ℚ) : ℚ := width / 2 - 60

/-! ### The lines -/

/-- The place of the first line of a cell. -/
def cellTop (index : Nat) : ℚ :=
  if index = 0 then ⌈((cellHeight / 3 : ℤ) : ℚ)⌉ + 2 else 1

/-- The points of a cell with the places of their lines, from the place of the
first one. -/
def drawLines (y : ℚ) : List α → List (α × ℚ)
  | [] => []
  | point :: points => (point, y) :: drawLines (y + kAudioPlayerLineSpacing) points

/-- `MOWaveCell.drawRect:`, measured from the top of the cell. -/
def drawRect (points : List α) (index : Nat) : List (α × ℚ) :=
  drawLines (cellTop index) points

/-- The table with its header, measured from the top of its content. -/
def waveView (width : ℚ) (rows : List (List α)) : List (α × ℚ) :=
  rows.zipIdx.flatMap fun (row, index) =>
    (drawRect row index).map fun (point, y) =>
      (point, kLeftSpacing width + index * cellHeight + y)

/-- Where the line of point `k` is. -/
def lineOf (width : ℚ) (rows : List (List α)) (k : Nat) : Option ℚ :=
  (waveView width rows)[k]?.map Prod.snd

/-! ### The pointer, the player and the drag -/

/-- The middle of the pointer's frame, on the content. -/
def pointerY (width contentOffset : ℚ) : ℚ := contentOffset + (kLeftSpacing width + 34 + 16 / 2)

structure CMTime where
  value : ℤ
  timescale : ℤ
  timescale_pos : 0 < timescale

def CMTime.seconds (t : CMTime) : ℚ := t.value / t.timescale

/-- Seconds in units of the time scale, to the nearest unit. -/
def CMTime.makeWithSeconds (seconds : ℚ) (timescale : ℤ) (h : 0 < timescale) : CMTime :=
  ⟨round (seconds * timescale), timescale, h⟩

/-- The content offset that the player's periodic observer sets. The division is
one of integers, its result and the product are `float`s. -/
def observedOffset (t : CMTime) : ℚ :=
  nearest 24 (nearest 24 (t.value.tdiv t.timescale : ℤ) * kAudioPlayerLineSpacing)

/-- `didEndDraggingY:`: the time it seeks to. -/
def didEndDraggingY (y : ℚ) : CMTime :=
  .makeWithSeconds (y / kAudioPlayerLineSpacing) 1000000000 (by decide)

/-- When second `k` is played, the pointer is over the line of point `k`. -/
def PlayerShows (width : ℚ) (rows : List (List α)) (k : Nat) : Prop :=
  ∀ t : CMTime, t.value = k * t.timescale →
    lineOf width rows k = some (pointerY width (observedOffset t))

/-- When the pointer is dragged over the line of point `k`, second `k` is played. -/
def DragSeeks (width : ℚ) (rows : List (List α)) (k : Nat) : Prop :=
  ∀ contentOffset, lineOf width rows k = some (pointerY width contentOffset) →
    (didEndDraggingY contentOffset).seconds = k

/-! ### Where the lines are -/

theorem getElem?_drawLines (y : ℚ) (points : List α) (j : Nat) :
    (drawLines y points)[j]? = points[j]?.map fun point => (point, y + 4 * j) := by
  induction points generalizing y j with
  | nil => simp [drawLines]
  | cons point points ih =>
      cases j with
      | zero => simp [drawLines]
      | succ j =>
          have hy : y + kAudioPlayerLineSpacing + 4 * (j : ℚ) = y + 4 * ((j + 1 : Nat) : ℚ) := by
            simp only [kAudioPlayerLineSpacing]
            push_cast
            ring
          simp only [drawLines, List.getElem?_cons_succ, ih, hy]

theorem length_drawLines (y : ℚ) (points : List α) :
    (drawLines y points).length = points.length := by
  induction points generalizing y with
  | nil => rfl
  | cons point points ih => simp [drawLines, ih]

/-- The lines of the rows one after the other, found by row and offset. -/
theorem getElem?_flatMap_zipIdx {β : Type*} {f : List α × Nat → List β}
    (hf : ∀ row r, (f (row, r)).length = row.length) {rows : List (List α)} {row : List α}
    {r j : Nat} (n : Nat) (hrow : rows[r]? = some row) (hj : j < row.length) :
    ((rows.zipIdx n).flatMap f)[(rows.take r).flatten.length + j]? = (f (row, n + r))[j]? := by
  induction rows generalizing r n with
  | nil => simp at hrow
  | cons first rows ih =>
      rw [List.zipIdx_cons, List.flatMap_cons]
      cases r with
      | zero =>
          obtain rfl : first = row := by simpa using hrow
          rw [List.getElem?_append_left (by simpa [hf] using hj)]
          simp
      | succ r =>
          have hplace : ((first :: rows).take (r + 1)).flatten.length + j =
              (f (first, n)).length + ((rows.take r).flatten.length + j) := by
            simp [hf, Nat.add_assoc]
          rw [hplace, List.getElem?_append_right (Nat.le_add_right ..), Nat.add_sub_cancel_left,
            ih (n + 1) hrow, Nat.add_right_comm, Nat.add_assoc]

theorem rowOf_mul_cellHeight (k : Nat) :
    rowOf k * (cellHeight : ℚ) + (cellTop (rowOf k) + 4 * offsetOf k) =
      (if k < 20 then 42 else 41) + 4 * k := by
  have hplace := rowStart_rowOf k
  by_cases hk : k < 20
  · have hceil : ⌈((cellHeight / 3 : ℤ) : ℚ)⌉ = 40 := Int.ceil_intCast _
    simp only [rowOf, offsetOf, cellTop, if_pos hk, if_true, hceil]
    push_cast
    ring
  · have hrow : rowOf k = (k - 20) / 30 + 1 := by rw [rowOf, if_neg hk, Nat.add_comm]
    rw [hrow, rowStart] at hplace
    have hplace' : 20 + 30 * (((k - 20) / 30 : ℕ) : ℚ) + (offsetOf k : ℚ) = k := by
      exact_mod_cast hplace
    rw [hrow, cellTop, if_neg (Nat.succ_ne_zero _), if_neg hk, cellHeight]
    push_cast
    linarith

/-- A line lies four points after the one before it, except that the second row
begins three points after the first one's twentieth line. -/
theorem lineOf_eq {points : List α} {rows : List (List α)} (h : IsChunking points rows)
    (width : ℚ) {k : Nat} (hk : k < points.length) :
    lineOf width rows k =
      some (kLeftSpacing width + ((if k < 20 then 42 else 41) + 4 * k)) := by
  obtain ⟨row, hrow, hpoint, hplace⟩ := h.place k hk
  rw [List.getElem?_eq_getElem hk] at hpoint
  have hj : offsetOf k < row.length := (List.getElem?_eq_some_iff.mp hpoint).1
  have hline := getElem?_flatMap_zipIdx (f := fun (row, index) => (drawRect row index).map
    fun (point, y) => (point, kLeftSpacing width + index * cellHeight + y))
    (fun row r => by simp [drawRect, length_drawLines]) 0 hrow hj
  rw [hplace] at hline
  rw [lineOf, waveView, hline]
  simp only [List.getElem?_map, drawRect, getElem?_drawLines, hpoint, Option.map_some,
    Nat.zero_add, Option.some.injEq]
  rw [add_assoc, rowOf_mul_cellHeight]

/-! ### Playing and dragging -/

theorem pointerY_eq (width contentOffset : ℚ) :
    pointerY width contentOffset = kLeftSpacing width + (42 + contentOffset) := by
  unfold pointerY
  ring

/-- The `float`s of the observer are exact for the first forty-eight days. -/
theorem observedOffset_eq {t : CMTime} {k : Nat} (ht : t.value = k * t.timescale)
    (hk : k ≤ 2 ^ 22) : observedOffset t = 4 * k := by
  have hdiv : t.value.tdiv t.timescale = k := by
    rw [ht, Int.mul_tdiv_cancel _ t.timescale_pos.ne']
  have hsmall : |(k : ℤ)| ≤ 2 ^ 24 := by rw [Nat.abs_cast]; omega
  have hsmall' : |(4 * k : ℤ)| ≤ 2 ^ 24 := by rw [abs_of_nonneg (by omega)]; omega
  rw [observedOffset, hdiv, nearest_intCast (by decide) hsmall]
  have hprod : (((k : ℤ) : ℚ) * kAudioPlayerLineSpacing) = ((4 * k : ℤ) : ℚ) := by
    simp only [kAudioPlayerLineSpacing]
    push_cast
    ring
  rw [hprod, nearest_intCast (by decide) hsmall']
  push_cast
  rfl

/-- A multiple of a quarter of a second is not rounded. -/
theorem seconds_didEndDraggingY (n : ℤ) : (didEndDraggingY n).seconds = n / 4 := by
  have hround : round ((n : ℚ) / kAudioPlayerLineSpacing * (1000000000 : ℤ)) = n * 250000000 := by
    have hint : (n : ℚ) / kAudioPlayerLineSpacing * (1000000000 : ℤ) =
        ((n * 250000000 : ℤ) : ℚ) := by
      simp only [kAudioPlayerLineSpacing]
      push_cast
      ring
    rw [hint, round_intCast]
  rw [didEndDraggingY, CMTime.makeWithSeconds, CMTime.seconds, hround]
  push_cast
  ring

/-- The pointer and the player agree on the points of the first row, and on no
other: from the second row on a line lies a quarter of a second early. -/
theorem playerShows_and_dragSeeks_iff {fuel : Nat} {points : List α} {rows : List (List α)}
    (h : setPoints fuel points = some rows) (width : ℚ) {k : Nat} (hk : k < points.length) :
    (PlayerShows width rows k ∧ DragSeeks width rows k) ↔ k < 20 := by
  have hline := lineOf_eq (isRows_of_setPoints h).isChunking width hk
  constructor
  case mp =>
    rintro ⟨-, hseek⟩
    by_contra hlate
    rw [if_neg hlate] at hline
    have hover : lineOf width rows k = some (pointerY width ((4 * k - 1 : ℤ) : ℚ)) := by
      rw [hline, pointerY_eq]
      push_cast
      congr 1
      ring
    have hseconds := hseek _ hover
    rw [seconds_didEndDraggingY] at hseconds
    push_cast at hseconds
    linarith
  case mpr =>
    intro hfirst
    rw [if_pos hfirst] at hline
    constructor
    · intro t ht
      rw [hline, pointerY_eq, observedOffset_eq ht (by omega)]
    · intro contentOffset hover
      rw [hline, pointerY_eq, Option.some.injEq] at hover
      obtain rfl : contentOffset = ((4 * k : ℤ) : ℚ) := by
        push_cast
        linarith
      rw [seconds_didEndDraggingY]
      push_cast
      ring

theorem setPoints_twenty_one :
    setPoints 3 (List.replicate 21 ()) = some [List.replicate 20 (), [()]] := by
  rfl

theorem playerShows_and_dragSeeks_three :
    (PlayerShows 375 [List.replicate 20 (), [()]] 3 ∧
      DragSeeks 375 [List.replicate 20 (), [()]] 3) ↔ 3 < 20 :=
  playerShows_and_dragSeeks_iff setPoints_twenty_one 375 (by decide)

/-- With twenty-one points the last one is at the head of the second row. -/
theorem pointer_past_line_twenty :
    setPoints 3 (List.replicate 21 ()) = some [List.replicate 20 (), [()]] ∧
      ¬ PlayerShows 375 [List.replicate 20 (), [()]] 20 ∧
      ¬ DragSeeks 375 [List.replicate 20 (), [()]] 20 := by
  have hline : lineOf 375 [List.replicate 20 (), [()]] 20 = some (kLeftSpacing 375 + 121) := by
    rw [lineOf_eq (isRows_of_setPoints setPoints_twenty_one).isChunking 375 (by decide)]
    norm_num
  refine ⟨setPoints_twenty_one, fun hshows => ?_, fun hseeks => ?_⟩
  · have hover := hshows ⟨20, 1, by decide⟩ rfl
    rw [observedOffset_eq (k := 20) rfl (by decide), hline, pointerY_eq] at hover
    norm_num at hover
  · have hover : lineOf 375 [List.replicate 20 (), [()]] 20 =
        some (pointerY 375 ((79 : ℤ) : ℚ)) := by
      rw [hline, pointerY_eq]
      norm_num
    have hseconds := hseeks _ hover
    rw [seconds_didEndDraggingY] at hseconds
    norm_num at hseconds

end Tootti.Waveform
