import Tootti.Machine.Loop
import Mathlib.Data.List.Basic

/-!
The rows of the waveform: `MOAudioSliderView.setPoints:`.

The points, one for each second, are cut into the rows of a table: twenty for
the first row, which leaves ten seconds blank on its left, and thirty for each
row after it. The first round of the loop adds nothing if there are fewer than
twenty points; the second round then takes them all.
-/

namespace Tootti.Waveform

open Machine

variable {α : Type*}

structure SetPoints (α : Type*) where
  index : Nat
  tempArray : List α
  pointArrays : List (List α)

namespace SetPoints

def start (points : List α) : SetPoints α := ⟨0, points, []⟩

/-- `subarrayWithRange:` from 0 and `removeObjectsInRange:` of the same range. -/
def move (n : Nat) (s : SetPoints α) : SetPoints α :=
  { s with
    pointArrays := s.pointArrays ++ [s.tempArray.take n]
    tempArray := s.tempArray.drop n }

def body (s : SetPoints α) : SetPoints α :=
  let s' :=
    if s.index = 0 then
      if 20 ≤ s.tempArray.length then s.move 20 else s
    else if 30 ≤ s.tempArray.length then s.move 30
    else { s with pointArrays := s.pointArrays ++ [s.tempArray], tempArray := [] }
  { s' with index := s'.index + 1 }

def guard (s : SetPoints α) : Bool := decide (0 < s.tempArray.length)

end SetPoints

/-- `setPoints:`, with fuel for its loop. -/
def setPoints (fuel : Nat) (points : List α) : Option (List (List α)) :=
  (loop SetPoints.guard SetPoints.body fuel (SetPoints.start points)).map (·.pointArrays)

/-! ### The rows in closed form -/

/-- The first point of a row. -/
def rowStart : Nat → Nat
  | 0 => 0
  | r + 1 => 20 + 30 * r

def rowSize : Nat → Nat
  | 0 => 20
  | _ + 1 => 30

def chunk (points : List α) (r : Nat) : List α := (points.drop (rowStart r)).take (rowSize r)

def rowOf (k : Nat) : Nat := if k < 20 then 0 else 1 + (k - 20) / 30

def offsetOf (k : Nat) : Nat := if k < 20 then k else (k - 20) % 30

theorem rowStart_succ (r : Nat) : rowStart (r + 1) = rowStart r + rowSize r := by
  cases r with
  | zero => rfl
  | succ r => simp only [rowStart, rowSize]; omega

theorem rowSize_bounds (r : Nat) : 0 < rowSize r ∧ rowSize r ≤ 30 := by
  cases r <;> simp [rowSize]

theorem rowStart_mono {r r' : Nat} (h : r ≤ r') : rowStart r ≤ rowStart r' := by
  cases r <;> cases r' <;> simp only [rowStart] <;> omega

theorem rowStart_rowOf (k : Nat) : rowStart (rowOf k) + offsetOf k = k := by
  unfold rowOf offsetOf
  split
  · simp [rowStart]
  · rw [Nat.add_comm 1, rowStart]
    omega

theorem offsetOf_lt (k : Nat) : offsetOf k < rowSize (rowOf k) := by
  unfold rowOf offsetOf
  split
  · simpa [rowSize]
  · rw [Nat.add_comm 1, rowSize]
    omega

theorem length_chunk (points : List α) (r : Nat) :
    (chunk points r).length = min (rowSize r) (points.length - rowStart r) := by
  simp [chunk]

theorem flatten_chunks (points : List α) (m : Nat) :
    ((List.range m).map (chunk points)).flatten = points.take (rowStart m) := by
  induction m with
  | zero => simp [rowStart]
  | succ m ih =>
      rw [List.range_succ, List.map_append, List.flatten_append, ih, rowStart_succ,
        List.take_add]
      simp [chunk]

/-- The rows that have a point, in order. -/
structure IsRows (points : List α) (rows : List (List α)) : Prop where
  rows_eq : rows = (List.range rows.length).map (chunk points)
  started : ∀ r < rows.length, rowStart r < points.length
  complete : points.length ≤ rowStart rows.length

/-! ### The loop -/

/-- After any number of rounds: the rows cut so far, and the points from the
next row on. No row is cut after the first round if there are too few points. -/
structure Cut (points : List α) (s : SetPoints α) : Prop where
  rows_eq : s.pointArrays = (List.range s.pointArrays.length).map (chunk points)
  rest_eq : s.tempArray = points.drop (rowStart s.pointArrays.length)
  started : ∀ r < s.pointArrays.length, rowStart r < points.length
  none_yet : s.index = 0 → s.pointArrays = []
  some_or_few : s.index ≠ 0 → s.pointArrays ≠ [] ∨ points.length < 20

theorem Cut.start (points : List α) : Cut points (SetPoints.start points) where
  rows_eq := rfl
  rest_eq := rfl
  started r hr := absurd hr (Nat.not_lt_zero r)
  none_yet _ := rfl
  some_or_few h := absurd rfl h

/-- One more row. -/
theorem Cut.concat {points : List α} {s t : SetPoints α} (h : Cut points s)
    (hguard : SetPoints.guard s = true)
    (hrows : t.pointArrays = s.pointArrays ++ [s.tempArray.take (rowSize s.pointArrays.length)])
    (hrest : t.tempArray = s.tempArray.drop (rowSize s.pointArrays.length))
    (hindex : t.index ≠ 0) : Cut points t := by
  have hlength : t.pointArrays.length = s.pointArrays.length + 1 := by simp [hrows]
  have hpos : rowStart s.pointArrays.length < points.length := by
    simp only [SetPoints.guard, h.rest_eq, List.length_drop, decide_eq_true_eq] at hguard
    omega
  constructor
  case rows_eq =>
    rw [hlength, List.range_succ, List.map_append, ← h.rows_eq, hrows, h.rest_eq]
    rfl
  case rest_eq => rw [hlength, rowStart_succ, hrest, h.rest_eq, List.drop_drop]
  case started =>
    intro r hr
    have hr' : r ≤ s.pointArrays.length := by omega
    exact Nat.lt_of_le_of_lt (rowStart_mono hr') hpos
  case none_yet => exact fun h0 => absurd h0 hindex
  case some_or_few => simp [hrows]

theorem Cut.body {points : List α} {s : SetPoints α} (h : Cut points s)
    (hguard : SetPoints.guard s = true) : Cut points s.body := by
  by_cases hindex : s.index = 0
  · have hnone := h.none_yet hindex
    by_cases hmany : 20 ≤ s.tempArray.length
    · refine h.concat hguard ?_ ?_ ?_ <;>
        simp [SetPoints.body, SetPoints.move, hindex, hmany, hnone, rowSize]
    · have hfew : points.length < 20 := by
        have hall : s.tempArray = points := by simpa [hnone, rowStart] using h.rest_eq
        rw [← hall]
        omega
      have hrows : s.body.pointArrays = s.pointArrays := by
        simp [SetPoints.body, hindex, hmany]
      have hrest : s.body.tempArray = s.tempArray := by
        simp [SetPoints.body, hindex, hmany]
      constructor
      case rows_eq => rw [hrows]; exact h.rows_eq
      case rest_eq => rw [hrows, hrest]; exact h.rest_eq
      case started => rw [hrows]; exact h.started
      case none_yet => simp [SetPoints.body]
      case some_or_few => exact fun _ => .inr hfew
  · by_cases hmany : 30 ≤ s.tempArray.length
    · have hsize : rowSize s.pointArrays.length = 30 := by
        rcases h.some_or_few hindex with hsome | hfew
        · obtain ⟨m, hm⟩ := Nat.exists_eq_succ_of_ne_zero (mt List.length_eq_zero_iff.mp hsome)
          rw [hm, rowSize]
        · rw [h.rest_eq, List.length_drop] at hmany
          omega
      refine h.concat hguard ?_ ?_ ?_ <;>
        simp [SetPoints.body, SetPoints.move, hindex, hmany, hsize]
    · have hsize : s.tempArray.length ≤ rowSize s.pointArrays.length := by
        rcases h.some_or_few hindex with hsome | hfew
        · obtain ⟨m, hm⟩ := Nat.exists_eq_succ_of_ne_zero (mt List.length_eq_zero_iff.mp hsome)
          rw [hm, rowSize]
          omega
        · cases hm : s.pointArrays.length with
          | zero => rw [h.rest_eq, List.length_drop, rowSize]; omega
          | succ m => rw [rowSize]; omega
      refine h.concat hguard ?_ ?_ ?_ <;>
        simp [SetPoints.body, hindex, hmany, List.take_of_length_le hsize,
          List.drop_eq_nil_of_le hsize]

/-- The first round may leave the points as they are, but then it is over. -/
def SetPoints.measure (s : SetPoints α) : Nat :=
  2 * s.tempArray.length + if s.index = 0 then 1 else 0

theorem SetPoints.measure_body_lt {s : SetPoints α} (hguard : s.guard = true) :
    s.body.measure < s.measure := by
  simp only [SetPoints.guard, decide_eq_true_eq] at hguard
  by_cases hindex : s.index = 0
  · by_cases hmany : 20 ≤ s.tempArray.length
    · simp only [measure, body, move, hindex, hmany, if_true, List.length_drop, Nat.add_eq_zero_iff,
        Nat.one_ne_zero, and_false, if_false]
      omega
    · simp [measure, body, hindex, hmany]
  · by_cases hmany : 30 ≤ s.tempArray.length
    · simp only [measure, body, move, hindex, hmany, if_true, if_false, List.length_drop,
        Nat.add_eq_zero_iff, Nat.one_ne_zero, and_false]
      omega
    · simpa [measure, body, hindex, hmany] using hguard

theorem exists_isRows (points : List α) :
    ∃ t, Ends SetPoints.guard SetPoints.body (SetPoints.start points) t ∧
      IsRows points t.pointArrays := by
  have hbody (s : SetPoints α) (hs : Cut points s) (hguard : s.guard = true) :
      Cut points s.body ∧ s.body.measure < s.measure :=
    ⟨hs.body hguard, SetPoints.measure_body_lt hguard⟩
  obtain ⟨t, hends, ht, hstop⟩ := ends_of_invariant SetPoints.measure hbody (Cut.start points)
  refine ⟨t, hends, ht.rows_eq, ht.started, ?_⟩
  simp only [SetPoints.guard, ht.rest_eq, List.length_drop, decide_eq_false_iff_not] at hstop
  omega

theorem isRows_of_setPoints {fuel : Nat} {points : List α} {rows : List (List α)}
    (h : setPoints fuel points = some rows) : IsRows points rows := by
  obtain ⟨t, ht, rfl⟩ := Option.map_eq_some_iff.mp h
  obtain ⟨t', hends, hrows⟩ := exists_isRows points
  rwa [Ends.unique ⟨fuel, ht⟩ hends]

/-! ### What the rows are -/

namespace IsRows

variable {points : List α} {rows : List (List α)}

theorem getElem?_eq (h : IsRows points rows) {r : Nat} {row : List α}
    (hrow : rows[r]? = some row) : r < rows.length ∧ row = chunk points r := by
  obtain ⟨hr, -⟩ := List.getElem?_eq_some_iff.mp hrow
  rw [h.rows_eq, List.getElem?_map, List.getElem?_range hr] at hrow
  exact ⟨hr, (Option.some.inj hrow).symm⟩

theorem getElem?_of_lt (h : IsRows points rows) {r : Nat} (hr : r < rows.length) :
    rows[r]? = some (chunk points r) := by
  rw [h.rows_eq, List.getElem?_map, List.getElem?_range hr]
  rfl

theorem length_of_getElem? (h : IsRows points rows) {r : Nat} {row : List α}
    (hrow : rows[r]? = some row) : 0 < row.length ∧ row.length ≤ rowSize r := by
  obtain ⟨hr, rfl⟩ := h.getElem?_eq hrow
  have hstarted := h.started r hr
  have hsize := rowSize_bounds r
  rw [length_chunk]
  omega

theorem flatten_eq (h : IsRows points rows) : rows.flatten = points := by
  rw [h.rows_eq, flatten_chunks, List.take_of_length_le h.complete]

theorem length_of_next (h : IsRows points rows) {r : Nat} {row : List α}
    (hrow : rows[r]? = some row) (hnext : r + 1 < rows.length) : row.length = rowSize r := by
  obtain ⟨-, rfl⟩ := h.getElem?_eq hrow
  have hstarted := h.started (r + 1) hnext
  rw [rowStart_succ] at hstarted
  rw [length_chunk]
  omega

theorem rowOf_lt (h : IsRows points rows) {k : Nat} (hk : k < points.length) :
    rowOf k < rows.length := by
  by_contra hlarge
  have hmono : rowStart rows.length ≤ rowStart (rowOf k) := rowStart_mono (by omega)
  have hcomplete := h.complete
  have hplace := rowStart_rowOf k
  omega

theorem length_flatten_take (h : IsRows points rows) {r : Nat} (hr : r < rows.length) :
    (rows.take r).flatten.length = rowStart r := by
  have hstarted := h.started r hr
  rw [h.rows_eq, ← List.map_take, List.take_range, Nat.min_eq_left (by simpa using Nat.le_of_lt hr),
    flatten_chunks, List.length_take]
  omega

end IsRows

/-- The points cut into rows: nothing is lost, the rows have the right sizes,
and a point is found by its index. -/
structure IsChunking (points : List α) (rows : List (List α)) : Prop where
  flatten_eq : rows.flatten = points
  ne_nil : ∀ row ∈ rows, row ≠ []
  first : ∀ row, rows.head? = some row → row.length = min 20 points.length
  middle : ∀ r row, rows[r]? = some row → 0 < r → r + 1 < rows.length → row.length = 30
  last : ∀ row, rows.getLast? = some row → 2 ≤ rows.length → 1 ≤ row.length ∧ row.length ≤ 30
  place : ∀ k < points.length, ∃ row, rows[rowOf k]? = some row ∧
    row[offsetOf k]? = points[k]? ∧ (rows.take (rowOf k)).flatten.length + offsetOf k = k

theorem IsRows.isChunking {points : List α} {rows : List (List α)} (h : IsRows points rows) :
    IsChunking points rows where
  flatten_eq := h.flatten_eq
  ne_nil row hrow := by
    obtain ⟨r, hr⟩ := List.mem_iff_getElem?.mp hrow
    exact List.ne_nil_of_length_pos (h.length_of_getElem? hr).1
  first row hrow := by
    rw [List.head?_eq_getElem?] at hrow
    obtain ⟨-, rfl⟩ := h.getElem?_eq hrow
    exact length_chunk points 0
  middle r row hrow hpos hnext := by
    obtain ⟨r, rfl⟩ := Nat.exists_eq_succ_of_ne_zero (Nat.ne_of_gt hpos)
    exact h.length_of_next hrow hnext
  last row hrow _ := by
    rw [List.getLast?_eq_getElem?] at hrow
    have hsize := rowSize_bounds (rows.length - 1)
    have hlength := h.length_of_getElem? hrow
    omega
  place k hk := by
    have hr := h.rowOf_lt hk
    refine ⟨chunk points (rowOf k), h.getElem?_of_lt hr, ?_, ?_⟩
    · rw [chunk, List.getElem?_take_of_lt (offsetOf_lt k), List.getElem?_drop, rowStart_rowOf]
    · rw [h.length_flatten_take hr, rowStart_rowOf]

/-- `setPoints:` ends, with rows that hold the points in order. -/
theorem setPoints_isChunking (points : List α) :
    ∃ rows, (∃ fuel, setPoints fuel points = some rows) ∧ IsChunking points rows := by
  obtain ⟨t, ⟨fuel, hfuel⟩, hrows⟩ := exists_isRows points
  exact ⟨t.pointArrays, ⟨fuel, by simp [setPoints, hfuel]⟩, hrows.isChunking⟩

end Tootti.Waveform
