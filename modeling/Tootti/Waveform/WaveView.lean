import Mathlib.Data.List.DropRight
import Tootti.Machine.Run
import Tootti.Waveform.Samples

/-!
The live waveform of the recording screen.

The view holds as many average and peak points as it is points wide, first of
all zeros; each sample drops the oldest of both and adds the newest. The
numbers of a `CGFloat` are of any type here, with any operations: what matters
is where the arrays are read.
-/

namespace Tootti.Waveform

open Machine

structure WaveView (F : Type*) where
  averagePointArray : List F
  peakPointArray : List F

structure CGPoint (F : Type*) where
  x : F
  y : F

namespace WaveView

variable {F : Type*}

/-! ### `initWithFrame:` -/

/-- The loop's index, an `int`, and the arrays so far. -/
structure Filling (F : Type*) where
  i : ℤ
  view : WaveView F

def addZeros [Zero F] (s : Filling F) : Filling F where
  i := toInt32 (s.i + 1)
  view := ⟨s.view.averagePointArray ++ [0], s.view.peakPointArray ++ [0]⟩

/-- For a frame of the given width. After the largest `int` the index goes on
with the smallest, as the processor has it; C leaves it undefined. -/
def initWithFrame [Zero F] (fuel : ℕ) (width : ℚ) : Option (WaveView F) :=
  (loop (fun s : Filling F => (s.i : ℚ) < width) addZeros fuel ⟨0, ⟨[], []⟩⟩).map Filling.view

/-! ### `addAveragePoint:andPeakPoint:` and the drawing -/

/-- `numberWithFloat:` rounds to a `float`; `none` is the exception of
`removeObjectAtIndex:` for an index that is out of range. -/
def addAveragePoint (float : F → F) (averagePoint peakPoint : F) (v : WaveView F) :
    Option (WaveView F) :=
  match v.averagePointArray, v.peakPointArray with
  | _ :: averagePointArray, _ :: peakPointArray =>
    some ⟨averagePointArray ++ [float averagePoint], peakPointArray ++ [float peakPoint]⟩
  | _, _ => none

/-- The values of `i` in `for (int i = 1; i < [peakPointArray count]; i++)`. An
`int` that has become negative is, as an `NSUInteger`, above every count. -/
def indices (count : ℕ) : List ℕ := List.range' 1 (min count (2 ^ 31) - 1)

/-- The path of both drawing methods, from their first point and their point at
index `i`; `none` is the exception of `objectAtIndex:`. -/
def drawPath (first : F → CGPoint F) (point : ℕ → F → CGPoint F) (v : WaveView F) :
    Option (List (CGPoint F)) := do
  let start ← v.averagePointArray[0]?
  let points ← (indices v.peakPointArray.length).mapM fun i =>
    v.averagePointArray[i]?.map (point i)
  some (first start :: points)

section Draw

variable [Zero F] [Sub F] [Mul F] [NatCast F]

def drawInContext (height : F) : WaveView F → Option (List (CGPoint F)) :=
  drawPath (fun start => ⟨0 - height, start⟩) fun i average => ⟨i, height - average * height⟩

def drawInContext2 (height : F) : WaveView F → Option (List (CGPoint F)) :=
  drawPath (fun start => ⟨0, start⟩) fun i average => ⟨i, average * height⟩

end Draw

/-- One call for each pair of points. -/
def step (float : F → F) (v : WaveView F) (call : F × F) : Option (WaveView F) :=
  v.addAveragePoint float call.1 call.2

/-- The last `n` elements of `n` zeros followed by the points. -/
def window [Zero F] (n : ℕ) (points : List F) : List F := (List.replicate n 0 ++ points).rtake n

/-- The view holds the windows of the calls' points, and can be drawn. -/
structure Shows [Zero F] [Sub F] [Mul F] [NatCast F] (float : F → F) (n : ℕ) (calls : List (F × F))
    (v : WaveView F) : Prop where
  length_average : v.averagePointArray.length = n
  length_peak : v.peakPointArray.length = n
  average_eq : v.averagePointArray = window n (calls.map fun call => float call.1)
  peak_eq : v.peakPointArray = window n (calls.map fun call => float call.2)
  drawn : ∀ height, (v.drawInContext height).isSome
  drawn2 : ∀ height, (v.drawInContext2 height).isSome

/-! ### The first view -/

section Init

variable [Zero F]

theorem iterate_addZeros {n : ℕ} (hn : n < 2 ^ 31) :
    addZeros^[n] (⟨0, ⟨[], []⟩⟩ : Filling F) = ⟨n, ⟨List.replicate n 0, List.replicate n 0⟩⟩ := by
  induction n with
  | zero => rfl
  | succ n ih =>
      have hindex : toInt32 ((n : ℤ) + 1) = ((n + 1 : ℕ) : ℤ) := by
        rw [toInt32_eq_self (by omega) (by omega), Nat.cast_succ]
      rw [Function.iterate_succ_apply', ih (by omega), addZeros, hindex, ← List.replicate_succ']

/-- The index never gets past the largest `int`. -/
theorem i_iterate_addZeros_le (n : ℕ) :
    (addZeros^[n] (⟨0, ⟨[], []⟩⟩ : Filling F)).i ≤ 2 ^ 31 - 1 := by
  cases n with
  | zero =>
      show (0 : ℤ) ≤ 2 ^ 31 - 1
      norm_num
  | succ n =>
      rw [Function.iterate_succ_apply']
      have hlt := (toInt32_spec ((addZeros^[n] (⟨0, ⟨[], []⟩⟩ : Filling F)).i + 1)).2.1
      exact Int.le_sub_one_of_lt hlt

theorem initWithFrame_of_le {width : ℚ} (hmax : width ≤ 2 ^ 31 - 1) :
    ∃ fuel, initWithFrame fuel width =
      some (⟨List.replicate ⌈width⌉₊ 0, List.replicate ⌈width⌉₊ 0⟩ : WaveView F) := by
  have hceil : ⌈width⌉₊ < 2 ^ 31 := by
    have hle : ⌈width⌉₊ ≤ 2 ^ 31 - 1 := Nat.ceil_le.mpr (by exact_mod_cast hmax)
    omega
  have hi (n : ℕ) (hn : n ≤ ⌈width⌉₊) :
      ((addZeros^[n] (⟨0, ⟨[], []⟩⟩ : Filling F)).i : ℚ) = n := by
    rw [iterate_addZeros (by omega), Int.cast_natCast]
  refine exists_map_loop_iff.mpr
    ⟨_, ends_iff_iterate.mpr ⟨⌈width⌉₊, rfl, ?_, fun m hm => ?_⟩, ?_⟩
  · rw [decide_eq_false_iff_not, not_lt, hi _ le_rfl]
    exact Nat.le_ceil width
  · rw [decide_eq_true_eq, hi m hm.le]
    exact Nat.lt_ceil.mp hm
  · rw [iterate_addZeros hceil]

/-- With a wider frame than that the loop never ends. -/
theorem initWithFrame_of_gt {width : ℚ} (hwide : 2 ^ 31 - 1 < width) :
    ¬ ∃ fuel, (initWithFrame fuel width : Option (WaveView F)).isSome := by
  rintro ⟨fuel, hsome⟩
  obtain ⟨v, hv⟩ := Option.isSome_iff_exists.mp hsome
  obtain ⟨t, hends, -⟩ := exists_map_loop_iff.mp ⟨fuel, hv⟩
  obtain ⟨n, rfl, hfalse, -⟩ := ends_iff_iterate.mp hends
  rw [decide_eq_false_iff_not, not_lt] at hfalse
  have hi : ((addZeros^[n] (⟨0, ⟨[], []⟩⟩ : Filling F)).i : ℚ) ≤ 2 ^ 31 - 1 := by
    exact_mod_cast i_iterate_addZeros_le n
  exact absurd (hfalse.trans hi) (not_le.mpr hwide)

end Init

/-! ### Every view after it -/

theorem tail_rtake_concat {l : List F} {n : ℕ} (hn : 0 < n) (hlength : n ≤ l.length) (x : F) :
    (l.rtake n).tail ++ [x] = (l ++ [x]).rtake n := by
  obtain ⟨n, rfl⟩ := Nat.exists_eq_succ_of_ne_zero hn.ne'
  have hplace : l.length - (n + 1) + 1 = l.length - n := by omega
  rw [List.rtake_concat_succ, List.rtake, List.tail_drop, hplace, List.rtake]

section Window

variable [Zero F] {n : ℕ} {points : List F}

theorem length_window (n : ℕ) (points : List F) : (window n points).length = n := by
  simp [window, List.rtake]

theorem window_nil (n : ℕ) : window n ([] : List F) = List.replicate n 0 := by
  simp [window, List.rtake]

theorem tail_window_concat (hn : 0 < n) (x : F) :
    (window n points).tail ++ [x] = window n (points ++ [x]) := by
  rw [window, window, ← List.append_assoc]
  exact tail_rtake_concat hn (by simp) x

end Window

/-- With points in both arrays each loses its first one. -/
theorem addAveragePoint_of_pos {float : F → F} {v : WaveView F} {averagePoint peakPoint : F}
    (haverage : 0 < v.averagePointArray.length) (hpeak : 0 < v.peakPointArray.length) :
    v.addAveragePoint float averagePoint peakPoint =
      some ⟨v.averagePointArray.tail ++ [float averagePoint],
        v.peakPointArray.tail ++ [float peakPoint]⟩ := by
  obtain ⟨_ | ⟨_, _⟩, _ | ⟨_, _⟩⟩ := v
  · simp at haverage
  · simp at haverage
  · simp at hpeak
  · rfl

/-- The path reads within the one array up to the length of the other. -/
theorem isSome_drawPath {first : F → CGPoint F} {point : ℕ → F → CGPoint F} {v : WaveView F}
    (hpos : 0 < v.averagePointArray.length)
    (hle : v.peakPointArray.length ≤ v.averagePointArray.length) :
    (v.drawPath first point).isSome := by
  have hread (i : ℕ) (hi : i < v.averagePointArray.length) : v.averagePointArray[i]?.isSome := by
    rw [List.getElem?_eq_getElem hi]
    rfl
  have hpoints : ((indices v.peakPointArray.length).mapM fun i =>
      v.averagePointArray[i]?.map (point i)).isSome := by
    refine isSome_mapM fun i hi => ?_
    have hbounds := List.mem_range'_1.mp hi
    rw [Option.isSome_map]
    exact hread i (by omega)
  obtain ⟨start, hstart⟩ := Option.isSome_iff_exists.mp (hread 0 hpos)
  obtain ⟨points, hpoints⟩ := Option.isSome_iff_exists.mp hpoints
  rw [drawPath, hstart, hpoints]
  rfl

section Runs

variable [Zero F] [Sub F] [Mul F] [NatCast F] {float : F → F} {n : ℕ}

theorem shows_of_windows {calls : List (F × F)} {v : WaveView F} (hn : 0 < n)
    (haverage : v.averagePointArray = window n (calls.map fun call => float call.1))
    (hpeak : v.peakPointArray = window n (calls.map fun call => float call.2)) :
    Shows float n calls v := by
  have hlength : v.averagePointArray.length = n := by rw [haverage, length_window]
  have hlength' : v.peakPointArray.length = n := by rw [hpeak, length_window]
  have hpos : 0 < v.averagePointArray.length := by omega
  have hle : v.peakPointArray.length ≤ v.averagePointArray.length := by omega
  exact ⟨hlength, hlength', haverage, hpeak, fun _ => isSome_drawPath hpos hle,
    fun _ => isSome_drawPath hpos hle⟩

/-- A call moves the windows on. -/
theorem Shows.step {calls : List (F × F)} {v : WaveView F} (hn : 0 < n)
    (h : Shows float n calls v) (call : F × F) :
    ∃ v', WaveView.step float v call = some v' ∧ Shows float n (calls ++ [call]) v' := by
  refine ⟨_, addAveragePoint_of_pos ?_ ?_, shows_of_windows hn ?_ ?_⟩
  · rwa [h.length_average]
  · rwa [h.length_peak]
  · rw [List.map_append, List.map_singleton, h.average_eq, tail_window_concat hn]
  · rw [List.map_append, List.map_singleton, h.peak_eq, tail_window_concat hn]

/-- For every width that an `int` can count to, and every sequence of calls. -/
theorem sliding_window (float : F → F) {width : ℚ} (hpos : 0 < width) (hmax : width ≤ 2 ^ 31 - 1)
    (calls : List (F × F)) :
    ∃ v t, (∃ fuel, initWithFrame fuel width = some v) ∧ run (step float) v calls = some t ∧
      Shows float ⌈width⌉₊ calls t := by
  have hn : 0 < ⌈width⌉₊ := Nat.ceil_pos.mpr hpos
  obtain ⟨fuel, hinit⟩ := initWithFrame_of_le (F := F) hmax
  have hfirst : Shows float ⌈width⌉₊ [] (⟨List.replicate ⌈width⌉₊ 0, List.replicate ⌈width⌉₊ 0⟩) :=
    shows_of_windows hn (window_nil _).symm (window_nil _).symm
  obtain ⟨t, hrun, ht⟩ := exists_run_history (I := Shows float ⌈width⌉₊)
    (fun _ _ call h => h.step hn call) [] calls hfirst
  exact ⟨_, t, ⟨fuel, hinit⟩, hrun, ht⟩

end Runs

/-- A frame two and a half points wide, and four calls. -/
theorem sliding_window_narrow :
    ∃ v t, (∃ fuel, initWithFrame fuel (5 / 2) = some v) ∧
      run (step (nearest 24)) v [(1, 1), (2, 3), (1 / 2, 1), (1 / 4, 1)] = some t ∧
      Shows (nearest 24) ⌈(5 / 2 : ℚ)⌉₊ [(1, 1), (2, 3), (1 / 2, 1), (1 / 4, 1)] t :=
  sliding_window (nearest 24) (by norm_num) (by norm_num) _

/-- A frame wider than the largest `int`. -/
theorem initWithFrame_too_wide :
    (0 : ℚ) < 2 ^ 31 ∧ ¬ ∃ fuel, (initWithFrame fuel (2 ^ 31) : Option (WaveView ℚ)).isSome :=
  ⟨by norm_num, initWithFrame_of_gt (by norm_num)⟩

end WaveView

end Tootti.Waveform
