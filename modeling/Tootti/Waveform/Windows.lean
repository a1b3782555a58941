import Tootti.Waveform.Samples

/-!
The windows of a recording of a whole number of seconds.

The window of each second has as many samples as the seconds divide into the
count, and the one that would reach the end of the array is a sample short. So
no window has the last sample, whatever the division leaves over.
-/

namespace Tootti.Waveform

open Machine

/-- The samples of a range, by their indices. -/
def NSRange.positions (r : NSRange) : List ℕ := List.range' r.location r.length

/-- One window for each second, the windows one after the other, and each sample
in one of them. -/
def Partitions (count : ℕ) (song : Duration) (secs : ℕ) : Prop :=
  ∃ ranges, windowRanges count song.seconds = .ok ranges ∧ ranges.length = secs ∧
    ranges.flatMap NSRange.positions = List.range count

/-! ### The last sample -/

/-- A range inside the array does not have its last sample. -/
theorem end_lt_of_inside {count secs i : ℕ} (hlarge : count < 2 ^ 62) (hpos : 0 < count)
    (hi : i ≤ secs) (hfirst : (theRange count ((toInt32 count).tdiv secs) 0).Inside count)
    (hinside : (theRange count ((toInt32 count).tdiv secs) i).Inside count) :
    (theRange count ((toInt32 count).tdiv secs) i).location +
      (theRange count ((toInt32 count).tdiv secs) i).length < count := by
  rcases lt_or_ge (toInt32 count) 0 with hneg | hcount
  · rw [tdiv_eq_zero_of_neg hlarge hneg hfirst, theRange_zero hpos]
    exact hpos
  · have hstart := (inside_iff hlarge hcount hi).mp hinside
    have hend := end_le_twice count hi
    have hspec := toInt32_spec count
    rw [theRange_eq hlarge hcount hi hstart]
    clear hfirst hinside
    simp only
    split_ifs with hlast
    · have hsmall : count < 2 ^ 31 := by omega
      have hself : (toInt32 count).toNat = count := by
        rw [toInt32_eq_self (by omega) (by omega), Int.toNat_natCast]
      have hroom := hstart hsmall
      rw [hself]
      omega
    · omega

theorem end_lt_of_windowRanges {count : ℕ} {song : Duration} {ranges : List NSRange}
    (hlarge : count < 2 ^ 62) (hpos : 0 < count)
    (h : windowRanges count song.seconds = .ok ranges) {r : NSRange} (hr : r ∈ ranges) :
    r.location + r.length < count := by
  obtain ⟨hone, hlt⟩ := bounds_of_windowRanges h
  rw [windowRanges_eq song count hone hlt, ite_error_eq_ok] at h
  obtain ⟨hinside, rfl⟩ := h
  obtain ⟨i, hi, rfl⟩ := List.mem_map.mp hr
  exact end_lt_of_inside hlarge hpos (Nat.le_floor (song.lt_of_mem_indices hi).le)
    (hinside 0 song.zero_mem_indices) (hinside i hi)

/-- No whole duration cuts the samples of a recording into its windows: the last
sample is in none of them. -/
theorem not_partitions (data : NSData) (song : Duration) {secs : ℕ} (_ : song.seconds = secs)
    (hone : 1 ≤ secs) (hle : secs ≤ (decode data.bytes).length) :
    ¬ Partitions (decode data.bytes).length song secs := by
  rintro ⟨ranges, hranges, -, hcover⟩
  have hlarge : (decode data.bytes).length < 2 ^ 62 := by
    have hbytes := data.length_lt
    rw [length_decode]
    omega
  have hlast : (decode data.bytes).length - 1 ∈ ranges.flatMap NSRange.positions := by
    rw [hcover, List.mem_range]
    omega
  obtain ⟨r, hr, hmem⟩ := List.mem_flatMap.mp hlast
  have hend := end_lt_of_windowRanges hlarge (by omega) hranges hr
  obtain ⟨-, hbefore⟩ := List.mem_range'_1.mp hmem
  omega

def Duration.twoSeconds : Duration where
  seconds := 2
  pos := by decide +kernel
  mem := ⟨2, 0, by decide, by decide +kernel⟩

theorem not_partitions_four_samples :
    ¬ Partitions (decode (List.replicate 16 0)).length .twoSeconds 2 :=
  not_partitions ⟨List.replicate 16 0, by decide⟩ .twoSeconds (by decide +kernel) (by decide)
    (by decide)

/-- Of four samples in two seconds the last one is left out. -/
theorem last_sample_left_out :
    windowRanges 4 Duration.twoSeconds.seconds = .ok [⟨0, 2⟩, ⟨2, 1⟩] ∧
      [(⟨0, 2⟩ : NSRange), ⟨2, 1⟩].flatMap NSRange.positions = [0, 1, 2] := by
  decide +kernel

end Tootti.Waveform
