import Mathlib.Tactic.SplitIfs
import Tootti.Machine.Loop

/-!
Reading the samples of a recording.

`readSoundFileSamplesHelper` asks the asset reader for one buffer after the
other and looks at the reader's status before each request. It knows one way to
end, the status `completed`; a request that brings nothing is made again, also
from a reader that has failed or was cancelled and has nothing more to bring.
-/

namespace Tootti.Waveform

open Machine

inductive AVAssetReaderStatus
  | unknown
  | reading
  | completed
  | failed
  | cancelled
  deriving DecidableEq, Repr

/-- A reader by what it answers: the buffers it returns before it returns NULL
for ever, and its status after each number of requests. After the first NULL
the status is the one the reader ended with. -/
structure AVAssetReader where
  buffers : List (List UInt8)
  status : Nat → AVAssetReaderStatus
  last : AVAssetReaderStatus
  ended : last = .completed ∨ last = .failed ∨ last = .cancelled
  settled : ∀ n, buffers.length < n → status n = last

/-- The answer to the request after `n` others. -/
def AVAssetReader.copyNextSampleBuffer (r : AVAssetReader) (n : Nat) : Option (List UInt8) :=
  r.buffers[n]?

structure Reading where
  requests : Nat
  data : List UInt8

section Reader

variable (r : AVAssetReader)

def notCompleted (s : Reading) : Bool := r.status s.requests ≠ .completed

/-- A round of the loop, in which NULL is passed over. -/
def readBuffer (s : Reading) : Reading :=
  match r.copyNextSampleBuffer s.requests with
  | none => { s with requests := s.requests + 1 }
  | some buffer => ⟨s.requests + 1, s.data ++ buffer⟩

def readSoundFileSamplesHelper (fuel : Nat) : Option (List UInt8) :=
  (loop (notCompleted r) (readBuffer r) fuel ⟨0, []⟩).map Reading.data

/-- The loop ends, and with all samples if the reader completed. -/
def ReadsAll : Prop :=
  ∃ data, (∃ fuel, readSoundFileSamplesHelper r fuel = some data) ∧
    (r.last = .completed → data = r.buffers.flatten)

variable {r}

theorem iterate_readBuffer (n : Nat) :
    (readBuffer r)^[n] ⟨0, []⟩ = ⟨n, (r.buffers.take n).flatten⟩ := by
  induction n with
  | zero => rfl
  | succ n ih =>
      rw [Function.iterate_succ_apply', ih, readBuffer, AVAssetReader.copyNextSampleBuffer,
        List.take_add_one, List.flatten_append]
      cases r.buffers[n]? <;> simp

theorem notCompleted_iterate (n : Nat) :
    notCompleted r ((readBuffer r)^[n] ⟨0, []⟩) = decide (r.status n ≠ .completed) := by
  rw [iterate_readBuffer, notCompleted]

/-- The loop ends at the first test that reads `completed`. -/
theorem readSoundFileSamplesHelper_iff {data : List UInt8} :
    (∃ fuel, readSoundFileSamplesHelper r fuel = some data) ↔
      ∃ n, r.status n = .completed ∧ (∀ m < n, r.status m ≠ .completed) ∧
        (r.buffers.take n).flatten = data := by
  refine exists_map_loop_iff.trans ?_
  constructor
  case mp =>
    rintro ⟨t, ht, rfl⟩
    obtain ⟨n, rfl, hfalse, hbefore⟩ := ends_iff_iterate.mp ht
    refine ⟨n, ?_, fun m hm => ?_, ?_⟩
    · simpa [notCompleted_iterate] using hfalse
    · simpa [notCompleted_iterate] using hbefore m hm
    · rw [iterate_readBuffer]
  case mpr =>
    rintro ⟨n, hn, hbefore, rfl⟩
    refine ⟨_, ends_iff_iterate.mpr ⟨n, rfl, ?_, fun m hm => ?_⟩, ?_⟩
    · simp [notCompleted_iterate, hn]
    · simp [notCompleted_iterate, hbefore m hm]
    · rw [iterate_readBuffer]

theorem exists_data {n : Nat} (h : r.status n = .completed) :
    ∃ data fuel, readSoundFileSamplesHelper r fuel = some data := by
  have hfalse : notCompleted r ((readBuffer r)^[n] ⟨0, []⟩) = false := by
    simp [notCompleted_iterate, h]
  obtain ⟨t, hends⟩ := exists_ends_iff.mpr ⟨n, hfalse⟩
  exact ⟨t.data, exists_map_loop_iff.mpr ⟨t, hends, rfl⟩⟩

theorem flatten_take_eq_iff {n : Nat} :
    (r.buffers.take n).flatten = r.buffers.flatten ↔ ∀ buffer ∈ r.buffers.drop n, buffer = [] := by
  have hsplit : (r.buffers.take n).flatten ++ (r.buffers.drop n).flatten = r.buffers.flatten := by
    rw [← List.flatten_append, List.take_append_drop]
  rw [← hsplit, List.self_eq_append_right, List.flatten_eq_nil_iff]

/-- A reader that completes is read to its end unless it says so while there are
samples to come. From a reader that does not complete, the loop ends only if the
status has been `completed` before. -/
theorem readsAll_iff (r : AVAssetReader) :
    ReadsAll r ↔
      if r.last = .completed then
        ∀ n, r.status n = .completed → ∀ buffer ∈ r.buffers.drop n, buffer = []
      else ∃ n ≤ r.buffers.length, r.status n = .completed := by
  split_ifs with hlast
  · have hsettled : r.status (r.buffers.length + 1) = .completed :=
      (r.settled _ (Nat.lt_succ_self _)).trans hlast
    constructor
    case mp =>
      rintro ⟨data, hdata, hall⟩
      obtain ⟨first, -, hfirst, rfl⟩ := readSoundFileSamplesHelper_iff.mp hdata
      intro n hn buffer hbuffer
      have hle : first ≤ n := Nat.le_of_not_lt fun hlt => hfirst n hlt hn
      exact flatten_take_eq_iff.mp (hall hlast) buffer (List.drop_subset_drop_left _ hle hbuffer)
    case mpr =>
      intro hnone
      obtain ⟨data, hends⟩ := exists_data hsettled
      obtain ⟨n, hn, -, rfl⟩ := readSoundFileSamplesHelper_iff.mp hends
      exact ⟨_, hends, fun _ => flatten_take_eq_iff.mpr (hnone n hn)⟩
  · constructor
    case mp =>
      rintro ⟨data, hdata, -⟩
      obtain ⟨n, hn, -, -⟩ := readSoundFileSamplesHelper_iff.mp hdata
      refine ⟨n, Nat.le_of_not_lt fun hlt => hlast ?_, hn⟩
      rw [← r.settled n hlt, hn]
    case mpr =>
      rintro ⟨n, -, hn⟩
      obtain ⟨data, hends⟩ := exists_data hn
      exact ⟨data, hends, fun hcompleted => absurd hcompleted hlast⟩

/-- Of a reader that says `completed` only at its end, all samples are read if
it completes, and reading never ends if it fails or is cancelled. -/
theorem readsAll_iff_completed
    (h : ∀ n, r.status n = .completed → r.buffers.length ≤ n ∧ r.last = .completed) :
    ReadsAll r ↔ r.last = .completed := by
  rw [readsAll_iff]
  split_ifs with hlast
  · refine iff_of_true (fun n hn buffer hbuffer => ?_) hlast
    rw [List.drop_eq_nil_of_le (h n hn).1] at hbuffer
    exact absurd hbuffer List.not_mem_nil
  · exact iff_of_false (fun ⟨n, _, hn⟩ => hlast (h n hn).2) hlast

end Reader

/-- A reader that fails after its first buffer. -/
def failedReader : AVAssetReader where
  buffers := [[1, 2, 3, 4]]
  status n := if n ≤ 1 then .reading else .failed
  last := .failed
  ended := .inr (.inl rfl)
  settled _ hn := if_neg (Nat.not_le_of_lt hn)

theorem failedReader_never_ends :
    ¬ ∃ data fuel, readSoundFileSamplesHelper failedReader fuel = some data := by
  rintro ⟨data, hdata⟩
  obtain ⟨n, hn, -, -⟩ := readSoundFileSamplesHelper_iff.mp hdata
  have hstatus : failedReader.status n ≠ .completed := by
    show (if n ≤ 1 then AVAssetReaderStatus.reading else .failed) ≠ .completed
    split <;> decide
  exact hstatus hn

end Tootti.Waveform
