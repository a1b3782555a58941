import Mathlib.Data.List.Basic

/-!
Numbers as they are printed on labels.

`padded` is what a format such as `%02d` prints of a number that is not
negative; a clock prints the minutes and the seconds with a colon between them.
Both can be read again, so two numbers never look the same.
-/

namespace Tootti.Machine

def padded (width n : ℕ) : List Char := (Nat.toDigits 10 n).leftpad width '0'

def readNumber (cs : List Char) : ℕ := Nat.ofDigitChars 10 cs 0

theorem readNumber_padded (width n : ℕ) : readNumber (padded width n) = n := by
  simp [readNumber, padded, List.leftpad, Nat.ofDigitChars_append]

theorem colon_not_mem_padded (width n : ℕ) : ':' ∉ padded width n := by
  intro h
  rcases List.mem_append.mp h with hpad | hdigit
  · exact absurd (List.eq_of_mem_replicate hpad) (by decide)
  · have hd := Nat.isDigit_of_mem_toDigits (by decide) (by decide) hdigit
    exact absurd hd (by decide)

/-- A number with the digit that one below ten lacks. -/
theorem padded_two (n : ℕ) :
    padded 2 n = if n < 10 then '0' :: Nat.toDigits 10 n else Nat.toDigits 10 n := by
  rw [padded, List.leftpad]
  split
  · rename_i hn
    rw [Nat.toDigits_of_lt_base hn]
    rfl
  · rename_i hn
    have hshort : (Nat.toDigits 10 n).length ≤ 1 ↔ n < 10 ^ 1 :=
      Nat.length_toDigits_le_iff (by decide) (by decide)
    have hnone : 2 - (Nat.toDigits 10 n).length = 0 := by omega
    rw [hnone]
    rfl

/-- `%02d:%02d` of the minutes and the seconds. -/
def clock (seconds : ℕ) : List Char := padded 2 (seconds / 60) ++ ':' :: padded 2 (seconds % 60)

def readClock (cs : List Char) : ℕ :=
  60 * readNumber (cs.takeWhile (· ≠ ':')) + readNumber ((cs.dropWhile (· ≠ ':')).drop 1)

theorem readClock_clock (seconds : ℕ) : readClock (clock seconds) = seconds := by
  have hminutes : ∀ c ∈ padded 2 (seconds / 60), decide (c ≠ ':') = true := by
    intro c hc
    have hne : c ≠ ':' := fun heq => colon_not_mem_padded 2 _ (heq ▸ hc)
    exact decide_eq_true hne
  rw [readClock, clock, List.takeWhile_append_of_pos hminutes,
    List.dropWhile_append_of_pos hminutes]
  simp only [ne_eq, not_true_eq_false, decide_false, Bool.false_eq_true, not_false_eq_true,
    List.takeWhile_cons_of_neg, List.append_nil, List.dropWhile_cons_of_neg, List.drop_succ_cons,
    List.drop_zero, readNumber_padded]
  omega

example : String.ofList (clock 61) = "01:01" := by decide

end Tootti.Machine
