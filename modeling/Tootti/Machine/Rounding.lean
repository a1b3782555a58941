import Mathlib.Algebra.Order.Round
import Mathlib.Data.Int.Log
import Mathlib.Data.Rat.Floor
import Mathlib.Tactic.Linarith

/-!
Rounding to the nearest floating-point number.

What a proof about rounded arithmetic needs is mostly not how ties are broken
or where the binades lie, but that the result is a representable number and
that none is nearer. The first section is about any such function into any set
of numbers: it is monotone, fixes the set, and never crosses a member of it.
The second gives binary rounding to `p` significant bits, ties to even, with no
bound on the exponent, and shows that it is one.
-/

namespace Tootti.Machine

section Nearest

variable {K : Type*} [Field K] [LinearOrder K] [IsStrictOrderedRing K]

structure IsNearest (F : Set K) (r : K → K) : Prop where
  mem : ∀ x, r x ∈ F
  nearest : ∀ x, ∀ y ∈ F, |x - r x| ≤ |x - y|

namespace IsNearest

variable {F : Set K} {r : K → K}

theorem eq_self (h : IsNearest F r) {x : K} (hx : x ∈ F) : r x = x := by
  have hdist := h.nearest x x hx
  rw [sub_self, abs_zero] at hdist
  exact (sub_eq_zero.mp (abs_eq_zero.mp (le_antisymm hdist (abs_nonneg _)))).symm

/-- A number not farther from the greater of two others is beyond their midpoint. -/
theorem midpoint_le {a b x : K} (hba : b < a) (h : |x - a| ≤ |x - b|) : a + b ≤ 2 * x := by
  have hsq : (x - a) ^ 2 ≤ (x - b) ^ 2 := sq_le_sq.mpr h
  have hprod : 0 ≤ (a - b) * (2 * x - (a + b)) := by linarith
  linarith [nonneg_of_mul_nonneg_right hprod (sub_pos.mpr hba)]

theorem le_midpoint {a b x : K} (hba : b < a) (h : |x - b| ≤ |x - a|) : 2 * x ≤ a + b := by
  have hsq : (x - b) ^ 2 ≤ (x - a) ^ 2 := sq_le_sq.mpr h
  have hprod : 0 ≤ (a - b) * (a + b - 2 * x) := by linarith
  linarith [nonneg_of_mul_nonneg_right hprod (sub_pos.mpr hba)]

theorem monotone (h : IsNearest F r) : Monotone r := by
  intro x y hxy
  by_contra hlt
  rw [not_le] at hlt
  have hx := midpoint_le hlt (h.nearest x (r y) (h.mem y))
  have hy := le_midpoint hlt (h.nearest y (r x) (h.mem x))
  obtain rfl : x = y := by linarith
  exact lt_irrefl _ hlt

theorem le_of_ge (h : IsNearest F r) {x y : K} (hxy : y ≤ x) (hy : y ∈ F) : y ≤ r x := by
  conv_lhs => rw [← h.eq_self hy]
  exact h.monotone hxy

end IsNearest

end Nearest

/-! ### Binary rounding -/

/-- An integer of at most `p` bits, `2 ^ p` included, times a power of two. -/
def Representable (p : ℕ) : Set ℚ := {x | ∃ m e : ℤ, |m| ≤ 2 ^ p ∧ x = m * 2 ^ e}

/-- The nearest integer, the even one of two. -/
def roundEven (x : ℚ) : ℤ :=
  if Int.fract x < 1 / 2 then ⌊x⌋
  else if 1 / 2 < Int.fract x then ⌊x⌋ + 1
  else if Even ⌊x⌋ then ⌊x⌋ else ⌊x⌋ + 1

/-- The distance of two neighbouring numbers of `p` bits around `x`. -/
def ulp (p : ℕ) (x : ℚ) : ℚ := 2 ^ (Int.log 2 |x| - (p - 1 : ℤ))

def nearest (p : ℕ) (x : ℚ) : ℚ := roundEven (x / ulp p x) * ulp p x

theorem abs_sub_roundEven_le_half (x : ℚ) : |x - roundEven x| ≤ 1 / 2 := by
  have hfract := Int.self_sub_floor x
  have hpos := Int.fract_nonneg x
  have hlt := Int.fract_lt_one x
  unfold roundEven
  split_ifs with hlow hhigh <;> push_cast <;> rw [abs_le] <;> constructor <;> linarith

theorem abs_sub_roundEven_le (x : ℚ) (n : ℤ) : |x - roundEven x| ≤ |x - n| := by
  by_cases hn : roundEven x = n
  · rw [hn]
  have hapart : (1 : ℚ) ≤ |(roundEven x : ℚ) - n| := by
    exact_mod_cast Int.one_le_abs (sub_ne_zero.mpr hn)
  have hhalf := abs_sub_roundEven_le_half x
  have htriangle := abs_sub_le (roundEven x : ℚ) x n
  rw [abs_sub_comm (roundEven x : ℚ) x] at htriangle
  linarith

theorem ulp_pos (p : ℕ) (x : ℚ) : 0 < ulp p x := by
  exact zpow_pos two_pos _

/-- No multiple of the distance is nearer. -/
theorem abs_sub_nearest_le_mul (p : ℕ) (x : ℚ) (n : ℤ) :
    |x - nearest p x| ≤ |x - n * ulp p x| := by
  have hulp := ulp_pos p x
  have hscale (k : ℤ) : |x - k * ulp p x| = |x / ulp p x - k| * ulp p x := by
    rw [← abs_of_pos hulp, ← abs_mul, abs_of_pos hulp, sub_mul, div_mul_cancel₀ x hulp.ne']
  rw [nearest, hscale, hscale]
  exact mul_le_mul_of_nonneg_right (abs_sub_roundEven_le _ n) hulp.le

@[simp] theorem nearest_zero (p : ℕ) : nearest p 0 = 0 := by
  simp [nearest, roundEven]

/-- The powers of two around `x` as multiples of the distance. -/
theorem two_pow_mul_ulp (p : ℕ) (x : ℚ) : 2 ^ p * ulp p x = (2 : ℚ) ^ (Int.log 2 |x| + 1) := by
  rw [ulp, ← zpow_natCast, ← zpow_add₀ two_ne_zero]
  congr 1
  ring

theorem two_pow_pred_mul_ulp {p : ℕ} (hp : 0 < p) (x : ℚ) :
    2 ^ (p - 1) * ulp p x = (2 : ℚ) ^ Int.log 2 |x| := by
  rw [ulp, ← zpow_natCast, ← zpow_add₀ two_ne_zero]
  congr 1
  omega

theorem abs_div_ulp_lt (p : ℕ) (x : ℚ) : |x / ulp p x| < 2 ^ p := by
  have hlog : |x| < (2 : ℚ) ^ (Int.log 2 |x| + 1) := Int.lt_zpow_succ_log_self one_lt_two |x|
  rw [← two_pow_mul_ulp] at hlog
  rwa [abs_div, abs_of_pos (ulp_pos p x), div_lt_iff₀ (ulp_pos p x)]

theorem nearest_mem (p : ℕ) (x : ℚ) : nearest p x ∈ Representable p := by
  refine ⟨roundEven (x / ulp p x), _, ?_, rfl⟩
  have hlt := abs_div_ulp_lt p x
  have hhalf := abs_sub_roundEven_le_half (x / ulp p x)
  have htriangle := abs_sub_abs_le_abs_sub (roundEven (x / ulp p x) : ℚ) (x / ulp p x)
  rw [abs_sub_comm] at htriangle
  have hround : |(roundEven (x / ulp p x) : ℚ)| < 2 ^ p + 1 := by linarith
  exact Int.lt_add_one_iff.mp (by exact_mod_cast hround)

/-- The power of two at the bottom of the binade is not nearer. -/
theorem abs_sub_nearest_le_sub {p : ℕ} (hp : 0 < p) {x : ℚ} (hx : x ≠ 0) :
    |x - nearest p x| ≤ |x| - 2 ^ Int.log 2 |x| := by
  have hbottom : (2 : ℚ) ^ Int.log 2 |x| ≤ |x| :=
    Int.zpow_log_le_self one_lt_two (abs_pos.mpr hx)
  rw [← two_pow_pred_mul_ulp hp] at hbottom ⊢
  rcases lt_or_gt_of_ne hx with hneg | hpos
  · have hnear := abs_sub_nearest_le_mul p x (-2 ^ (p - 1))
    rw [abs_of_neg hneg] at hbottom ⊢
    have hdist : |x - ((-2 ^ (p - 1) : ℤ) : ℚ) * ulp p x| = -x - 2 ^ (p - 1) * ulp p x := by
      push_cast
      rw [abs_of_nonpos (by linarith)]
      ring
    exact hdist ▸ hnear
  · have hnear := abs_sub_nearest_le_mul p x (2 ^ (p - 1))
    rw [abs_of_pos hpos] at hbottom ⊢
    have hdist : |x - ((2 ^ (p - 1) : ℤ) : ℚ) * ulp p x| = x - 2 ^ (p - 1) * ulp p x := by
      push_cast
      exact abs_of_nonneg (by linarith)
    exact hdist ▸ hnear

/-- A number below the binade of `x` is farther from `x` than its bottom. -/
theorem abs_sub_nearest_le_of_abs_le {p : ℕ} (hp : 0 < p) {x y : ℚ} (hx : x ≠ 0)
    (hy : |y| ≤ 2 ^ Int.log 2 |x|) : |x - nearest p x| ≤ |x - y| := by
  have hnear := abs_sub_nearest_le_sub hp hx
  have hfar := abs_sub_abs_le_abs_sub x y
  linarith

theorem isNearest_nearest {p : ℕ} (hp : 0 < p) : IsNearest (Representable p) (nearest p) where
  mem := nearest_mem p
  nearest := by
    rintro x y ⟨m, e, hm, rfl⟩
    by_cases hx : x = 0
    · simp only [hx, nearest_zero, sub_self, abs_zero]
      exact abs_nonneg _
    rcases le_or_gt (Int.log 2 |x| - (p - 1 : ℤ)) e with hfine | hcoarse
    · -- `y` is a multiple of the distance
      have hmul : (m : ℚ) * 2 ^ e = ((m * 2 ^ (e - (Int.log 2 |x| - (p - 1 : ℤ))).toNat : ℤ) : ℚ) *
          ulp p x := by
        push_cast
        rw [ulp, mul_assoc, ← zpow_natCast, ← zpow_add₀ two_ne_zero]
        congr 2
        omega
      rw [hmul]
      exact abs_sub_nearest_le_mul p x _
    · refine abs_sub_nearest_le_of_abs_le hp hx ?_
      have hm' : |(m : ℚ)| ≤ 2 ^ p := by exact_mod_cast hm
      calc |(m : ℚ) * 2 ^ e| = |(m : ℚ)| * 2 ^ e := by
            rw [abs_mul, abs_of_pos (zpow_pos two_pos e : (0 : ℚ) < 2 ^ e)]
        _ ≤ 2 ^ p * 2 ^ e := mul_le_mul_of_nonneg_right hm' (zpow_pos two_pos e).le
        _ = 2 ^ ((p : ℤ) + e) := by rw [zpow_add₀ two_ne_zero, zpow_natCast]
        _ ≤ 2 ^ Int.log 2 |x| := zpow_le_zpow_right₀ one_le_two (by omega)

theorem representable_intCast {p : ℕ} {n : ℤ} (h : |n| ≤ 2 ^ p) : (n : ℚ) ∈ Representable p :=
  ⟨n, 0, h, by simp⟩

theorem nearest_intCast {p : ℕ} (hp : 0 < p) {n : ℤ} (h : |n| ≤ 2 ^ p) : nearest p n = n :=
  (isNearest_nearest hp).eq_self (representable_intCast h)

/-- There are no fractions from `2 ^ p` on. -/
theorem Representable.eq_intCast_or_lt {p : ℕ} {x : ℚ} (h : x ∈ Representable p) :
    (∃ n : ℤ, x = n) ∨ |x| < 2 ^ p := by
  obtain ⟨m, e, hm, rfl⟩ := h
  rcases le_or_gt 0 e with hwhole | hfraction
  · left
    obtain ⟨k, rfl⟩ := Int.eq_ofNat_of_zero_le hwhole
    exact ⟨m * 2 ^ k, by push_cast; rfl⟩
  · right
    have hm' : |(m : ℚ)| ≤ 2 ^ p := by exact_mod_cast hm
    have he : (2 : ℚ) ^ e < 1 := zpow_lt_one_of_neg₀ one_lt_two hfraction
    rw [abs_mul, abs_of_pos (zpow_pos two_pos e : (0 : ℚ) < 2 ^ e)]
    calc |(m : ℚ)| * 2 ^ e ≤ 2 ^ p * 2 ^ e :=
          mul_le_mul_of_nonneg_right hm' (zpow_pos two_pos e).le
      _ < 2 ^ p := mul_lt_of_lt_one_right (by positivity) he

/-- Without a least exponent, no number but zero is rounded to zero. -/
theorem nearest_eq_zero {p : ℕ} (hp : 0 < p) {x : ℚ} : nearest p x = 0 ↔ x = 0 := by
  refine ⟨fun h => ?_, fun h => by simp [h]⟩
  by_contra hx
  have hhalf : |x / 2| ≤ 2 ^ Int.log 2 |x| := by
    have hlog : |x| < (2 : ℚ) ^ (Int.log 2 |x| + 1) := Int.lt_zpow_succ_log_self one_lt_two |x|
    rw [zpow_add_one₀ two_ne_zero] at hlog
    rw [abs_div, abs_two]
    linarith
  have hnear := abs_sub_nearest_le_of_abs_le hp hx hhalf
  rw [h, sub_zero, sub_half, abs_div, abs_two] at hnear
  linarith [abs_pos.mpr hx]

end Tootti.Machine
