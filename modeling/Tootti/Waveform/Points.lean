import Tootti.Waveform.Samples

/-!
The points of the waveform, as a picture of the sums they stand for.

`normArrayHelper:` takes the least and the greatest sum in floating point, but
each sum as an `int`. Here `float` arithmetic is exact, so that what remains is
the narrowing: a sum that is no `int` moves, and with it the least or the
greatest.
-/

namespace Tootti.Waveform

open Machine

/-- A point for each sum, from 0 for the least to 1 for the greatest, in order. -/
structure Faithful (data : List ℤ) (points : List ℚ) : Prop where
  length_eq : points.length = data.length
  mem_unit : ∀ p ∈ points, 0 ≤ p ∧ p ≤ 1
  least : ∀ (i : ℕ) x, data[i]? = some x → (∀ y ∈ data, x ≤ y) → points[i]? = some 0
  greatest : ∀ (i : ℕ) x, data[i]? = some x → (∀ y ∈ data, y ≤ x) → points[i]? = some 1
  ordered : ∀ (i j : ℕ) x y p q, data[i]? = some x → data[j]? = some y → x < y →
    points[i]? = some p → points[j]? = some q → p ≤ q

def point (intValue : IntValue) (low high x : ℤ) : ℚ :=
  (intValue.toFun x - low) / (high - low)

/-- With two different sums there is a least and a greater greatest one, and the
division is one by their distance. -/
theorem exists_points (intValue : IntValue) {data : List ℤ}
    (hdata : ∃ a ∈ data, ∃ b ∈ data, a ≠ b) :
    ∃ low high, low ∈ data ∧ high ∈ data ∧ (∀ x ∈ data, low ≤ x ∧ x ≤ high) ∧ low < high ∧
      normArrayHelper id intValue (data.map (↑)) = .ok (data.map (point intValue low high)) := by
  obtain ⟨a, ha, b, hb, hne⟩ := hdata
  have hdata : data ≠ [] := List.ne_nil_of_mem ha
  obtain ⟨low, hlow⟩ := Option.isSome_iff_exists.mp (List.isSome_min?_of_ne_nil hdata)
  obtain ⟨high, hhigh⟩ := Option.isSome_iff_exists.mp (List.isSome_max?_of_ne_nil hdata)
  obtain ⟨hmemLow, hle⟩ := List.min?_eq_some_iff.mp hlow
  obtain ⟨hmemHigh, hge⟩ := List.max?_eq_some_iff.mp hhigh
  have hlt : low < high := by
    have := hle a ha
    have := hle b hb
    have := hge a ha
    have := hge b hb
    omega
  have hmin : (data.map ((↑) : ℤ → ℚ)).min? = some (low : ℚ) := by
    simpa [List.min?_eq_some_iff, hmemLow] using hle
  have hmax : (data.map ((↑) : ℤ → ℚ)).max? = some (high : ℚ) := by
    simpa [List.max?_eq_some_iff, hmemHigh] using hge
  have hdist : (high : ℚ) - low ≠ 0 := sub_ne_zero.mpr (by exact_mod_cast hlt.ne')
  refine ⟨low, high, hmemLow, hmemHigh, fun x hx => ⟨hle x hx, hge x hx⟩, hlt, ?_⟩
  rw [normArrayHelper, mapM_ite_error]
  simp only [floatValue, hmin, hmax, Option.getD_some, id_eq]
  rw [if_pos fun _ _ => hdist, List.map_map]
  rfl

section Bounded

variable (intValue : IntValue) {data : List ℤ} {low high : ℤ}

theorem point_of_fits {x : ℤ} (h : -2 ^ 31 ≤ x ∧ x < 2 ^ 31) :
    point intValue low high x = ((x : ℚ) - low) / (high - low) := by
  rw [point, intValue.eq_of_fits x h.1 h.2]

theorem faithful_of_fits (hlt : low < high) (hlow : low ∈ data) (hhigh : high ∈ data)
    (hbounds : ∀ x ∈ data, low ≤ x ∧ x ≤ high)
    (hfits : ∀ x ∈ data, -2 ^ 31 ≤ x ∧ x < 2 ^ 31) :
    Faithful data (data.map (point intValue low high)) := by
  have hdist : (0 : ℚ) < high - low := sub_pos.mpr (by exact_mod_cast hlt)
  have hpoint (x : ℤ) (hx : x ∈ data) :
      point intValue low high x = ((x : ℚ) - low) / (high - low) :=
    point_of_fits intValue (hfits x hx)
  constructor
  case length_eq => exact List.length_map _
  case mem_unit =>
    intro p hp
    obtain ⟨x, hx, rfl⟩ := List.mem_map.mp hp
    obtain ⟨hle, hge⟩ := hbounds x hx
    have hle' : (low : ℚ) ≤ x := by exact_mod_cast hle
    have hge' : (x : ℚ) ≤ high := by exact_mod_cast hge
    rw [hpoint x hx, div_le_one hdist]
    exact ⟨div_nonneg (by linarith) hdist.le, by linarith⟩
  case least =>
    intro i x hi hleast
    have hx := List.mem_of_getElem? hi
    obtain rfl : x = low := le_antisymm (hleast low hlow) (hbounds x hx).1
    rw [List.getElem?_map, hi, Option.map_some, hpoint x hx, sub_self, zero_div]
  case greatest =>
    intro i x hi hgreatest
    have hx := List.mem_of_getElem? hi
    obtain rfl : x = high := le_antisymm (hbounds x hx).2 (hgreatest high hhigh)
    rw [List.getElem?_map, hi, Option.map_some, hpoint x hx, div_self hdist.ne']
  case ordered =>
    intro i j x y p q hi hj hxy hp hq
    have hxy' : (x : ℚ) ≤ y := by exact_mod_cast hxy.le
    rw [List.getElem?_map, hi, Option.map_some, hpoint x (List.mem_of_getElem? hi)] at hp
    rw [List.getElem?_map, hj, Option.map_some, hpoint y (List.mem_of_getElem? hj)] at hq
    obtain rfl := Option.some.inj hp
    obtain rfl := Option.some.inj hq
    exact div_le_div_of_nonneg_right (by linarith) hdist.le

/-- The least sum has the point 0 only if `intValue` leaves it as it is. -/
theorem toFun_low_of_faithful (hlt : low < high) (hlow : low ∈ data)
    (hbounds : ∀ x ∈ data, low ≤ x ∧ x ≤ high)
    (h : Faithful data (data.map (point intValue low high))) : intValue.toFun low = low := by
  have hdist : (high : ℚ) - low ≠ 0 := sub_ne_zero.mpr (by exact_mod_cast hlt.ne')
  obtain ⟨i, hi⟩ := List.mem_iff_getElem?.mp hlow
  have hzero := h.least i low hi fun y hy => (hbounds y hy).1
  rw [List.getElem?_map, hi, Option.map_some, Option.some.injEq, point, div_eq_zero_iff,
    or_iff_left hdist, sub_eq_zero] at hzero
  exact_mod_cast hzero

theorem toFun_high_of_faithful (hlt : low < high) (hhigh : high ∈ data)
    (hbounds : ∀ x ∈ data, low ≤ x ∧ x ≤ high)
    (h : Faithful data (data.map (point intValue low high))) : intValue.toFun high = high := by
  have hdist : (high : ℚ) - low ≠ 0 := sub_ne_zero.mpr (by exact_mod_cast hlt.ne')
  obtain ⟨i, hi⟩ := List.mem_iff_getElem?.mp hhigh
  have hone := h.greatest i high hi fun y hy => (hbounds y hy).2
  rw [List.getElem?_map, hi, Option.map_some, Option.some.injEq, point, div_eq_one_iff_eq hdist,
    sub_left_inj] at hone
  exact_mod_cast hone

end Bounded

/-- The picture is faithful exactly if every sum is an `int`. -/
theorem faithful_iff_fits (intValue : IntValue) {data : List ℤ}
    (hdata : ∃ a ∈ data, ∃ b ∈ data, a ≠ b) :
    (∃ points, normArrayHelper id intValue (data.map (↑)) = .ok points ∧
      Faithful data points) ↔ ∀ x ∈ data, -2 ^ 31 ≤ x ∧ x < 2 ^ 31 := by
  obtain ⟨low, high, hlow, hhigh, hbounds, hlt, hpoints⟩ := exists_points intValue hdata
  constructor
  case mp =>
    rintro ⟨points, hnorm, hfaithful⟩ x hx
    obtain rfl := Except.ok.inj (hpoints.symm.trans hnorm)
    have hl := toFun_low_of_faithful intValue hlt hlow hbounds hfaithful
    have hh := toFun_high_of_faithful intValue hlt hhigh hbounds hfaithful
    have hlowBounds := intValue.bounds low
    have hhighBounds := intValue.bounds high
    have hx' := hbounds x hx
    omega
  case mpr =>
    intro hfits
    exact ⟨_, hpoints, faithful_of_fits intValue hlt hlow hhigh hbounds hfits⟩

theorem faithful_two_sums :
    (∃ points, normArrayHelper id .saturating (([3, 5] : List ℤ).map (↑)) = .ok points ∧
      Faithful [3, 5] points) ↔ ∀ x ∈ ([3, 5] : List ℤ), -2 ^ 31 ≤ x ∧ x < 2 ^ 31 :=
  faithful_iff_fits .saturating ⟨3, by decide, 5, by decide, by decide⟩

/-- The sum of two samples as loud as can be is narrowed to half of itself. -/
theorem loud_window_not_faithful :
    normArrayHelper id .saturating (([0, 2 ^ 32 - 2] : List ℤ).map (↑)) = .ok [0, 1 / 2] ∧
      ¬ Faithful [0, 2 ^ 32 - 2] [0, 1 / 2] := by
  refine ⟨by decide +kernel, fun h => ?_⟩
  have hgreatest := h.greatest 1 (2 ^ 32 - 2) rfl (by decide)
  exact absurd hgreatest (by decide +kernel)

end Tootti.Waveform
