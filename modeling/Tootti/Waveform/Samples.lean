import Tootti.Machine.Loop
import Tootti.Machine.Rounding
import Mathlib.Data.List.MinMax
import Mathlib.Data.List.TakeWhile

/-!
From the bytes of a recording to the points of its waveform.

`arrayFromDataHelper:songLengthIs:` reads the bytes as 32-bit samples, cuts the
samples into one window for each second and hands the sums of the windows to
`normArrayHelper:`, which moves them to the unit interval. Integers have the
widths of the source; `float` arithmetic is a parameter, as is what `intValue`
gives for a number that is not an `int`.
-/

namespace Tootti.Waveform

open Machine

inductive Fault
  /-- A read past the end of the buffer. -/
  | outOfBounds
  | divideByZero
  /-- A conversion of a `float` that the integer type cannot hold, which C leaves undefined. -/
  | conversion
  /-- The `NSRangeException` of `subarrayWithRange:`. -/
  | range
  deriving DecidableEq, Repr

/-- A buffer, whose length is an `NSUInteger`. -/
structure NSData where
  bytes : List UInt8
  length_lt : bytes.length < 2 ^ 64

/-- A duration that a `float` can hold. -/
structure Duration where
  seconds : ℚ
  pos : 0 < seconds
  mem : seconds ∈ Representable 24

structure NSRange where
  location : ℕ
  length : ℕ
  deriving DecidableEq, Repr

/-- What `subarrayWithRange:` requires. -/
abbrev NSRange.Inside (r : NSRange) (count : ℕ) : Prop := r.location + r.length ≤ count

/-- What `intValue` gives: an `int`, the number itself if it is one. -/
structure IntValue where
  toFun : ℚ → ℤ
  bounds : ∀ x, -2 ^ 31 ≤ toFun x ∧ toFun x < 2 ^ 31
  eq_of_fits : ∀ n : ℤ, -2 ^ 31 ≤ n → n < 2 ^ 31 → toFun n = n

/-- Towards zero, and to the nearest `int`. -/
def IntValue.saturating : IntValue where
  toFun x := max (-2 ^ 31) (min (2 ^ 31 - 1) (if 0 ≤ x then ⌊x⌋ else ⌈x⌉))
  bounds x := by omega
  eq_of_fits n hlow hhigh := by
    simp only [Int.floor_intCast, Int.ceil_intCast, ite_self]
    omega

def toInt32 (n : ℤ) : ℤ := Int.bmod n (2 ^ 32)

def toUInt64 (n : ℤ) : ℕ := (n % 2 ^ 64).toNat

/-- The conversion of a `float` to an `int`, towards zero. -/
def floatToInt (x : ℚ) : Except Fault ℤ :=
  let n := if 0 ≤ x then ⌊x⌋ else ⌈x⌉
  if -2 ^ 31 ≤ n ∧ n < 2 ^ 31 then .ok n else .error .conversion

/-- The quotient of two `int`s, towards zero. -/
def intDivide (a b : ℤ) : Except Fault ℤ :=
  if b = 0 then .error .divideByZero else .ok (a.tdiv b)

/-! ### `normArrayHelper:` -/

/-- `floatValue` of `@min.self` or `@max.self`, nil of an empty array. -/
def floatValue (float : ℚ → ℚ) (x : Option ℚ) : ℚ := float (x.getD 0)

def normArrayHelper (float : ℚ → ℚ) (intValue : IntValue) (data : List ℚ) :
    Except Fault (List ℚ) :=
  let Intmin := floatValue float data.min?
  let Intmax := floatValue float data.max?
  data.mapM fun num =>
    let Intnum := intValue.toFun num
    if float (Intmax - Intmin) ≠ 0 then
      .ok (float (float (float Intnum - Intmin) / float (Intmax - Intmin)))
    else .error .divideByZero

/-! ### `arrayFromDataHelper:songLengthIs:` -/

def OSReadLittleInt32 (b0 b1 b2 b3 : UInt8) : ℤ :=
  toInt32 (b0.toNat + b1.toNat * 2 ^ 8 + b2.toNat * 2 ^ 16 + b3.toNat * 2 ^ 24 : ℕ)

/-- The loop that reads four bytes at a time, as long as the position is inside
the buffer. -/
def readSamples : List UInt8 → Except Fault (List ℤ)
  | [] => .ok []
  | b0 :: b1 :: b2 :: b3 :: bytes => do
      let ary ← readSamples bytes
      .ok (OSReadLittleInt32 b0 b1 b2 b3 :: ary)
  | _ => .error .outOfBounds

/-- The values of `i` in `for (NSUInteger i = 0; i < seconds; i++)`: up to the
first one whose `float` is not below `seconds`, which is not above `⌈seconds⌉`. -/
def indices (seconds : ℚ) : List ℕ :=
  (List.range ⌈seconds⌉₊).takeWhile fun i => nearest 24 i < seconds

/-- `theRange` of round `i`, in `NSUInteger` arithmetic. -/
def theRange (count : ℕ) (interval : ℤ) (i : ℕ) : NSRange where
  location := toUInt64 (i * interval)
  length :=
    if count ≤ toUInt64 (i * interval + interval) then
      toUInt64 (toInt32 count - i * interval - 1)
    else toUInt64 interval

/-- The ranges passed to `subarrayWithRange:`, which raises for one that is not
inside the array. -/
def windowRanges (count : ℕ) (seconds : ℚ) : Except Fault (List NSRange) := do
  let secs ← floatToInt seconds
  let interval ← intDivide (toInt32 count) secs
  (indices seconds).mapM fun i =>
    let r := theRange count interval i
    if r.Inside count then .ok r else .error .range

def subarray (ary : List ℤ) (r : NSRange) : List ℤ := (ary.drop r.location).take r.length

/-- `@sum.self`, which adds `double`s. -/
def sumSelf (window : List ℤ) : ℚ := window.foldl (fun sum x => nearest 53 (sum + x)) 0

def arrayFromDataHelper (intValue : IntValue) (data : NSData) (song : Duration) :
    Except Fault (List ℚ) := do
  let ary ← readSamples data.bytes
  let ranges ← windowRanges ary.length song.seconds
  let movingavgAry := ranges.map fun r => sumSelf (subarray ary r)
  normArrayHelper (nearest 24) intValue movingavgAry

/-! ### The samples -/

/-- The samples of the complete groups of four bytes. -/
def decode : List UInt8 → List ℤ
  | b0 :: b1 :: b2 :: b3 :: bytes => OSReadLittleInt32 b0 b1 b2 b3 :: decode bytes
  | _ => []

theorem length_lt_four {bytes : List UInt8}
    (h : ∀ b0 b1 b2 b3 rest, bytes = b0 :: b1 :: b2 :: b3 :: rest → False) :
    bytes.length < 4 := by
  match bytes, h with
  | [], _ | [_], _ | [_, _], _ | [_, _, _], _ => simp
  | b0 :: b1 :: b2 :: b3 :: rest, h => exact (h b0 b1 b2 b3 rest rfl).elim

theorem length_decode (bytes : List UInt8) : (decode bytes).length = bytes.length / 4 := by
  fun_induction decode bytes with
  | case1 b0 b1 b2 b3 bytes ih =>
      simp only [List.length_cons, ih]
      omega
  | case2 bytes h =>
      have hlt := length_lt_four h
      rw [List.length_nil]
      omega

theorem readSamples_eq (bytes : List UInt8) :
    readSamples bytes = if 4 ∣ bytes.length then .ok (decode bytes) else .error .outOfBounds := by
  fun_induction readSamples bytes with
  | case1 => rfl
  | case2 b0 b1 b2 b3 bytes ih =>
      have hdvd : 4 ∣ bytes.length + 1 + 1 + 1 + 1 ↔ 4 ∣ bytes.length := by omega
      rw [ih]
      simp only [List.length_cons, hdvd, decode]
      split <;> rfl
  | case3 bytes hnil hcons =>
      have hlt := length_lt_four hcons
      have hpos := List.length_pos_iff.mpr hnil
      rw [if_neg (by omega)]

/-! ### The rounds of the loop -/

theorem isNearest_float : IsNearest (Representable 24) (nearest 24) := isNearest_nearest (by decide)

namespace Duration

variable (song : Duration)

/-- The `float` of an index is below the duration only if the index is. -/
theorem lt_of_nearest_lt {i : ℕ} (h : nearest 24 i < song.seconds) : (i : ℚ) < song.seconds := by
  by_contra hle
  exact absurd h (not_lt.mpr (isNearest_float.le_of_ge (not_lt.mp hle) song.mem))

theorem mem_indices {i : ℕ} : i ∈ indices song.seconds ↔ nearest 24 i < song.seconds := by
  constructor
  · intro h
    simpa using List.mem_takeWhile_imp h
  · intro h
    have hrange : i < ⌈song.seconds⌉₊ := Nat.lt_ceil.mpr (song.lt_of_nearest_lt h)
    have hbefore : ∀ j ∈ List.range (i + 1), (decide (nearest 24 j < song.seconds)) = true := by
      intro j hj
      have hji : (j : ℚ) ≤ i := by exact_mod_cast Nat.lt_succ_iff.mp (List.mem_range.mp hj)
      exact decide_eq_true ((isNearest_float.monotone hji).trans_lt h)
    have hsplit : List.range ⌈song.seconds⌉₊ =
        List.range (i + 1) ++ (List.range (⌈song.seconds⌉₊ - (i + 1))).map (i + 1 + ·) := by
      rw [← List.range_add, Nat.add_sub_cancel' hrange]
    rw [indices, hsplit, List.takeWhile_append_of_pos hbefore]
    exact List.mem_append_left _ (List.mem_range.mpr (Nat.lt_succ_self i))

theorem zero_mem_indices : 0 ∈ indices song.seconds := by
  rw [mem_indices]
  simpa using song.pos

theorem lt_of_mem_indices {i : ℕ} (h : i ∈ indices song.seconds) : (i : ℚ) < song.seconds :=
  song.lt_of_nearest_lt (song.mem_indices.mp h)

/-- A fractional duration is one more round. -/
theorem floor_mem_indices (h : (⌊song.seconds⌋₊ : ℚ) ≠ song.seconds) :
    ⌊song.seconds⌋₊ ∈ indices song.seconds := by
  have hfloor : (⌊song.seconds⌋₊ : ℚ) < song.seconds :=
    lt_of_le_of_ne (Nat.floor_le song.pos.le) h
  have hsmall : |((⌊song.seconds⌋₊ : ℤ))| ≤ 2 ^ 24 := by
    rcases Representable.eq_intCast_or_lt song.mem with ⟨n, hn⟩ | hlt
    · have hpos : 0 ≤ n := by exact_mod_cast (hn ▸ song.pos).le
      obtain ⟨m, rfl⟩ := Int.eq_ofNat_of_zero_le hpos
      exact absurd (by simp [hn]) h
    · rw [abs_of_pos song.pos] at hlt
      rw [Nat.abs_cast]
      exact_mod_cast (hfloor.trans hlt).le
  rw [mem_indices]
  have hexact := nearest_intCast (by decide) hsmall
  rw [Int.cast_natCast] at hexact
  rwa [hexact]

end Duration

/-! ### The windows of one round -/

theorem toInt32_spec (n : ℤ) :
    -2 ^ 31 ≤ toInt32 n ∧ toInt32 n < 2 ^ 31 ∧ (2 ^ 32 : ℤ) ∣ n - toInt32 n := by
  unfold toInt32
  rw [Int.bmod_def]
  split <;> omega

theorem toInt32_eq_self {n : ℤ} (hlow : -2 ^ 31 ≤ n) (hhigh : n < 2 ^ 31) : toInt32 n = n := by
  have h := toInt32_spec n
  omega

theorem toUInt64_natCast {n : ℕ} (h : n < 2 ^ 64) : toUInt64 n = n := by
  unfold toUInt64
  omega

section Round

variable {count interval i : ℕ}

theorem theRange_of_lt (hcount : count < 2 ^ 62) (h : i * interval + interval < count) :
    theRange count interval i = ⟨i * interval, interval⟩ := by
  have hlocation : toUInt64 (i * interval : ℤ) = i * interval := by
    exact_mod_cast toUInt64_natCast (n := i * interval) (by omega)
  have hend : toUInt64 (i * interval + interval : ℤ) = i * interval + interval := by
    exact_mod_cast toUInt64_natCast (n := i * interval + interval) (by omega)
  have hlength : toUInt64 interval = interval := toUInt64_natCast (by omega)
  rw [theRange, hend, if_neg (by omega), hlocation, hlength]

theorem theRange_of_ge (hcount : count < 2 ^ 31) (hwidth : i * interval + interval < 2 ^ 32)
    (h : count ≤ i * interval + interval) :
    theRange count interval i = ⟨i * interval, toUInt64 (count - i * interval - 1)⟩ := by
  have hlocation : toUInt64 (i * interval : ℤ) = i * interval := by
    exact_mod_cast toUInt64_natCast (n := i * interval) (by omega)
  have hend : toUInt64 (i * interval + interval : ℤ) = i * interval + interval := by
    exact_mod_cast toUInt64_natCast (n := i * interval + interval) (by omega)
  have hint : toInt32 count = count := toInt32_eq_self (by omega) (by omega)
  rw [theRange, hend, if_pos h, hlocation, hint]

/-- The range of a round is inside the array if it begins inside: the last one
is a sample short, and wraps around if nothing is left. -/
theorem theRange_inside_iff (hcount : count < 2 ^ 31) (hwidth : i * interval + interval < 2 ^ 32) :
    (theRange count interval i).Inside count ↔ i * interval < count := by
  rcases lt_or_ge (i * interval + interval) count with hlt | hge
  · rw [theRange_of_lt (by omega) hlt]
    simp only [NSRange.Inside]
    omega
  · rw [theRange_of_ge hcount hwidth hge]
    simp only [NSRange.Inside, ← Nat.cast_mul]
    generalize i * interval = location at *
    unfold toUInt64
    omega

end Round

/-! ### Normalising -/

theorem exists_float_ne_iff {float : ℚ → ℚ} (hmono : Monotone float) {data : List ℚ}
    (hdata : data ≠ []) :
    floatValue float data.max? ≠ floatValue float data.min? ↔
      ∃ a ∈ data, ∃ b ∈ data, float a ≠ float b := by
  obtain ⟨low, hlow⟩ := Option.isSome_iff_exists.mp (List.isSome_min?_of_ne_nil hdata)
  obtain ⟨high, hhigh⟩ := Option.isSome_iff_exists.mp (List.isSome_max?_of_ne_nil hdata)
  rw [hlow, hhigh]
  obtain ⟨hmemLow, hle⟩ := List.min?_eq_some_iff.mp hlow
  obtain ⟨hmemHigh, hge⟩ := List.max?_eq_some_iff.mp hhigh
  constructor
  case mp => exact fun hne => ⟨high, hmemHigh, low, hmemLow, hne⟩
  case mpr =>
    rintro ⟨a, ha, b, hb, hne⟩ heq
    simp only [floatValue, Option.getD_some] at heq
    have hall (x : ℚ) (hx : x ∈ data) : float x = float low :=
      le_antisymm (heq ▸ hmono (hge x hx)) (hmono (hle x hx))
    exact hne ((hall a ha).trans (hall b hb).symm)

theorem normArrayHelper_ok_iff (intValue : IntValue) {data : List ℚ} (hdata : data ≠ []) :
    (∃ points, normArrayHelper (nearest 24) intValue data = .ok points) ↔
      ∃ a ∈ data, ∃ b ∈ data, nearest 24 a ≠ nearest 24 b := by
  rw [← exists_float_ne_iff isNearest_float.monotone hdata, normArrayHelper, mapM_ite_error]
  simp only [ite_error_eq_ok, exists_and_left, exists_eq', and_true, ne_eq,
    nearest_eq_zero (p := 24) (by decide), sub_eq_zero]
  obtain ⟨x, hx⟩ := List.exists_mem_of_ne_nil data hdata
  exact ⟨fun h => h x hx, fun h _ _ => h⟩

/-! ### Until the windows are cut -/

theorem floatToInt_seconds (song : Duration) :
    floatToInt song.seconds =
      if song.seconds < 2 ^ 31 then .ok (⌊song.seconds⌋₊ : ℤ) else .error .conversion := by
  have hfloor : ⌊song.seconds⌋ = (⌊song.seconds⌋₊ : ℤ) :=
    (Int.natCast_floor_eq_floor song.pos.le).symm
  have hfits : (-2 ^ 31 ≤ (⌊song.seconds⌋₊ : ℤ) ∧ (⌊song.seconds⌋₊ : ℤ) < 2 ^ 31) ↔
      song.seconds < 2 ^ 31 := by
    rw [and_iff_right (by omega), ← hfloor, Int.floor_lt]
    norm_num
  rw [floatToInt, if_pos song.pos.le]
  simp only [hfloor, hfits]

theorem windowRanges_eq (song : Duration) (count : ℕ) (hone : 1 ≤ song.seconds)
    (hlt : song.seconds < 2 ^ 31) :
    windowRanges count song.seconds =
      let interval := (toInt32 count).tdiv ⌊song.seconds⌋₊
      if ∀ i ∈ indices song.seconds, (theRange count interval i).Inside count then
        .ok ((indices song.seconds).map (theRange count interval))
      else .error .range := by
  have hsecs : (⌊song.seconds⌋₊ : ℤ) ≠ 0 := by
    have := Nat.floor_pos.mpr hone
    omega
  rw [windowRanges, floatToInt_seconds, if_pos hlt]
  simp only [bind, Except.bind, intDivide, if_neg hsecs]
  exact mapM_ite_error _ _ _

/-! ### The windows of all rounds -/

/-- The samples of a window, when its range is inside the array: the last
window of the array is one sample short. -/
def window (samples : List ℤ) (secs i : ℕ) : List ℤ :=
  let interval := (toInt32 samples.length).toNat / secs
  let length :=
    if samples.length ≤ i * interval + interval then samples.length - i * interval - 1
    else interval
  (samples.drop (i * interval)).take length

section Windows

variable {count secs i : ℕ}

theorem tdiv_toInt32 (hcount : 0 ≤ toInt32 count) (secs : ℕ) :
    (toInt32 count).tdiv secs = (((toInt32 count).toNat / secs : ℕ) : ℤ) := by
  obtain ⟨c, hc⟩ := Int.eq_ofNat_of_zero_le hcount
  rw [hc]
  exact (Int.ofNat_tdiv c secs).symm

theorem end_le_twice (count : ℕ) (hi : i ≤ secs) :
    i * ((toInt32 count).toNat / secs) + (toInt32 count).toNat / secs ≤
      2 * (toInt32 count).toNat := by
  have hstart : i * ((toInt32 count).toNat / secs) ≤ (toInt32 count).toNat :=
    (Nat.mul_le_mul_right _ hi).trans (Nat.mul_div_le _ _)
  have hinterval : (toInt32 count).toNat / secs ≤ (toInt32 count).toNat := Nat.div_le_self _ _
  omega

theorem inside_iff (hlarge : count < 2 ^ 62) (hcount : 0 ≤ toInt32 count) (hi : i ≤ secs) :
    (theRange count ((toInt32 count).tdiv secs) i).Inside count ↔
      (count < 2 ^ 31 → i * (count / secs) < count) := by
  have hend := end_le_twice count hi
  have hspec := toInt32_spec count
  rw [tdiv_toInt32 hcount]
  by_cases hsmall : count < 2 ^ 31
  · have hself : (toInt32 count).toNat = count := by
      rw [toInt32_eq_self (by omega) (by omega), Int.toNat_natCast]
    rw [hself] at hend ⊢
    rw [theRange_inside_iff hsmall (by omega)]
    exact ⟨fun h _ => h, fun h => h hsmall⟩
  · -- the count was reduced, and the windows lie in the first `2 ^ 32` samples
    rw [theRange_of_lt hlarge (by omega)]
    simp only [NSRange.Inside, hsmall, false_imp_iff, iff_true]
    omega

/-- The range of a round that begins inside the array. -/
theorem theRange_eq (hlarge : count < 2 ^ 62) (hcount : 0 ≤ toInt32 count) (hi : i ≤ secs)
    (hstart : count < 2 ^ 31 → i * (count / secs) < count) :
    theRange count ((toInt32 count).tdiv secs) i =
      let interval := (toInt32 count).toNat / secs
      ⟨i * interval,
        if count ≤ i * interval + interval then count - i * interval - 1 else interval⟩ := by
  have hend := end_le_twice count hi
  have hspec := toInt32_spec count
  rw [tdiv_toInt32 hcount]
  simp only
  rcases lt_or_ge (i * ((toInt32 count).toNat / secs) + (toInt32 count).toNat / secs) count
    with hlt | hge
  · rw [theRange_of_lt hlarge hlt, if_neg (not_le.mpr hlt)]
  · have hsmall : count < 2 ^ 31 := by omega
    have hself : (toInt32 count).toNat = count := by
      rw [toInt32_eq_self (by omega) (by omega), Int.toNat_natCast]
    have hinside := hstart hsmall
    rw [hself] at hend hge ⊢
    rw [theRange_of_ge hsmall (by omega) hge, if_pos hge]
    have hlength : toUInt64 (count - i * ((count / secs : ℕ) : ℤ) - 1) =
        count - i * (count / secs) - 1 := by
      rw [← Nat.cast_mul]
      generalize i * (count / secs) = start at *
      unfold toUInt64
      omega
    rw [hlength]

/-- An interval of no sample leaves every range empty. -/
theorem theRange_zero (hpos : 0 < count) (i : ℕ) : theRange count 0 i = ⟨0, 0⟩ := by
  simp [theRange, toUInt64, hpos.ne']

/-- With a negative interval the first range is already too long. -/
theorem not_inside_of_neg (hlarge : count < 2 ^ 62) {interval : ℤ}
    (hcount : toInt32 count < 0) (hinterval : interval < 0) (hlow : -2 ^ 31 ≤ interval) :
    ¬ (theRange count interval 0).Inside count := by
  have hspec := toInt32_spec count
  simp only [NSRange.Inside, theRange, toUInt64, Nat.cast_zero, zero_mul, zero_add, sub_zero]
  split_ifs <;> omega

/-- A count that became negative leaves no interval that the array has room for. -/
theorem tdiv_eq_zero_of_neg (hlarge : count < 2 ^ 62) (hneg : toInt32 count < 0)
    (hinside : (theRange count ((toInt32 count).tdiv secs) 0).Inside count) :
    (toInt32 count).tdiv secs = 0 := by
  have hspec := toInt32_spec count
  obtain ⟨k, hk⟩ := Int.eq_ofNat_of_zero_le (a := -toInt32 count) (by omega)
  obtain ⟨q, hinterval, hle⟩ : ∃ q : ℕ, (toInt32 count).tdiv secs = -(q : ℤ) ∧ q ≤ k := by
    refine ⟨k / secs, ?_, Nat.div_le_self _ _⟩
    rw [← neg_neg (toInt32 count), hk, Int.neg_tdiv, Int.ofNat_tdiv]
  by_contra hne
  exact not_inside_of_neg hlarge hneg (by omega) (by omega) hinside

end Windows

/-- Every round begins inside the array: the last one of a whole duration does,
the additional one of a fractional duration only if the seconds do not divide
the samples. -/
theorem forall_starts_iff (song : Duration) (count : ℕ) (hone : 1 ≤ song.seconds) :
    (∀ i ∈ indices song.seconds, i * (count / ⌊song.seconds⌋₊) < count) ↔
      0 < count ∧ ((⌊song.seconds⌋₊ : ℚ) = song.seconds ∨ count % ⌊song.seconds⌋₊ ≠ 0) := by
  have hsecs : 0 < ⌊song.seconds⌋₊ := Nat.floor_pos.mpr hone
  have hsplit := Nat.div_add_mod count ⌊song.seconds⌋₊
  constructor
  case mp =>
    intro h
    have hpos : 0 < count := by simpa using h 0 song.zero_mem_indices
    refine ⟨hpos, or_iff_not_imp_left.mpr fun hfraction hdvd => ?_⟩
    have hlast := h _ (song.floor_mem_indices hfraction)
    omega
  case mpr =>
    rintro ⟨hpos, hlast⟩ i hi
    have hlt := song.lt_of_mem_indices hi
    have hle : i ≤ ⌊song.seconds⌋₊ := Nat.le_floor hlt.le
    rcases hle.lt_or_eq with hbefore | rfl
    · -- a round of a whole second
      rcases Nat.eq_zero_or_pos (count / ⌊song.seconds⌋₊) with hzero | hinterval
      · rwa [hzero, Nat.mul_zero]
      · have hstart := Nat.mul_lt_mul_of_pos_right hbefore hinterval
        omega
    · rcases hlast with hwhole | hrest
      · exact absurd (hwhole ▸ hlt) (lt_irrefl _)
      · omega

/-- The recordings that are reduced without a fault, by their bytes and their
duration. -/
structure Safe (bytes : List UInt8) (seconds : ℚ) : Prop where
  whole_samples : 4 ∣ bytes.length
  one_le : 1 ≤ seconds
  lt : seconds < 2 ^ 31
  count_nonneg : 0 ≤ toInt32 (bytes.length / 4 : ℕ)
  starts : bytes.length / 4 < 2 ^ 31 → 0 < bytes.length / 4 ∧
    ((⌊seconds⌋₊ : ℚ) = seconds ∨ bytes.length / 4 % ⌊seconds⌋₊ ≠ 0)
  uneven : ∃ i ∈ indices seconds, ∃ j ∈ indices seconds,
    nearest 24 (sumSelf (window (decode bytes) ⌊seconds⌋₊ i)) ≠
      nearest 24 (sumSelf (window (decode bytes) ⌊seconds⌋₊ j))

/-- With a count that became negative either the first range is not inside the
array or all windows are empty. -/
theorem not_ok_of_neg (intValue : IntValue) {ary : List ℤ} (hlarge : ary.length < 2 ^ 62)
    (hneg : toInt32 ary.length < 0) (song : Duration) (hone : 1 ≤ song.seconds)
    (hlt : song.seconds < 2 ^ 31) {ranges : List NSRange} {points : List ℚ}
    (hranges : windowRanges ary.length song.seconds = .ok ranges) :
    normArrayHelper (nearest 24) intValue (ranges.map fun r => sumSelf (subarray ary r)) ≠
      .ok points := by
  intro hpoints
  rw [windowRanges_eq song _ hone hlt, ite_error_eq_ok] at hranges
  obtain ⟨hinside, rfl⟩ := hranges
  have hzero := tdiv_eq_zero_of_neg hlarge hneg (hinside 0 song.zero_mem_indices)
  have hpos : 0 < ary.length := by
    refine List.length_pos_iff.mpr ?_
    rintro rfl
    exact absurd hneg (by decide)
  rw [hzero] at hpoints
  have hsums : (((indices song.seconds).map (theRange ary.length 0)).map fun r =>
      sumSelf (subarray ary r)) ≠ [] := by
    simpa using List.ne_nil_of_mem song.zero_mem_indices
  obtain ⟨a, ha, b, hb, hne⟩ := (normArrayHelper_ok_iff intValue hsums).mp ⟨points, hpoints⟩
  simp only [List.map_map, List.mem_map, Function.comp_apply, theRange_zero hpos] at ha hb
  obtain ⟨i, -, rfl⟩ := ha
  obtain ⟨j, -, rfl⟩ := hb
  exact hne rfl

/-- With the conversions in order, the starts of the rounds and the sums of the
windows decide. -/
theorem ranges_ok_iff (intValue : IntValue) {ary : List ℤ} (hlarge : ary.length < 2 ^ 62)
    (hcount : 0 ≤ toInt32 ary.length) (song : Duration) (hone : 1 ≤ song.seconds)
    (hlt : song.seconds < 2 ^ 31) :
    (∃ points ranges, windowRanges ary.length song.seconds = .ok ranges ∧
      normArrayHelper (nearest 24) intValue (ranges.map fun r => sumSelf (subarray ary r)) =
        .ok points) ↔
      (ary.length < 2 ^ 31 → 0 < ary.length ∧
        ((⌊song.seconds⌋₊ : ℚ) = song.seconds ∨ ary.length % ⌊song.seconds⌋₊ ≠ 0)) ∧
      ∃ i ∈ indices song.seconds, ∃ j ∈ indices song.seconds,
        nearest 24 (sumSelf (window ary ⌊song.seconds⌋₊ i)) ≠
          nearest 24 (sumSelf (window ary ⌊song.seconds⌋₊ j)) := by
  have hle (i : ℕ) (hi : i ∈ indices song.seconds) : i ≤ ⌊song.seconds⌋₊ :=
    Nat.le_floor (song.lt_of_mem_indices hi).le
  have hinside : (∀ i ∈ indices song.seconds,
      (theRange ary.length ((toInt32 ary.length).tdiv ⌊song.seconds⌋₊) i).Inside ary.length) ↔
      (ary.length < 2 ^ 31 → 0 < ary.length ∧
        ((⌊song.seconds⌋₊ : ℚ) = song.seconds ∨ ary.length % ⌊song.seconds⌋₊ ≠ 0)) := by
    rw [← forall_starts_iff song ary.length hone]
    constructor
    · exact fun h hsmall i hi => (inside_iff hlarge hcount (hle i hi)).mp (h i hi) hsmall
    · exact fun h i hi => (inside_iff hlarge hcount (hle i hi)).mpr fun hsmall => h hsmall i hi
  have hsums (h : ∀ i ∈ indices song.seconds,
      (theRange ary.length ((toInt32 ary.length).tdiv ⌊song.seconds⌋₊) i).Inside ary.length) :
      ((indices song.seconds).map
          (theRange ary.length ((toInt32 ary.length).tdiv ⌊song.seconds⌋₊))).map
          (fun r => sumSelf (subarray ary r)) =
        (indices song.seconds).map fun i => sumSelf (window ary ⌊song.seconds⌋₊ i) := by
    rw [List.map_map]
    refine List.map_congr_left fun i hi => ?_
    rw [Function.comp_apply, theRange_eq hlarge hcount (hle i hi)
      ((inside_iff hlarge hcount (hle i hi)).mp (h i hi)), subarray, window]
  have hdata : ((indices song.seconds).map
      fun i => sumSelf (window ary ⌊song.seconds⌋₊ i)) ≠ [] := by
    simpa using List.ne_nil_of_mem song.zero_mem_indices
  have hnorm := normArrayHelper_ok_iff intValue hdata
  simp only [List.mem_map, exists_exists_and_eq_and] at hnorm
  rw [← hinside]
  constructor
  case mp =>
    rintro ⟨points, ranges, hranges, hpoints⟩
    rw [windowRanges_eq song _ hone hlt, ite_error_eq_ok] at hranges
    obtain ⟨h, rfl⟩ := hranges
    rw [hsums h] at hpoints
    exact ⟨h, hnorm.mp ⟨points, hpoints⟩⟩
  case mpr =>
    rintro ⟨h, huneven⟩
    obtain ⟨points, hpoints⟩ := hnorm.mpr huneven
    refine ⟨points, _, by rw [windowRanges_eq song _ hone hlt, if_pos h], ?_⟩
    rw [hsums h]
    exact hpoints

theorem arrayFromDataHelper_eq_ok (intValue : IntValue) (data : NSData) (song : Duration)
    {points : List ℚ} :
    arrayFromDataHelper intValue data song = .ok points ↔
      4 ∣ data.bytes.length ∧ ∃ ranges,
        windowRanges (decode data.bytes).length song.seconds = .ok ranges ∧
        normArrayHelper (nearest 24) intValue
          (ranges.map fun r => sumSelf (subarray (decode data.bytes) r)) = .ok points := by
  rw [arrayFromDataHelper, readSamples_eq]
  split_ifs with hdvd
  · cases hranges : windowRanges (decode data.bytes).length song.seconds with
    | error e => simp [bind, Except.bind, hranges]
    | ok ranges => simp [bind, Except.bind, hranges, hdvd]
  · simp [bind, Except.bind, hdvd]

theorem bounds_of_windowRanges {song : Duration} {count : ℕ} {ranges : List NSRange}
    (h : windowRanges count song.seconds = .ok ranges) :
    1 ≤ song.seconds ∧ song.seconds < 2 ^ 31 := by
  rw [windowRanges, floatToInt_seconds] at h
  split_ifs at h with hlt
  · refine ⟨?_, hlt⟩
    by_contra hsmall
    have hzero : ⌊song.seconds⌋₊ = 0 := Nat.floor_eq_zero.mpr (not_le.mp hsmall)
    simp [bind, Except.bind, intDivide, hzero] at h
  · simp [bind, Except.bind] at h

/-- The reduction goes through exactly for the recordings described. -/
theorem arrayFromDataHelper_ok_iff (intValue : IntValue) (data : NSData) (song : Duration) :
    (∃ points, arrayFromDataHelper intValue data song = .ok points) ↔
      Safe data.bytes song.seconds := by
  have hlength := length_decode data.bytes
  have hlarge : (decode data.bytes).length < 2 ^ 62 := by
    have hbytes := data.length_lt
    omega
  simp only [arrayFromDataHelper_eq_ok]
  constructor
  case mp =>
    rintro ⟨points, hdvd, ranges, hranges, hpoints⟩
    obtain ⟨hone, hlt⟩ := bounds_of_windowRanges hranges
    have hcount : 0 ≤ toInt32 (decode data.bytes).length := by
      by_contra hneg
      exact not_ok_of_neg intValue hlarge (not_le.mp hneg) song hone hlt hranges hpoints
    obtain ⟨hstarts, huneven⟩ := (ranges_ok_iff intValue hlarge hcount song hone hlt).mp
      ⟨points, ranges, hranges, hpoints⟩
    rw [hlength] at hcount hstarts
    exact ⟨hdvd, hone, hlt, hcount, hstarts, huneven⟩
  case mpr =>
    intro h
    have hcount := h.count_nonneg
    have hstarts := h.starts
    rw [← hlength] at hcount hstarts
    obtain ⟨points, ranges, hranges, hpoints⟩ :=
      (ranges_ok_iff intValue hlarge hcount song h.one_le h.lt).mpr ⟨hstarts, h.uneven⟩
    exact ⟨points, h.whole_samples, ranges, hranges, hpoints⟩

def Duration.twoAndAHalf : Duration where
  seconds := 5 / 2
  pos := by decide +kernel
  mem := ⟨5, -1, by decide, by decide +kernel⟩

/-- One 16-bit sample is half of what is read; four 32-bit samples in two and a
half seconds leave less than nothing for the third window. -/
theorem reduction_fails :
    arrayFromDataHelper .saturating ⟨[0, 0], by decide⟩ .twoAndAHalf = .error .outOfBounds ∧
      arrayFromDataHelper .saturating ⟨List.replicate 16 0, by decide⟩ .twoAndAHalf =
        .error .range := by
  decide +kernel

end Tootti.Waveform
