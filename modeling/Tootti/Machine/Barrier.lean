import Mathlib.Data.List.Basic

/-!
A counter that fires when it reaches a threshold and then starts again from
zero. The threshold may be another one at every count.
-/

namespace Tootti.Machine

structure Barrier where
  count : Nat
  fired : Nat
  deriving DecidableEq, Repr

namespace Barrier

/-- One count, while the threshold is `m`. -/
def tick (b : Barrier) (m : Nat) : Barrier :=
  if m ≤ b.count + 1 then ⟨0, b.fired + 1⟩ else ⟨b.count + 1, b.fired⟩

/-- Counting on from `c`, every threshold is met below it. -/
def Below (c : Nat) (ms : List Nat) : Prop := ∀ i m, ms[i]? = some m → c + i + 1 < m

theorem below_nil (c : Nat) : Below c [] := fun i m h => by simp at h

theorem below_cons {c m : Nat} {ms : List Nat} :
    Below c (m :: ms) ↔ c + 1 < m ∧ Below (c + 1) ms := by
  constructor
  · intro h
    refine ⟨h 0 m rfl, fun i k hk => ?_⟩
    have hnext := h (i + 1) k hk
    omega
  · rintro ⟨hm, h⟩ i k hk
    cases i with
    | zero =>
        obtain rfl := Option.some.inj hk
        exact hm
    | succ i =>
        have hnext := h i k hk
        omega

theorem fired_le_tick (b : Barrier) (m : Nat) : b.fired ≤ (b.tick m).fired := by
  rw [tick]
  split
  · exact Nat.le_succ b.fired
  · exact Nat.le_refl b.fired

theorem fired_le_foldl (b : Barrier) (ms : List Nat) : b.fired ≤ (ms.foldl tick b).fired := by
  induction ms generalizing b with
  | nil => exact Nat.le_refl b.fired
  | cons m ms ih => exact Nat.le_trans (fired_le_tick b m) (ih (b.tick m))

/-- It has not fired exactly if it was below every threshold. -/
theorem fired_foldl_eq_iff {b : Barrier} {ms : List Nat} :
    (ms.foldl tick b).fired = b.fired ↔ Below b.count ms := by
  induction ms generalizing b with
  | nil => exact iff_of_true rfl (below_nil b.count)
  | cons m ms ih =>
      rw [List.foldl_cons, below_cons, tick]
      split
      · rename_i hreached
        refine iff_of_false (fun heq => ?_) fun h => by omega
        have hle := fired_le_foldl ⟨0, b.fired + 1⟩ ms
        simp only at hle
        omega
      · rename_i hbelow
        rw [ih]
        exact ⟨fun h => ⟨by omega, h⟩, fun h => h.2⟩

theorem fired_foldl_eq_succ_iff {b : Barrier} {ms : List Nat} :
    (ms.foldl tick b).fired = b.fired + 1 ↔
      ∃ l m r, ms = l ++ m :: r ∧ Below b.count l ∧ m ≤ b.count + l.length + 1 ∧ Below 0 r := by
  induction ms generalizing b with
  | nil => simp
  | cons m ms ih =>
      rw [List.foldl_cons, tick]
      split
      · rename_i hreached
        have hrest : (ms.foldl tick ⟨0, b.fired + 1⟩).fired = b.fired + 1 ↔ Below 0 ms :=
          fired_foldl_eq_iff
        rw [hrest]
        constructor
        · exact fun h => ⟨[], m, ms, rfl, below_nil b.count, hreached, h⟩
        · rintro ⟨l, k, r, heq, hl, -, hr⟩
          cases l with
          | nil =>
              obtain ⟨-, rfl⟩ := List.cons.inj heq
              exact hr
          | cons x l =>
              obtain ⟨rfl, -⟩ := List.cons.inj heq
              have hx := (below_cons.mp hl).1
              omega
      · rename_i hbelow
        rw [ih]
        constructor
        · rintro ⟨l, k, r, rfl, hl, hk, hr⟩
          refine ⟨m :: l, k, r, rfl, below_cons.mpr ⟨by omega, hl⟩, ?_, hr⟩
          simp only [List.length_cons] at hk ⊢
          omega
        · rintro ⟨l, k, r, heq, hl, hk, hr⟩
          cases l with
          | nil =>
              obtain ⟨rfl, -⟩ := List.cons.inj heq
              simp only [List.length_nil] at hk
              omega
          | cons x l =>
              obtain ⟨rfl, rfl⟩ := List.cons.inj heq
              refine ⟨l, k, r, rfl, (below_cons.mp hl).2, ?_, hr⟩
              rw [List.length_cons] at hk
              show k ≤ b.count + 1 + l.length + 1
              omega

end Barrier

end Tootti.Machine
