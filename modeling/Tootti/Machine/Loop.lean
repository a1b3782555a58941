import Mathlib.Data.Option.Basic
import Mathlib.Data.Nat.Find
import Mathlib.Logic.Function.Iterate

/-!
Loops.

A while loop is given by its test and its body. It is run with fuel, so that it
can be evaluated; a loop ends in a state if some amount of fuel leads there. The
rule for a loop asks for an invariant and a measure that each round lowers,
and gives a state in which the loop ends, in which the invariant holds and the
test fails. Where the states after each round are known, the loop ends exactly
if the test fails in one of them, and ends in the first of these.

A loop over a list that raises in a round in which something is out of order
gets through the list exactly if nothing is.
-/

namespace Tootti.Machine

variable {σ : Type*}

def loop (guard : σ → Bool) (body : σ → σ) : Nat → σ → Option σ
  | 0, _ => none
  | fuel + 1, s => if guard s then loop guard body fuel (body s) else some s

def Ends (guard : σ → Bool) (body : σ → σ) (s t : σ) : Prop :=
  ∃ fuel, loop guard body fuel s = some t

variable {guard : σ → Bool} {body : σ → σ} {s t t' : σ}

theorem loop_of_guard {fuel : Nat} (h : guard s = true) :
    loop guard body (fuel + 1) s = loop guard body fuel (body s) := by
  rw [loop, if_pos h]

theorem loop_of_not_guard {fuel : Nat} (h : guard s = false) :
    loop guard body (fuel + 1) s = some s := by
  rw [loop, if_neg (by simp [h])]

theorem loop_mono {m n : Nat} (h : loop guard body m s = some t) (hmn : m ≤ n) :
    loop guard body n s = some t := by
  induction m generalizing s n with
  | zero => simp [loop] at h
  | succ m ih =>
      obtain ⟨n, rfl⟩ : ∃ n', n = n' + 1 := ⟨n - 1, by omega⟩
      cases hguard : guard s with
      | false =>
          rw [loop_of_not_guard hguard] at h ⊢
          exact h
      | true =>
          rw [loop_of_guard hguard] at h ⊢
          exact ih h (by omega)

theorem Ends.of_not_guard (h : guard s = false) : Ends guard body s s :=
  ⟨1, loop_of_not_guard h⟩

theorem Ends.of_guard (h : guard s = true) (hends : Ends guard body (body s) t) :
    Ends guard body s t := by
  obtain ⟨fuel, hfuel⟩ := hends
  exact ⟨fuel + 1, (loop_of_guard h).trans hfuel⟩

theorem Ends.unique (h : Ends guard body s t) (h' : Ends guard body s t') : t = t' := by
  obtain ⟨m, hm⟩ := h
  obtain ⟨n, hn⟩ := h'
  have hm' := loop_mono hm (Nat.le_max_left m n)
  have hn' := loop_mono hn (Nat.le_max_right m n)
  exact Option.some.inj (hm'.symm.trans hn')

/-- What is computed of the state in which a loop ends. -/
theorem exists_map_loop_iff {α : Type*} {f : σ → α} {a : α} :
    (∃ fuel, (loop guard body fuel s).map f = some a) ↔ ∃ t, Ends guard body s t ∧ f t = a := by
  simp only [Option.map_eq_some_iff, Ends]
  rw [exists_comm]
  simp only [exists_and_right]

/-- The rule for a loop whose rounds keep `I` and lower `μ`. -/
theorem ends_of_invariant {I : σ → Prop} (μ : σ → Nat)
    (hbody : ∀ s, I s → guard s = true → I (body s) ∧ μ (body s) < μ s) (hs : I s) :
    ∃ t, Ends guard body s t ∧ I t ∧ guard t = false := by
  induction hμ : μ s using Nat.strongRecOn generalizing s with
  | ind n ih =>
      cases hguard : guard s with
      | false => exact ⟨s, Ends.of_not_guard hguard, hs, hguard⟩
      | true =>
          obtain ⟨hI, hlt⟩ := hbody s hs hguard
          obtain ⟨t, hends, ht⟩ := ih (μ (body s)) (hμ ▸ hlt) hI rfl
          exact ⟨t, Ends.of_guard hguard hends, ht⟩

/-! ### Rounds -/

theorem ends_iff_iterate :
    Ends guard body s t ↔
      ∃ n, body^[n] s = t ∧ guard t = false ∧ ∀ m < n, guard (body^[m] s) = true := by
  constructor
  case mp =>
    rintro ⟨fuel, hfuel⟩
    induction fuel generalizing s with
    | zero => simp [loop] at hfuel
    | succ fuel ih =>
        cases hguard : guard s with
        | false =>
            rw [loop_of_not_guard hguard] at hfuel
            obtain rfl := Option.some.inj hfuel
            exact ⟨0, rfl, hguard, fun m hm => absurd hm (Nat.not_lt_zero m)⟩
        | true =>
            rw [loop_of_guard hguard] at hfuel
            obtain ⟨n, hn, hfalse, hbefore⟩ := ih hfuel
            refine ⟨n + 1, hn, hfalse, fun m hm => ?_⟩
            cases m with
            | zero => exact hguard
            | succ m => exact hbefore m (Nat.lt_of_succ_lt_succ hm)
  case mpr =>
    rintro ⟨n, hn, hfalse, hbefore⟩
    induction n generalizing s with
    | zero =>
        obtain rfl : s = t := hn
        exact .of_not_guard hfalse
    | succ n ih =>
        refine .of_guard (hbefore 0 (Nat.zero_lt_succ n)) (ih hn fun m hm => ?_)
        exact hbefore (m + 1) (Nat.succ_lt_succ hm)

theorem exists_ends_iff : (∃ t, Ends guard body s t) ↔ ∃ n, guard (body^[n] s) = false := by
  constructor
  case mp =>
    rintro ⟨t, hends⟩
    obtain ⟨n, rfl, hfalse, -⟩ := ends_iff_iterate.mp hends
    exact ⟨n, hfalse⟩
  case mpr =>
    intro h
    refine ⟨_, ends_iff_iterate.mpr ⟨Nat.find h, rfl, Nat.find_spec h, fun m hm => ?_⟩⟩
    simpa using Nat.find_min h hm

/-! ### Loops that can raise -/

section Raise

variable {ε α β : Type*} {e : ε} {p : α → Prop} [DecidablePred p] {g : α → β}

theorem mapM_ite_error (e : ε) (g : α → β) (xs : List α) :
    (xs.mapM fun x => if p x then Except.ok (g x) else Except.error e) =
      if ∀ x ∈ xs, p x then Except.ok (xs.map g) else Except.error e := by
  induction xs with
  | nil => simp [pure, Except.pure]
  | cons x xs ih =>
      rw [List.mapM_cons, ih]
      by_cases hx : p x
      · by_cases hxs : ∀ y ∈ xs, p y
        · rw [if_pos hx, if_pos hxs, if_pos (List.forall_mem_cons.mpr ⟨hx, hxs⟩)]
          rfl
        · rw [if_pos hx, if_neg hxs, if_neg fun h => hxs (List.forall_mem_cons.mp h).2]
          rfl
      · rw [if_neg hx, if_neg fun h => hx (List.forall_mem_cons.mp h).1]
        rfl

theorem isSome_mapM {f : α → Option β} {xs : List α} (h : ∀ x ∈ xs, (f x).isSome) :
    (xs.mapM f).isSome := by
  induction xs with
  | nil => rfl
  | cons x xs ih =>
      rw [List.forall_mem_cons] at h
      have hrest := ih h.2
      rw [List.mapM_cons]
      cases hx : f x with
      | none => simp [hx] at h
      | some b =>
          cases hxs : xs.mapM f with
          | none => simp [hxs] at hrest
          | some bs => rfl

theorem ite_error_eq_ok {q : Prop} [Decidable q] {a b : β} :
    (if q then Except.ok a else Except.error e) = Except.ok b ↔ q ∧ a = b := by
  split <;> simp [*]

end Raise

end Tootti.Machine
