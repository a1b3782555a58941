import Mathlib.Data.List.Induction
import Mathlib.Logic.Function.Basic

/-!
Names made of components, and stores that are addressed by names.

A name is cut at a separator, and empty components do not count. Joining the
components gives one name to all that have the same, and different names to
those that have not.

In a store whose names tell apart what has different keys, what stands under
a name is what was last put there under the key.
-/

namespace Tootti.Machine

section Components

variable {α : Type*} [DecidableEq α] {a : α} {xs : List α}

def components (a : α) (xs : List α) : List (List α) := (xs.splitOn a).filter (· ≠ [])

theorem not_mem_of_mem_splitOn {c : List α} (hc : c ∈ xs.splitOn a) : a ∉ c := by
  induction xs generalizing c with
  | nil =>
      rw [List.splitOn_nil, List.mem_singleton] at hc
      subst hc
      exact List.not_mem_nil
  | cons x xs ih =>
      rw [List.splitOn_cons_eq_if_modifyHead] at hc
      split at hc
      · rcases List.mem_cons.mp hc with rfl | hc
        · exact List.not_mem_nil
        · exact ih hc
      · rename_i hx
        have hxa : a ≠ x := fun h => hx (beq_iff_eq.mpr h.symm)
        cases hs : xs.splitOn a with
        | nil => exact absurd hs (List.splitOn_ne_nil a xs)
        | cons first rest =>
            rw [hs] at ih hc
            rcases List.mem_cons.mp hc with rfl | hc
            · exact List.not_mem_cons_of_ne_of_not_mem hxa (ih List.mem_cons_self)
            · exact ih (List.mem_cons_of_mem _ hc)

theorem components_spec {c : List α} (hc : c ∈ components a xs) : c ≠ [] ∧ a ∉ c := by
  obtain ⟨hmem, hne⟩ := List.mem_filter.mp hc
  exact ⟨of_decide_eq_true hne, not_mem_of_mem_splitOn hmem⟩

theorem components_append_cons (xs ys : List α) :
    components a (xs ++ a :: ys) = components a xs ++ components a ys := by
  rw [components, List.splitOn_append_cons_self, List.filter_append]
  rfl

theorem components_of_not_mem (ha : a ∉ xs) (hne : xs ≠ []) : components a xs = [xs] := by
  rw [components, List.splitOn_eq_singleton ha]
  simp [hne]

theorem components_intercalate {cs : List (List α)} (h : ∀ c ∈ cs, c ≠ [] ∧ a ∉ c) :
    components a ([a].intercalate cs) = cs := by
  cases cs with
  | nil => rfl
  | cons c cs =>
      rw [components, List.splitOn_intercalate a (fun c hc => (h c hc).2) (List.cons_ne_nil _ _)]
      exact List.filter_eq_self.mpr fun c hc => decide_eq_true (h c hc).1

end Components

/-! ### Stores -/

section Stores

variable {τ ν κ γ : Type*} [DecidableEq ν] [DecidableEq κ]

/-- What is put under the name of an item, if anything. -/
structure Put (τ γ : Type*) where
  item : τ
  content : Option γ

/-- The store in which the contents are put one after the other. -/
def storeOf (name : τ → ν) (ps : List (Put τ γ)) : ν → Option γ :=
  ps.foldl (fun store p => Function.update store (name p.item) p.content) fun _ => none

/-- What was last put under a key. -/
def lastPut (key : τ → κ) (ps : List (Put τ γ)) (t : τ) : Option γ :=
  (ps.reverse.find? fun p => key p.item = key t).bind Put.content

theorem storeOf_concat (name : τ → ν) (ps : List (Put τ γ)) (p : Put τ γ) :
    storeOf name (ps ++ [p]) = Function.update (storeOf name ps) (name p.item) p.content := by
  rw [storeOf, List.foldl_append]
  rfl

/-- A store addressed by names holds what was last put under the key, if two
items have one name exactly if they have one key. -/
theorem storeOf_name {name : τ → ν} {key : τ → κ} (h : ∀ t t', name t = name t' ↔ key t = key t')
    (ps : List (Put τ γ)) (t : τ) : storeOf name ps (name t) = lastPut key ps t := by
  induction ps using List.reverseRecOn with
  | nil => rfl
  | append_singleton ps p ih =>
      rw [storeOf_concat, lastPut, List.reverse_append, List.reverse_singleton,
        List.singleton_append, List.find?_cons]
      by_cases hkey : key p.item = key t
      · simp [hkey, (h _ _).mpr hkey]
      · have hname : name t ≠ name p.item := fun heq => hkey ((h _ _).mp heq.symm)
        rw [Function.update_of_ne hname]
        simp only [hkey, decide_false]
        exact ih

end Stores

end Tootti.Machine
