import Mathlib.Data.List.Nodup
import Tootti.Machine.Keyed

/-!
Lists of what a table highlights.

A table shows a list of rows and highlights some of its places. Its owner is
told which row is selected or deselected, one at a time, and keeps a list of
the rows' elements beside the table. The list is right when it has what the
highlighted rows show, each once, and nothing else. Selecting and deselecting
keep it right as long as no two rows are equal; what else changes the rows or
the highlighting keeps it right only under the conditions below.
-/

namespace Tootti.Machine

structure Table (α : Type*) where
  rows : List α
  selected : List α
  /-- The places that are highlighted, whether or not a row is there. -/
  highlighted : List Nat

namespace Table

variable {α : Type*}

def Highlights (t : Table α) (a : α) : Prop := ∃ i ∈ t.highlighted, t.rows[i]? = some a

structure Faithful (t : Table α) : Prop where
  once : t.selected.Nodup
  mem_iff : ∀ a, a ∈ t.selected ↔ t.Highlights a

def select (t : Table α) (i : Nat) (a : α) : Table α :=
  { t with selected := t.selected ++ [a], highlighted := t.highlighted ++ [i] }

def deselect [DecidableEq α] (t : Table α) (i : Nat) (a : α) : Table α :=
  { t with selected := removeObject t.selected a, highlighted := removeObject t.highlighted i }

/-- The element goes from the list, and the table is not told. -/
def forget [DecidableEq α] (t : Table α) (a : α) : Table α :=
  { t with selected := removeObject t.selected a }

/-- The rows are replaced, and the table keeps its highlighted places. -/
def replace (t : Table α) (rows : List α) : Table α := { t with rows }

def reload (t : Table α) : Table α := { t with highlighted := [] }

variable {t : Table α} {i : Nat} {a : α} {rows new : List α}

theorem Highlights.mem_rows (h : t.Highlights a) : a ∈ t.rows := by
  obtain ⟨i, -, hi⟩ := h
  exact List.mem_of_getElem? hi

theorem Faithful.mem_rows (h : t.Faithful) (ha : a ∈ t.selected) : a ∈ t.rows :=
  ((h.mem_iff a).mp ha).mem_rows

theorem faithful_empty (highlighted : List Nat) : (⟨[], [], highlighted⟩ : Table α).Faithful :=
  ⟨List.nodup_nil, by simp [Highlights]⟩

/-- Equal rows are at one place. -/
theorem place_unique (hrows : t.rows.Nodup) {j : Nat} (hi : t.rows[i]? = some a)
    (hj : t.rows[j]? = some a) : i = j :=
  (List.getElem?_inj (List.getElem?_eq_some_iff.mp hi).1 hrows).mp (hi.trans hj.symm)

theorem Faithful.select (h : t.Faithful) (hrows : t.rows.Nodup) (hi : t.rows[i]? = some a)
    (hnew : i ∉ t.highlighted) : (t.select i a).Faithful := by
  have hother : a ∉ t.selected := by
    intro ha
    obtain ⟨j, hj, hja⟩ := (h.mem_iff a).mp ha
    exact hnew (place_unique hrows hi hja ▸ hj)
  refine ⟨?_, fun b => ?_⟩
  · have hconcat := List.Nodup.concat hother h.once
    rwa [List.concat_eq_append] at hconcat
  · have hlast : b = a ↔ t.rows[i]? = some b := by rw [hi, Option.some.injEq, eq_comm]
    simp only [Table.select, Highlights, List.mem_append, List.mem_singleton, h.mem_iff, hlast,
      or_and_right, exists_or, exists_eq_left]

theorem Faithful.deselect [DecidableEq α] (h : t.Faithful) (hrows : t.rows.Nodup)
    (hi : t.rows[i]? = some a) : (t.deselect i a).Faithful := by
  refine ⟨h.once.sublist List.filter_sublist, fun b => ?_⟩
  simp only [Table.deselect, Highlights, mem_removeObject, h.mem_iff]
  constructor
  · rintro ⟨⟨j, hj, hjb⟩, hba⟩
    refine ⟨j, ⟨hj, ?_⟩, hjb⟩
    rintro rfl
    exact hba (Option.some.inj (hjb.symm.trans hi))
  · rintro ⟨j, ⟨hj, hji⟩, hjb⟩
    refine ⟨⟨j, hj, hjb⟩, ?_⟩
    rintro rfl
    exact hji (place_unique hrows hjb hi)

/-- Clearing the highlighting is right only where nothing is selected. -/
theorem faithful_reload_iff : t.reload.Faithful ↔ t.selected = [] := by
  constructor
  · intro h
    refine List.eq_nil_iff_forall_not_mem.mpr fun a ha => ?_
    obtain ⟨i, hi, -⟩ := (h.mem_iff a).mp ha
    exact absurd hi List.not_mem_nil
  · intro hnil
    exact ⟨hnil ▸ List.nodup_nil, by simp [reload, hnil, Highlights]⟩

theorem faithful_forget_iff [DecidableEq α] (h : t.Faithful) :
    (t.forget a).Faithful ↔ a ∉ t.selected := by
  constructor
  · intro hforget ha
    have hstill : a ∈ removeObject t.selected a :=
      (hforget.mem_iff a).mpr ((h.mem_iff a).mp ha)
    exact (mem_removeObject.mp hstill).2 rfl
  · intro ha
    have hsame : t.forget a = t := by rw [forget, removeObject_eq_self_iff.mpr ha]
    rw [hsame]
    exact h

/-- New rows under the same highlighting are right if the highlighted places
show what they showed. -/
theorem faithful_replace_iff (h : t.Faithful) :
    (t.replace rows).Faithful ↔ ∀ a, (t.replace rows).Highlights a ↔ t.Highlights a := by
  constructor
  · intro hnew a
    rw [← hnew.mem_iff a, ← h.mem_iff a]
    rfl
  · intro hsame
    exact ⟨h.once, fun a => (h.mem_iff a).trans (hsame a).symm⟩

/-- Rows that are added at the end have to be added where nothing is
highlighted. -/
theorem faithful_append_iff (h : t.Faithful) (hnew : ∀ a ∈ new, a ∉ t.rows) :
    (t.replace (t.rows ++ new)).Faithful ↔
      ∀ i ∈ t.highlighted, i < t.rows.length + new.length → i < t.rows.length := by
  rw [faithful_replace_iff h]
  constructor
  · intro hsame i hi hlt
    by_contra hge
    have hlast : i - t.rows.length < new.length := by omega
    have hrow : (t.rows ++ new)[i]? = some new[i - t.rows.length] := by
      rw [List.getElem?_append_right (Nat.le_of_not_lt hge), List.getElem?_eq_getElem hlast]
    have hold := (hsame _).mp ⟨i, hi, hrow⟩
    exact hnew _ (List.getElem_mem hlast) hold.mem_rows
  · intro hplaces a
    constructor
    · rintro ⟨i, hi, hrow⟩
      have hlt := (List.getElem?_eq_some_iff.mp hrow).1
      have hold := hplaces i hi (List.length_append ▸ hlt)
      exact ⟨i, hi, (List.getElem?_append_left hold).symm.trans hrow⟩
    · rintro ⟨i, hi, hrow⟩
      have hold := (List.getElem?_eq_some_iff.mp hrow).1
      exact ⟨i, hi, (List.getElem?_append_left hold).trans hrow⟩

end Table

end Tootti.Machine
