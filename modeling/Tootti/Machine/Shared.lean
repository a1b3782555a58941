import Tootti.Machine.Keyed

/-!
Arrays of references to mutable objects.

A copy of such an array has the same references, and an object that is
changed through one of them is changed for all, as often as it occurs. The
lemmas below say what the three loops over such an array do to the list of
values it stands for: removing every element equal to one of its own,
appending a new object, and changing the objects that satisfy a test.
-/

namespace Tootti.Machine

variable {α : Type*}

structure Shared (α : Type*) where
  cells : List α
  refs : List Nat
  valid : ∀ r ∈ refs, r < cells.length

/-- The values that references stand for. -/
def deref (cells : List α) (refs : List Nat) : List α := refs.filterMap (cells[·]?)

/-- The loop that changes, through each reference in turn, the objects that
pass the test by then. -/
def updateCells (p : α → Bool) (f : α → α) (refs : List Nat) (cells : List α) : List α :=
  refs.foldl (fun cells r => if (cells[r]?).any p then cells.modify r f else cells) cells

/-- The loop over the references `refs` that removes from a copy whatever is
equal to an object that passes the test. -/
def removeCells [DecidableEq α] (p : α → Bool) (cells : List α) (refs copy : List Nat) :
    List Nat :=
  refs.foldl (fun copy r =>
    if (cells[r]?).any p then copy.filter fun q => cells[q]? ≠ cells[r]? else copy) copy

theorem deref_cons (cells : List α) (r : Nat) (refs : List Nat) :
    deref cells (r :: refs) = (cells[r]?).toList ++ deref cells refs := by
  cases h : cells[r]? <;> simp [deref, h]

theorem deref_append (cells : List α) (refs refs' : List Nat) :
    deref cells (refs ++ refs') = deref cells refs ++ deref cells refs' :=
  List.filterMap_append

/-- References to older objects do not see a new one. -/
theorem deref_concat {cells : List α} {refs : List Nat} (hvalid : ∀ r ∈ refs, r < cells.length)
    (a : α) : deref (cells ++ [a]) refs = deref cells refs :=
  List.filterMap_congr fun r hr => List.getElem?_append_left (hvalid r hr)

section Update

variable {p : α → Bool} {f : α → α}

theorem length_updateCells (refs : List Nat) (cells : List α) :
    (updateCells p f refs cells).length = cells.length := by
  induction refs generalizing cells with
  | nil => rfl
  | cons r refs ih =>
      rw [updateCells, List.foldl_cons]
      refine (ih _).trans ?_
      split
      · exact List.length_modify f cells r
      · rfl

/-- An object that occurs is changed if it passes the test, once or more
often. -/
theorem getElem?_updateCells (hp : ∀ a, p (f a) = p a) (hf : ∀ a, f (f a) = f a)
    (refs : List Nat) (cells : List α) (j : Nat) :
    (updateCells p f refs cells)[j]? =
      (cells[j]?).map fun a => if j ∈ refs ∧ p a then f a else a := by
  induction refs generalizing cells with
  | nil => simp [updateCells]
  | cons r refs ih =>
      rw [updateCells, List.foldl_cons]
      refine (ih _).trans ?_
      cases hj : cells[j]? with
      | none =>
          have hsame : (if (cells[r]?).any p then cells.modify r f else cells)[j]? = none := by
            split
            · rw [List.getElem?_modify, hj]
              rfl
            · exact hj
          rw [hsame]
          rfl
      | some a =>
          by_cases hr : r = j
          · subst r
            cases ha : p a with
            | true =>
                have hchanged : (if (cells[j]?).any p then cells.modify j f else cells)[j]? =
                    some (f a) := by
                  rw [hj, Option.any_some, if_pos ha, List.getElem?_modify, hj]
                  simp
                simp [hchanged, hp, hf, ha]
            | false =>
                have hkept : (if (cells[j]?).any p then cells.modify j f else cells)[j]? =
                    some a := by
                  rw [hj, Option.any_some, if_neg (Bool.eq_false_iff.mp ha), hj]
                simp [hkept, ha]
          · have hkept : (if (cells[r]?).any p then cells.modify r f else cells)[j]? = some a := by
              split
              · rw [List.getElem?_modify, hj]
                simp [hr]
              · exact hj
            have hmem : (j ∈ r :: refs) ↔ j ∈ refs := by simp [Ne.symm hr]
            rw [hkept]
            simp only [Option.map_some, hmem]

theorem deref_updateCells (hp : ∀ a, p (f a) = p a) (hf : ∀ a, f (f a) = f a)
    (refs : List Nat) (cells : List α) :
    deref (updateCells p f refs cells) refs =
      (deref cells refs).map fun a => if p a then f a else a := by
  rw [deref, deref, List.map_filterMap]
  refine List.filterMap_congr fun r hr => ?_
  rw [getElem?_updateCells hp hf]
  simp [hr]

end Update

section Remove

variable [DecidableEq α] {p : α → Bool} {cells : List α}

theorem deref_filter_ne {r : Nat} {a : α} (ha : cells[r]? = some a) (copy : List Nat) :
    deref cells (copy.filter fun q => cells[q]? ≠ cells[r]?) =
      removeObject (deref cells copy) a := by
  induction copy with
  | nil => rfl
  | cons q copy ih =>
      have hsplit : removeObject (deref cells (q :: copy)) a =
          removeObject (cells[q]?).toList a ++ removeObject (deref cells copy) a := by
        rw [deref_cons, removeObject, List.filter_append]
        rfl
      rw [hsplit, ← ih, List.filter_cons]
      by_cases hq : cells[q]? = cells[r]?
      · have hremoved : removeObject (cells[q]?).toList a = [] := by simp [hq, ha, removeObject]
        rw [if_neg (by simpa using hq), hremoved, List.nil_append]
      · have hkept : removeObject (cells[q]?).toList a = (cells[q]?).toList := by
          cases hb : cells[q]? with
          | none => rfl
          | some b =>
              have hne : b ≠ a := by
                rintro rfl
                exact hq (hb.trans ha.symm)
              simp [hne, removeObject]
        rw [if_pos (by simpa using hq), deref_cons, hkept]

theorem mem_removeCells {refs copy : List Nat} {q : Nat}
    (h : q ∈ removeCells p cells refs copy) : q ∈ copy := by
  induction refs generalizing copy with
  | nil => exact h
  | cons r refs ih =>
      rw [removeCells, List.foldl_cons] at h
      have hrest := ih h
      split at hrest
      · exact (List.mem_filter.mp hrest).1
      · exact hrest

/-- On the values, the loop removes the objects that pass the test, one by
one. -/
theorem deref_removeCells (refs copy : List Nat) :
    deref cells (removeCells p cells refs copy) =
      (deref cells refs).foldl (fun copy a => if p a then removeObject copy a else copy)
        (deref cells copy) := by
  induction refs generalizing copy with
  | nil => rfl
  | cons r refs ih =>
      rw [removeCells, List.foldl_cons, deref_cons, List.foldl_append]
      refine (ih _).trans ?_
      congr 1
      cases ha : cells[r]? with
      | none => rfl
      | some a =>
          cases hp : p a with
          | true =>
              simp only [Option.any_some, hp, if_true, Option.toList_some, List.foldl_cons,
                List.foldl_nil]
              rw [← ha]
              exact deref_filter_ne ha copy
          | false => simp [hp]

end Remove

namespace Shared

def value (x : Shared α) : List α := deref x.cells x.refs

/-- New objects for all values. -/
def ofList (l : List α) : Shared α :=
  ⟨l, List.range l.length, fun _ hr => List.mem_range.mp hr⟩

def addNew (a : α) (x : Shared α) : Shared α where
  cells := x.cells ++ [a]
  refs := x.refs ++ [x.cells.length]
  valid r hr := by
    rw [List.length_append, List.length_singleton]
    rcases List.mem_append.mp hr with hr | hr
    · exact Nat.lt_succ_of_lt (x.valid r hr)
    · rw [List.mem_singleton.mp hr]
      exact Nat.lt_succ_self _

def update (p : α → Bool) (f : α → α) (x : Shared α) : Shared α where
  cells := updateCells p f x.refs x.cells
  refs := x.refs
  valid r hr := by
    rw [length_updateCells]
    exact x.valid r hr

def remove [DecidableEq α] (p : α → Bool) (x : Shared α) : Shared α where
  cells := x.cells
  refs := removeCells p x.cells x.refs x.refs
  valid r hr := x.valid r (mem_removeCells hr)

@[simp] theorem value_ofList (l : List α) : (ofList l).value = l :=
  filterMap_getElem?_range l

@[simp] theorem value_addNew (a : α) (x : Shared α) : (x.addNew a).value = x.value ++ [a] := by
  have hnew : deref (x.cells ++ [a]) [x.cells.length] = [a] := by
    rw [deref_cons, List.getElem?_concat_length]
    rfl
  rw [value, addNew, deref_append, deref_concat x.valid, hnew]
  rfl

theorem value_update {p : α → Bool} {f : α → α} (hp : ∀ a, p (f a) = p a)
    (hf : ∀ a, f (f a) = f a) (x : Shared α) :
    (x.update p f).value = x.value.map fun a => if p a then f a else a :=
  deref_updateCells hp hf x.refs x.cells

theorem value_remove [DecidableEq α] (p : α → Bool) (x : Shared α) :
    (x.remove p).value =
      x.value.foldl (fun copy a => if p a then removeObject copy a else copy) x.value :=
  deref_removeCells x.refs x.refs

end Shared

end Tootti.Machine
