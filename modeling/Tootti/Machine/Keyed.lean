import Mathlib.Data.List.Basic

/-!
Lists whose entries carry a key, with any number of entries for one key.

`own k l` is the subsequence of the entries with key `k`. Removing a key,
appending an entry and changing the entries of a key act on the subsequence
of that key and on no other; the lemmas say so operation by operation, which
is what a statement of the form "nobody else's entry is touched" needs.
-/

namespace Tootti.Machine

variable {α κ : Type*} [DecidableEq κ]

section Own

variable (key : α → κ)

def own (k : κ) (l : List α) : List α := l.filter fun x => key x = k

def dropKey (k : κ) (l : List α) : List α := l.filter fun x => key x ≠ k

def updateKey (k : κ) (f : α → α) (l : List α) : List α :=
  l.map fun x => if key x = k then f x else x

variable {key} {k j : κ} {l m : List α}

theorem mem_own {x : α} : x ∈ own key k l ↔ x ∈ l ∧ key x = k := by
  simp [own]

theorem own_eq_nil : own key k l = [] ↔ ∀ x ∈ l, key x ≠ k := by
  simp [own, List.filter_eq_nil_iff]

@[simp] theorem own_append : own key k (l ++ m) = own key k l ++ own key k m := by
  simp [own]

theorem own_singleton_self {x : α} (h : key x = k) : own key k [x] = [x] := by
  simp [own, h]

theorem own_singleton_of_ne {x : α} (h : key x ≠ k) : own key k [x] = [] := by
  simp [own, h]

@[simp] theorem own_dropKey_self : own key k (dropKey key k l) = [] := by
  simp [own_eq_nil, dropKey]

theorem own_dropKey_of_ne (h : j ≠ k) : own key j (dropKey key k l) = own key j l := by
  simp only [own, dropKey, List.filter_filter]
  refine List.filter_congr fun x _ => ?_
  by_cases hx : key x = j
  · simp [hx, h]
  · simp [hx]

theorem own_updateKey_self {f : α → α} (hf : ∀ x, key (f x) = key x) :
    own key k (updateKey key k f l) = (own key k l).map f := by
  induction l with
  | nil => rfl
  | cons x l ih =>
      simp only [own, updateKey] at ih ⊢
      by_cases hx : key x = k <;> simp [hx, hf, ih]

theorem own_updateKey_of_ne {f : α → α} (hf : ∀ x, key (f x) = key x) (h : j ≠ k) :
    own key j (updateKey key k f l) = own key j l := by
  induction l with
  | nil => rfl
  | cons x l ih =>
      simp only [own, updateKey] at ih ⊢
      by_cases hx : key x = k
      · have hj : key x ≠ j := fun hj => h (hj.symm.trans hx)
        simp [hx, hf, ih, h.symm]
      · by_cases hj : key x = j
        · simp [hj, h, ih]
        · simp [hx, hj, ih]

/-- Changing the entries of a key and dropping them is dropping them. -/
theorem dropKey_updateKey {f : α → α} (hf : ∀ x, key (f x) = key x) :
    dropKey key k (updateKey key k f l) = dropKey key k l := by
  induction l with
  | nil => rfl
  | cons x l ih =>
      simp only [dropKey, updateKey, ne_eq, decide_not] at ih ⊢
      by_cases hx : key x = k <;> simp [hx, hf, ih]

theorem updateKey_dropKey {f : α → α} : updateKey key k f (dropKey key k l) = dropKey key k l := by
  have hsame : ∀ x ∈ dropKey key k l, (if key x = k then f x else x) = x := by
    intro x hx
    have hne : key x ≠ k := by simpa using (List.mem_filter.mp hx).2
    exact if_neg hne
  exact (List.map_congr_left hsame).trans (List.map_id _)

/-- Two lists agree on the keys satisfying `p` if they agree on those of them
that occur in one of the lists. -/
theorem forall_own_eq_iff {p : κ → Prop} :
    (∀ k, p k → own key k l = own key k m) ↔
      ∀ k ∈ (l ++ m).map key, p k → own key k l = own key k m := by
  refine ⟨fun h k _ hk => h k hk, fun h k hk => ?_⟩
  by_cases hmem : k ∈ (l ++ m).map key
  · exact h k hmem hk
  · have hnone : ∀ x ∈ l ++ m, key x ≠ k := fun x hx hxk => hmem (List.mem_map.mpr ⟨x, hx, hxk⟩)
    rw [own_eq_nil.mpr fun x hx => hnone x (List.mem_append_left m hx),
      own_eq_nil.mpr fun x hx => hnone x (List.mem_append_right l hx)]

end Own

section RemoveObject

variable [DecidableEq α]

/-- `removeObject:` of a mutable array takes out every element equal to its
argument, not only the first. -/
def removeObject (l : List α) (x : α) : List α := l.filter fun y => y ≠ x

@[simp] theorem mem_removeObject {l : List α} {x y : α} :
    y ∈ removeObject l x ↔ y ∈ l ∧ y ≠ x := by
  simp [removeObject]

theorem removeObject_eq_self_iff {l : List α} {x : α} : removeObject l x = l ↔ x ∉ l := by
  rw [removeObject, List.filter_eq_self]
  refine ⟨fun h hx => ?_, fun h y hy => ?_⟩
  · exact of_decide_eq_true (h x hx) rfl
  · exact decide_eq_true fun heq => h (heq ▸ hy)

theorem removeObject_eq_nil_iff {l : List α} {x : α} : removeObject l x = [] ↔ ∀ y ∈ l, y = x := by
  simp [removeObject]

end RemoveObject

section RemoveEqual

variable {β : Type*} {value : α → β}

/-- Two tests that see only the value keep equal lists exactly if they agree. -/
theorem map_filter_eq_iff {p q : α → Bool} {l : List α}
    (hp : ∀ x y, value x = value y → p x = p y) (hq : ∀ x y, value x = value y → q x = q y) :
    (l.filter p).map value = (l.filter q).map value ↔ ∀ x ∈ l, p x = q x := by
  have hmem {r : α → Bool} (hr : ∀ x y, value x = value y → r x = r y) {x : α} (hx : x ∈ l) :
      value x ∈ (l.filter r).map value ↔ r x = true := by
    constructor
    · intro h
      obtain ⟨y, hy, hyx⟩ := List.mem_map.mp h
      rw [← hr y x hyx]
      exact (List.mem_filter.mp hy).2
    · exact fun h => List.mem_map_of_mem (List.mem_filter.mpr ⟨hx, h⟩)
  constructor
  · intro h x hx
    rw [Bool.eq_iff_iff, ← hmem hp hx, ← hmem hq hx, h]
  · intro h
    rw [List.filter_congr h]

variable [DecidableEq β]

/-- `removeObject:` where two objects can be equal without being the same: it
takes out every element with the same value as its argument. -/
def removeEqual (value : α → β) (l : List α) (x : α) : List α :=
  l.filter fun y => value y ≠ value x

/-- Removing, one by one, the elements of `xs` that satisfy `p` leaves the
elements that are equal to none of these. -/
theorem foldl_removeEqual (value : α → β) (p : α → Bool) (xs l : List α) :
    xs.foldl (fun copy x => if p x then removeEqual value copy x else copy) l =
      l.filter fun y => !xs.any fun x => p x && value y = value x := by
  induction xs generalizing l with
  | nil => simp
  | cons x xs ih =>
      rw [List.foldl_cons, ih]
      by_cases hx : p x
      · simp only [hx, if_true, removeEqual, List.filter_filter]
        refine List.filter_congr fun y _ => ?_
        simp [hx, Bool.and_comm]
      · simp [hx]

theorem foldl_removeObject [DecidableEq α] (p : α → Bool) (xs l : List α) :
    xs.foldl (fun copy x => if p x then removeObject copy x else copy) l =
      l.filter fun y => !(p y && xs.contains y) := by
  have hloop := foldl_removeEqual (fun x : α => x) p xs l
  refine hloop.trans (List.filter_congr fun y _ => ?_)
  have hany : (xs.any fun x => p x && y = x) = (p y && xs.contains y) := by
    rw [Bool.eq_iff_iff]
    simp only [List.any_eq_true, Bool.and_eq_true, decide_eq_true_eq, List.contains_iff_mem]
    exact ⟨fun ⟨x, hx, hp, hxy⟩ => hxy ▸ ⟨hp, hx⟩, fun ⟨hp, hy⟩ => ⟨y, hy, hp, rfl⟩⟩
  rw [hany]

end RemoveEqual

theorem getElem?_concat_eq_some {l : List α} {a x : α} {i : Nat} :
    (l ++ [a])[i]? = some x ↔ l[i]? = some x ∨ i = l.length ∧ a = x := by
  rw [List.getElem?_append]
  split
  · rename_i hi
    simp [Nat.ne_of_lt hi]
  · rename_i hi
    have hnone : l[i]? = none := List.getElem?_eq_none (Nat.le_of_not_lt hi)
    rw [List.getElem?_singleton, hnone]
    by_cases heq : i = l.length
    · simp [heq]
    · have hsub : ¬ i - l.length = 0 := by omega
      simp [heq, hsub]

theorem eq_or_mem_eraseIdx {l : List α} {i : Nat} {a x : α} (h : l[i]? = some a) (hx : x ∈ l) :
    x = a ∨ x ∈ l.eraseIdx i := by
  obtain ⟨j, hj⟩ := List.mem_iff_getElem?.mp hx
  by_cases hji : j = i
  · subst j
    exact Or.inl (Option.some.inj (hj.symm.trans h))
  · exact Or.inr (List.mem_eraseIdx_iff_getElem?.mpr ⟨j, hji, hj⟩)

/-- Where keys are unique, what remains after an erasure has other keys. -/
theorem key_ne_of_mem_eraseIdx {β : Type*} {key : α → β} {l : List α} {i : Nat} {a x : α}
    (hnodup : (l.map key).Nodup) (h : l[i]? = some a) (hx : x ∈ l.eraseIdx i) :
    key x ≠ key a := by
  obtain ⟨j, hji, hj⟩ := List.mem_eraseIdx_iff_getElem?.mp hx
  intro hkey
  have hlt : j < (l.map key).length := by
    rw [List.length_map]
    exact (List.getElem?_eq_some_iff.mp hj).1
  have hsame : (l.map key)[j]? = (l.map key)[i]? := by
    rw [List.getElem?_map, List.getElem?_map, hj, h, Option.map_some, Option.map_some, hkey]
  exact hji ((List.getElem?_inj hlt hnodup).mp hsame)

theorem filterMap_getElem?_range (l : List α) :
    (List.range l.length).filterMap (l[·]?) = l := by
  induction l with
  | nil => rfl
  | cons a l ih =>
      rw [List.length_cons, List.range_succ_eq_map]
      simpa [List.filterMap_map, Function.comp_def] using ih

section ArrayUnion

variable [DecidableEq α]

/-- An array union with one element, which is added only if the array has
none equal to it. -/
def arrayUnion (l : List α) (x : α) : List α := if x ∈ l then l else l ++ [x]

theorem mem_arrayUnion {l : List α} {x y : α} : y ∈ arrayUnion l x ↔ y ∈ l ∨ y = x := by
  rw [arrayUnion]
  split
  · rename_i hx
    exact ⟨Or.inl, fun h => h.elim id fun hyx => hyx ▸ hx⟩
  · simp

theorem nodup_arrayUnion {l : List α} (h : l.Nodup) (x : α) : (arrayUnion l x).Nodup := by
  rw [arrayUnion]
  split
  · exact h
  · rename_i hx
    refine List.nodup_append.mpr ⟨h, by simp, fun a ha b hb => ?_⟩
    obtain rfl := List.mem_singleton.mp hb
    exact fun heq => hx (heq ▸ ha)

theorem nodup_removeObject {l : List α} (h : l.Nodup) (x : α) : (removeObject l x).Nodup :=
  h.filter _

/-- What the unions with several elements add to an array. -/
theorem exists_foldl_arrayUnion_eq (l xs : List α) :
    ∃ added, xs.foldl arrayUnion l = l ++ added ∧ added.Nodup ∧
      ∀ a, a ∈ added ↔ a ∈ xs ∧ a ∉ l := by
  induction xs generalizing l with
  | nil => exact ⟨[], (List.append_nil l).symm, List.nodup_nil, by simp⟩
  | cons x xs ih =>
      rw [List.foldl_cons]
      by_cases hx : x ∈ l
      · obtain ⟨added, heq, hnodup, hmem⟩ := ih l
        refine ⟨added, by rw [arrayUnion, if_pos hx, heq], hnodup, fun a => ?_⟩
        rw [hmem, List.mem_cons]
        refine and_congr_left fun ha => (or_iff_right ?_).symm
        rintro rfl
        exact ha hx
      · obtain ⟨added, heq, hnodup, hmem⟩ := ih (l ++ [x])
        have hadded : x ∉ added := fun h => ((hmem x).mp h).2 (by simp)
        refine ⟨x :: added, ?_, List.nodup_cons.mpr ⟨hadded, hnodup⟩, fun a => ?_⟩
        · rw [arrayUnion, if_neg hx, heq, List.append_assoc, List.singleton_append]
        · rw [List.mem_cons, List.mem_cons, hmem, List.mem_append, List.mem_singleton]
          by_cases ha : a = x
          · subst a
            simp [hx]
          · simp [ha]

/-- Unions with the same elements, in any order and any number of times. -/
theorem foldl_arrayUnion_perm {l xs ys : List α} (hsame : ∀ a, a ∈ xs ↔ a ∈ ys) :
    (xs.foldl arrayUnion l).Perm (ys.foldl arrayUnion l) := by
  obtain ⟨added, hxs, hadded, hmem⟩ := exists_foldl_arrayUnion_eq l xs
  obtain ⟨added', hys, hadded', hmem'⟩ := exists_foldl_arrayUnion_eq l ys
  rw [hxs, hys]
  refine List.Perm.append_left l ((List.perm_ext_iff_of_nodup hadded hadded').mpr fun a => ?_)
  rw [hmem, hmem', hsame]

end ArrayUnion

end Tootti.Machine
