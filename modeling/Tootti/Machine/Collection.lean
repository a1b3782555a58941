import Mathlib.Data.List.Nodup
import Mathlib.Data.List.Sort

/-!
A collection of documents, each under an identifier of its own.

The documents stand in the order in which queries return them. Identifiers
are unique, so a document found by a query is the one its identifier leads
to.
-/

namespace Tootti.Machine

structure Collection (κ α : Type*) where
  docs : List (κ × α)
  nodup : (docs.map Prod.fst).Nodup

namespace Collection

variable {κ α : Type*} [DecidableEq κ] {c : Collection κ α} {id j : κ} {a : α}

def find? (c : Collection κ α) (id : κ) : Option α :=
  (c.docs.find? fun d => d.1 = id).map Prod.snd

def query (c : Collection κ α) (p : α → Bool) : List (κ × α) := c.docs.filter fun d => p d.2

/-- Changing a document leaves its identifier; a missing one stays missing. -/
def update (c : Collection κ α) (id : κ) (f : α → α) : Collection κ α where
  docs := c.docs.map fun d => if d.1 = id then (d.1, f d.2) else d
  nodup := by
    have hkeys : (c.docs.map fun d => if d.1 = id then (d.1, f d.2) else d).map Prod.fst =
        c.docs.map Prod.fst := by
      rw [List.map_map]
      refine List.map_congr_left fun d _ => ?_
      show (if d.1 = id then (d.1, f d.2) else d).1 = d.1
      split <;> rfl
    rw [hkeys]
    exact c.nodup

theorem find?_eq_none : c.find? id = none ↔ ∀ d ∈ c.docs, d.1 ≠ id := by
  simp [find?]

theorem find?_eq_some : c.find? id = some a ↔ (id, a) ∈ c.docs := by
  constructor
  · intro h
    obtain ⟨d, hd, rfl⟩ := Option.map_eq_some_iff.mp h
    have hid : d.1 = id := by simpa using List.find?_some hd
    exact hid ▸ List.mem_of_find?_eq_some hd
  · intro h
    have hsome : (c.docs.find? fun d => d.1 = id).isSome :=
      List.find?_isSome.mpr ⟨(id, a), h, by simp⟩
    obtain ⟨d, hd⟩ := Option.isSome_iff_exists.mp hsome
    have hid : d.1 = id := by simpa using List.find?_some hd
    have heq : d = (id, a) :=
      List.inj_on_of_nodup_map c.nodup (List.mem_of_find?_eq_some hd) h hid
    rw [find?, hd, heq]
    rfl

def add (c : Collection κ α) (id : κ) (a : α) (h : c.find? id = none) : Collection κ α where
  docs := c.docs ++ [(id, a)]
  nodup := by
    rw [List.map_append, List.nodup_append]
    refine ⟨c.nodup, List.nodup_singleton _, fun k hk k' hk' => ?_⟩
    obtain ⟨d, hd, rfl⟩ := List.mem_map.mp hk
    obtain rfl : k' = id := List.mem_singleton.mp hk'
    exact find?_eq_none.mp h d hd

theorem find?_add_eq_some {b : α} (h : c.find? id = none) :
    (c.add id a h).find? j = some b ↔ j = id ∧ b = a ∨ c.find? j = some b := by
  rw [find?_eq_some, find?_eq_some, add, List.mem_append, List.mem_singleton, Prod.mk.injEq,
    or_comm]

/-- A new document stands where the order of the identifiers puts it. -/
def insert (r : κ → κ → Prop) [DecidableRel r] (c : Collection κ α) (id : κ) (a : α)
    (h : c.find? id = none) : Collection κ α where
  docs := c.docs.orderedInsert (fun d e => r d.1 e.1) (id, a)
  nodup := by
    have hperm := (List.perm_orderedInsert (fun d e => r d.1 e.1) (id, a) c.docs).map Prod.fst
    rw [hperm.nodup_iff, List.map_cons, List.nodup_cons]
    refine ⟨fun hid => ?_, c.nodup⟩
    obtain ⟨d, hd, heq⟩ := List.mem_map.mp hid
    exact find?_eq_none.mp h d hd heq

theorem find?_insert_eq_some {r : κ → κ → Prop} [DecidableRel r] {b : α}
    (h : c.find? id = none) :
    (c.insert r id a h).find? j = some b ↔ j = id ∧ b = a ∨ c.find? j = some b := by
  rw [find?_eq_some, find?_eq_some, insert, List.mem_orderedInsert, Prod.mk.injEq]

theorem mem_query {p : α → Bool} {d : κ × α} :
    d ∈ c.query p ↔ c.find? d.1 = some d.2 ∧ p d.2 := by
  rw [find?_eq_some, query, List.mem_filter]

theorem find?_update (f : α → α) :
    (c.update id f).find? j = if j = id then (c.find? j).map f else c.find? j := by
  cases h : c.find? j with
  | none =>
      have hnone : (c.update id f).find? j = none := by
        rw [find?_eq_none] at h ⊢
        intro d hd
        obtain ⟨d', hd', rfl⟩ := List.mem_map.mp hd
        have hj := h d' hd'
        split <;> exact hj
      simp [hnone]
  | some a =>
      rw [find?_eq_some] at h
      have hmem : (j, if j = id then f a else a) ∈ (c.update id f).docs := by
        refine List.mem_map.mpr ⟨(j, a), h, ?_⟩
        split <;> rfl
      rw [find?_eq_some.mpr hmem]
      split <;> rfl

theorem map_fst_query_update {f : α → α} {p : α → Bool} (hp : ∀ a, p (f a) = p a) :
    ((c.update id f).query p).map Prod.fst = (c.query p).map Prod.fst := by
  simp only [query, update, List.filter_map, List.map_map]
  refine congrArg₂ List.map (funext fun d => ?_) (List.filter_congr fun d _ => ?_)
  · show (if d.1 = id then (d.1, f d.2) else d).1 = d.1
    split <;> rfl
  · show p (if d.1 = id then (d.1, f d.2) else d).2 = p d.2
    split
    · exact hp d.2
    · rfl

/-- A change that changes nothing is one of a missing document or of a
document that is a fixed point of it. -/
theorem update_eq_self_iff {f : α → α} : c.update id f = c ↔ ∀ a ∈ c.find? id, f a = a := by
  constructor
  · intro h a ha
    have hfind : (c.update id f).find? id = if id = id then (c.find? id).map f else c.find? id :=
      find?_update f
    rw [h, if_pos rfl, ha] at hfind
    exact (Option.some.inj hfind).symm
  · intro h
    have hdocs : (c.update id f).docs = c.docs := by
      refine (List.map_congr_left fun d hd => ?_).trans (List.map_id _)
      show (if d.1 = id then (d.1, f d.2) else d) = d
      split
      · rename_i hid
        rw [h d.2 (find?_eq_some.mpr (hid ▸ hd))]
      · rfl
    cases c
    simp only [update] at hdocs ⊢
    simp only [hdocs]

end Collection

end Tootti.Machine
