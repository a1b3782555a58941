import Mathlib.Data.List.Basic

/-!
What a listener has been told.

A listener is handed values in the order in which they were posted, at any later
time, and acts on each of them. So what it shows may be old; but the newest value
that was posted to it is either still pending or the one it shows, and handing
over a value does not change which one that is.
-/

namespace Tootti.Machine

variable {α : Type*}

/-- The value acted on last, and those posted since, oldest first. -/
structure Inbox (α : Type*) where
  shown : Option α
  pending : List α

namespace Inbox

def empty : Inbox α := ⟨none, []⟩

def post (a : α) (b : Inbox α) : Inbox α := { b with pending := b.pending ++ [a] }

/-- The oldest pending value, and the inbox once it was acted on. -/
def deliver (b : Inbox α) : Option (α × Inbox α) :=
  match b.pending with
  | [] => none
  | a :: rest => some (a, ⟨some a, rest⟩)

/-- The value posted last. -/
def newest (b : Inbox α) : Option α := b.pending.getLast?.or b.shown

variable {a : α} {b b' : Inbox α}

@[simp] theorem newest_empty : (empty : Inbox α).newest = none := rfl

@[simp] theorem newest_post : (b.post a).newest = some a := by
  simp [newest, post]

theorem deliver_eq_some :
    b.deliver = some (a, b') ↔ ∃ rest, b.pending = a :: rest ∧ b' = ⟨some a, rest⟩ := by
  rw [deliver]
  cases h : b.pending with
  | nil => simp
  | cons c rest =>
      simp only [Option.some.injEq, Prod.mk.injEq, List.cons.injEq]
      constructor
      case mp =>
        rintro ⟨rfl, rfl⟩
        exact ⟨rest, ⟨rfl, rfl⟩, rfl⟩
      case mpr =>
        rintro ⟨_, ⟨rfl, rfl⟩, rfl⟩
        exact ⟨rfl, rfl⟩

theorem newest_deliver (h : b.deliver = some (a, b')) : b'.newest = b.newest := by
  obtain ⟨rest, hpending, rfl⟩ := deliver_eq_some.mp h
  rw [newest, newest, hpending]
  cases rest with
  | nil => rfl
  | cons c rest =>
      rw [List.getLast?_cons_cons, List.getLast?_cons]
      rfl

theorem newest_of_pending_nil (h : b.pending = []) : b.newest = b.shown := by
  rw [newest, h]
  rfl

end Inbox

end Tootti.Machine
