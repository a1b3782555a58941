import Mathlib.Logic.Function.Basic
import Mathlib.Data.List.Basic

/-!
A value on a server that clients change by sending it writes.

Each client has a queue of writes that were issued and have not arrived; the
server applies the writes of one client in the order they were issued, and
those of different clients in any order. What a client may rely on is its
`view`: the server's value with the client's own outstanding writes applied
to it. An arriving write of its own does not change a client's view, and the
lemmas below say when a write of another client leaves a part of it alone.
-/

namespace Tootti.Machine

variable {κ α ω β : Type*}

/-- The server's value and, for each client, its outstanding writes, oldest
first. -/
structure Register (κ α ω : Type*) where
  value : α
  outbox : κ → List ω

namespace Register

def initial (a : α) : Register κ α ω := ⟨a, fun _ => []⟩

/-- The server's value as it will be when the client's own writes have
arrived and no other client has written. -/
def view (apply : ω → α → α) (r : Register κ α ω) (c : κ) : α :=
  (r.outbox c).foldl (fun a w => apply w a) r.value

def Settled (r : Register κ α ω) : Prop := ∀ c, r.outbox c = []

variable {apply : ω → α → α} {r r' : Register κ α ω} {c : κ}

@[simp] theorem initial_value (a : α) : (initial a : Register κ α ω).value = a := rfl

@[simp] theorem initial_outbox (a : α) (c : κ) : (initial a : Register κ α ω).outbox c = [] := rfl

@[simp] theorem view_initial (a : α) : (initial a : Register κ α ω).view apply c = a := rfl

theorem view_of_settled (h : r.Settled) : r.view apply c = r.value := by
  simp [view, h c]

variable [DecidableEq κ]

def issue (r : Register κ α ω) (c : κ) (w : ω) : Register κ α ω :=
  { r with outbox := Function.update r.outbox c (r.outbox c ++ [w]) }

/-- Several writes, in order. -/
def issueAll (r : Register κ α ω) (c : κ) (ws : List ω) : Register κ α ω :=
  { r with outbox := Function.update r.outbox c (r.outbox c ++ ws) }

def arrive (apply : ω → α → α) (r : Register κ α ω) (c : κ) : Option (Register κ α ω) :=
  match r.outbox c with
  | [] => none
  | w :: ws => some ⟨apply w r.value, Function.update r.outbox c ws⟩

@[simp] theorem issue_value (w : ω) : (r.issue c w).value = r.value := rfl

@[simp] theorem issue_outbox_self (w : ω) : (r.issue c w).outbox c = r.outbox c ++ [w] := by
  simp [issue]

theorem issue_outbox_of_ne {u : κ} (w : ω) (h : u ≠ c) :
    (r.issue c w).outbox u = r.outbox u := by
  simp [issue, h]

@[simp] theorem issueAll_value (ws : List ω) : (r.issueAll c ws).value = r.value := rfl

@[simp] theorem issueAll_outbox_self (ws : List ω) :
    (r.issueAll c ws).outbox c = r.outbox c ++ ws := by
  simp [issueAll]

theorem issueAll_outbox_of_ne {u : κ} (ws : List ω) (h : u ≠ c) :
    (r.issueAll c ws).outbox u = r.outbox u := by
  simp [issueAll, h]

theorem arrive_eq_some :
    r.arrive apply c = some r' ↔ ∃ w ws, r.outbox c = w :: ws ∧
      r' = ⟨apply w r.value, Function.update r.outbox c ws⟩ := by
  rw [arrive]
  cases h : r.outbox c with
  | nil => simp
  | cons w ws => simp [eq_comm]

@[simp] theorem view_issue_self (w : ω) :
    (r.issue c w).view apply c = apply w (r.view apply c) := by
  simp [view, List.foldl_append]

theorem view_issue_of_ne {u : κ} (w : ω) (h : u ≠ c) :
    (r.issue c w).view apply u = r.view apply u := by
  rw [view, issue_outbox_of_ne w h, issue_value, view]

theorem view_arrive_self (h : r.arrive apply c = some r') :
    r'.view apply c = r.view apply c := by
  obtain ⟨w, ws, hout, rfl⟩ := arrive_eq_some.mp h
  simp [view, hout]

/-- Another client's arriving write leaves a part `π` of a client's view as
it was, if it leaves that part of the server's value as it was and no write
lets other parts of the value flow into `π`. -/
theorem proj_view_arrive_of_ne {u : κ} (π : α → β)
    (hlocal : ∀ w a b, π a = π b → π (apply w a) = π (apply w b))
    (h : r.arrive apply c = some r') (hu : u ≠ c) (hkeep : π r'.value = π r.value) :
    π (r'.view apply u) = π (r.view apply u) := by
  have hfold : ∀ (ws : List ω) (a b : α), π a = π b →
      π (ws.foldl (fun a w => apply w a) a) = π (ws.foldl (fun a w => apply w a) b) := by
    intro ws
    induction ws with
    | nil => intro a b hab; exact hab
    | cons w ws ih => intro a b hab; exact ih _ _ (hlocal w a b hab)
  obtain ⟨w, ws, hout, rfl⟩ := arrive_eq_some.mp h
  simp only [view, Function.update_of_ne hu]
  exact hfold (r.outbox u) _ _ hkeep

end Register

end Tootti.Machine
