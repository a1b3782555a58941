import Mathlib.Algebra.Order.BigOperators.Group.List
import Mathlib.Algebra.Order.Ring.Nat
import Tootti.Machine.Requests

/-!
How many requests a run serves, and that it can come to rest.

What a client sends on an answer is worth less than the request was. Only the
requests that stand are worth nothing: such a request may be sent again on each
of its answers, as long as its client lives. So nothing but an action adds to
what is under way. Whatever the order, no more is served than the actions allow
for, and when nobody acts the server runs out of requests, without those that
stand being served.
-/

namespace Tootti.Machine.Protocol

variable {ι σ κ α ρ χ η : Type*}

/-- How many requests can follow from one, itself included, and how many from
an action. A request that stands is not counted. -/
structure Budget (α χ : Type*) where
  worth : α → ℕ
  allowance : χ → ℕ

namespace Budget

variable (b : Budget α χ) (p : Protocol σ κ α ρ χ η)

def total (l : List α) : ℕ := (l.map b.worth).sum

structure KeptBy : Prop where
  act : ∀ {k c k' l}, p.act k c = some (k', l) → b.total l ≤ b.allowance c
  receive : ∀ {k r a k' l}, p.receive k r a = some (k', l) → b.total l ≤ b.worth r - 1

/-- What can still be served when nobody acts. -/
def due (s : System ι σ κ α ρ) : ℕ :=
  (s.requests.map fun m => b.worth m.2).sum + (s.answers.map fun m => b.worth m.2.1 - 1).sum

/-- The requests under way that do not stand. -/
def underWay (s : System ι σ κ α ρ) : ℕ := s.requests.countP fun m => b.worth m.2 ≠ 0

/-- Nothing but standing requests and answers to these is under way. -/
structure AtRest (s : System ι σ κ α ρ) : Prop where
  requests : ∀ m ∈ s.requests, b.worth m.2 = 0
  answers : ∀ m ∈ s.answers, b.worth m.2.1 = 0

/-- The event serves or answers a request that does not stand. -/
def Delivers (s : System ι σ κ α ρ) : Event ι χ η → Prop
  | .serve n _ => ∃ m ∈ s.requests[n]?, b.worth m.2 ≠ 0
  | .receive n => ∃ m ∈ s.answers[n]?, b.worth m.2.1 ≠ 0
  | .act _ _ | .terminate _ => False

def allowed : Event ι χ η → ℕ
  | .act _ c => b.allowance c
  | .serve _ _ | .receive _ | .terminate _ => 0

/-- One when the event serves a request that does not stand. -/
def serves (s : System ι σ κ α ρ) : Event ι χ η → ℕ
  | .serve n _ => (s.requests[n]?).elim 0 fun m => min 1 (b.worth m.2)
  | .act _ _ | .receive _ | .terminate _ => 0

variable [DecidableEq ι]

/-- How many requests are served in a run, the standing ones aside. -/
def served : System ι σ κ α ρ → List (Event ι χ η) → ℕ
  | _, [] => 0
  | s, e :: es => b.serves s e + (p.step s e).elim 0 fun t => served t es

variable {b p} {s t : System ι σ κ α ρ} {e : Event ι χ η}

/-! ### What one step does -/

theorem sum_map_eraseIdx {β : Type*} {l : List β} {n : ℕ} {x : β} (f : β → ℕ)
    (h : l[n]? = some x) : f x + ((l.eraseIdx n).map f).sum = (l.map f).sum := by
  obtain ⟨hn, rfl⟩ := List.getElem?_eq_some_iff.mp h
  rw [← ((List.getElem_cons_eraseIdx_perm hn).map f).sum_eq, List.map_cons, List.sum_cons]

omit [DecidableEq ι] in
theorem underWay_le_due : b.underWay s ≤ b.due s := by
  have h : b.underWay s ≤ (s.requests.map fun m => b.worth m.2).sum := by
    rw [underWay]
    induction s.requests with
    | nil => simp
    | cons m l ih =>
        rw [List.countP_cons, List.map_cons, List.sum_cons]
        split
        · rename_i hm
          have : b.worth m.2 ≠ 0 := by simpa using hm
          omega
        · omega
  exact h.trans (Nat.le_add_right _ _)

theorem due_put (i : ι) (k : κ) (l : List α) : b.due (s.put i k l) = b.due s + b.total l := by
  simp only [due, System.put, List.map_append, List.sum_append, List.map_map, total]
  exact Nat.add_right_comm _ _ _

theorem due_terminate_le (i : ι) (k : κ) : b.due (s.terminate i k) ≤ b.due s := by
  have hrequests : ((s.terminate i k).requests.map fun m => b.worth m.2) =
      s.requests.map fun m => b.worth m.2 := by
    rw [System.terminate, List.map_map]
    rfl
  rw [due, due, hrequests]
  refine Nat.add_le_add_left (List.Sublist.sum_le_sum ?_ fun _ _ => Nat.zero_le _) _
  exact List.filter_sublist.map _

omit [DecidableEq ι] in
theorem due_answered {n : ℕ} {m : ι × α × ρ} (h : s.answers[n]? = some m) :
    b.due s = b.due { s with answers := s.answers.eraseIdx n } + (b.worth m.2.1 - 1) := by
  have hanswers := sum_map_eraseIdx (fun m : ι × α × ρ => b.worth m.2.1 - 1) h
  simp only [due]
  omega

omit [DecidableEq ι] in
/-- A request that is served is worth no more than the answer and one. -/
theorem due_answer_le {n : ℕ} {m : Option ι × α} (h : s.requests[n]? = some m) (v : σ) (a : ρ) :
    min 1 (b.worth m.2) + b.due (s.answer n m v a) ≤ b.due s := by
  obtain ⟨o, r⟩ := m
  have hrequests := sum_map_eraseIdx (fun m : Option ι × α => b.worth m.2) h
  dsimp only at hrequests ⊢
  cases o with
  | none =>
      simp only [due, System.answer, Option.toList_none, List.map_nil, List.append_nil]
      omega
  | some i =>
      simp only [due, System.answer, Option.toList_some, List.map_cons, List.map_nil,
        List.map_append, List.sum_append, List.sum_cons, List.sum_nil]
      omega

theorem due_receive_le (hkept : b.KeptBy p) {n : ℕ} (hstep : p.step s (.receive n) = some t) :
    b.due t ≤ b.due s := by
  obtain ⟨m, hm, rfl⟩ := Option.map_eq_some_iff.mp hstep
  have hanswered := due_answered (b := b) hm
  dsimp only
  split
  · rename_i k l hreceive
    have hl := hkept.receive hreceive
    rw [due_put]
    omega
  · rename_i hended
    have hterminated := due_terminate_le (b := b) (s := { s with answers := s.answers.eraseIdx n })
      m.1 (p.ended (s.client m.1))
    omega

theorem length_answers_receive {n : ℕ} (hstep : p.step s (.receive n) = some t) :
    t.answers.length < s.answers.length := by
  obtain ⟨m, hm, rfl⟩ := Option.map_eq_some_iff.mp hstep
  obtain ⟨hn, -⟩ := List.getElem?_eq_some_iff.mp hm
  have herased : (s.answers.eraseIdx n).length < s.answers.length := by
    rw [List.length_eraseIdx_of_lt hn]
    omega
  dsimp only
  split
  · exact herased
  · exact (List.length_filter_le _ _).trans_lt herased

theorem serves_add_due_le (hkept : b.KeptBy p) (hstep : p.step s e = some t) :
    b.serves s e + b.due t ≤ b.due s + b.allowed e := by
  cases e with
  | act i c =>
      obtain ⟨⟨k, l⟩, hact, rfl⟩ := Option.map_eq_some_iff.mp hstep
      rw [due_put, serves, Nat.zero_add]
      exact Nat.add_le_add_left (hkept.act hact) _
  | serve n h =>
      obtain ⟨m, hm, hserved⟩ := Option.bind_eq_some_iff.mp hstep
      obtain ⟨⟨v, a⟩, -, rfl⟩ := Option.map_eq_some_iff.mp hserved
      rw [serves, hm, Option.elim_some]
      exact due_answer_le hm v a
  | receive n =>
      rw [serves, Nat.zero_add]
      exact due_receive_le hkept hstep
  | terminate i =>
      obtain rfl := Option.some.inj hstep
      rw [serves, Nat.zero_add]
      exact due_terminate_le i _

/-! ### Runs -/

theorem served_add_due_le (hkept : b.KeptBy p) {es : List (Event ι χ η)}
    (hrun : run p.step s es = some t) :
    b.served p s es + b.due t ≤ b.due s + (es.map b.allowed).sum := by
  induction es generalizing s with
  | nil =>
      obtain rfl := Option.some.inj hrun
      rw [served, Nat.zero_add]
      exact Nat.le_add_right _ _
  | cons e es ih =>
      obtain ⟨s', hstep, hrest⟩ := run_cons_eq_some.mp hrun
      have hfirst := serves_add_due_le hkept hstep
      have hlater := ih hrest
      rw [served, hstep, Option.elim_some, List.map_cons, List.sum_cons]
      omega

/-- A state that is not at rest has a delivery that brings it nearer. -/
theorem exists_delivery (hkept : b.KeptBy p) (hserve : ∀ v r, ∃ h, (p.serve v r h).isSome)
    (hs : ¬ b.AtRest s) : ∃ e t, b.Delivers s e ∧ p.step s e = some t ∧
      2 * b.due t + t.answers.length < 2 * b.due s + s.answers.length := by
  by_cases hanswers : ∀ m ∈ s.answers, b.worth m.2.1 = 0
  · have hsome : ∃ m ∈ s.requests, b.worth m.2 ≠ 0 := by
      by_contra hnone
      push Not at hnone
      exact hs ⟨hnone, hanswers⟩
    obtain ⟨m, hm, hworth⟩ := hsome
    obtain ⟨n, hn⟩ := List.getElem?_of_mem hm
    obtain ⟨h, hh⟩ := hserve s.server m.2
    obtain ⟨⟨v, a⟩, hserved⟩ := Option.isSome_iff_exists.mp hh
    refine ⟨.serve n h, s.answer n m v a, ⟨m, hn, hworth⟩, by simp [step, hn, hserved], ?_⟩
    have hdue := due_answer_le (b := b) hn v a
    have hlength : (s.answer n m v a).answers.length ≤ s.answers.length + 1 := by
      cases hm : m.1 <;> simp [System.answer, hm]
    omega
  · push Not at hanswers
    obtain ⟨m, hm, hworth⟩ := hanswers
    obtain ⟨n, hn⟩ := List.getElem?_of_mem hm
    obtain ⟨t, ht⟩ : ∃ t, p.step s (.receive n) = some t := by simp [step, hn]
    refine ⟨.receive n, t, ⟨m, hn, hworth⟩, ht, ?_⟩
    have hdue := due_receive_le hkept ht
    have hlength := length_answers_receive ht
    omega

/-- From every state deliveries alone lead to rest. -/
theorem exists_atRest (hkept : b.KeptBy p) (hserve : ∀ v r, ∃ h, (p.serve v r h).isSome)
    (s : System ι σ κ α ρ) : ∃ (es : List (Event ι χ η)) (t : System ι σ κ α ρ),
      Meets p.step b.Delivers s es ∧ run p.step s es = some t ∧ b.AtRest t := by
  induction hn : 2 * b.due s + s.answers.length using Nat.strong_induction_on generalizing s with
  | _ n ih =>
      by_cases hs : b.AtRest s
      · exact ⟨[], s, trivial, rfl, hs⟩
      · obtain ⟨e, s', he, hstep, hless⟩ := exists_delivery hkept hserve hs
        obtain ⟨es, t, hes, hrun, ht⟩ := ih _ (hn ▸ hless) s' rfl
        refine ⟨e :: es, t, ?_, run_cons_eq_some.mpr ⟨s', hstep, hrun⟩, ht⟩
        exact (everyStep_cons hstep).mpr ⟨he, hes⟩

end Budget

end Tootti.Machine.Protocol
