import Mathlib.Logic.Function.Basic
import Tootti.Machine.Run

/-!
Clients that send requests to one server.

A client acts, or is given an answer, and sends requests then; a request says
what is to be done with its answer. The requests of all clients are served in
any order, the answers are given in any order, and a client can end at any
moment. What it has sent may still be served, and nobody is given the answer.

Two rules are given. One is for what the server never takes back: a property
of clients, of requests and of answers that only grows with the server holds
in every run once each part of the protocol keeps it, and where only some
answers keep it, exactly in the runs in which the others are not given. The
other says that what one client does while nothing else happens is one of the
runs.
-/

namespace Tootti.Machine

/-- `χ` is what a client can do, and `η` what the server, or the way to it,
decides about a request. -/
structure Protocol (σ κ α ρ χ η : Type*) where
  /-- `none` when the client cannot do it. -/
  act : κ → χ → Option (κ × List α)
  /-- `none` when the server cannot decide so. -/
  serve : σ → α → η → Option (σ × ρ)
  /-- `none` when the client ends of it. -/
  receive : κ → α → ρ → Option (κ × List α)
  /-- What is left of a client that ends. -/
  ended : κ → κ

namespace Protocol

variable {ι σ κ α ρ χ η : Type*}

structure System (ι σ κ α ρ : Type*) where
  server : σ
  client : ι → κ
  /-- The requests that are under way, each with the client that waits for the
  answer, if it has not ended. -/
  requests : List (Option ι × α)
  answers : List (ι × α × ρ)

inductive Event (ι χ η : Type*)
  | act (i : ι) (c : χ)
  | serve (n : ℕ) (h : η)
  | receive (n : ℕ)
  | terminate (i : ι)

variable [DecidableEq ι]

namespace System

/-- A client has changed, and sent requests. -/
def put (s : System ι σ κ α ρ) (i : ι) (k : κ) (l : List α) : System ι σ κ α ρ :=
  { s with
    client := Function.update s.client i k
    requests := s.requests ++ l.map fun r => (some i, r) }

def terminate (s : System ι σ κ α ρ) (i : ι) (k : κ) : System ι σ κ α ρ where
  server := s.server
  client := Function.update s.client i k
  requests := s.requests.map fun m => (if m.1 = some i then none else m.1, m.2)
  answers := s.answers.filter fun m => m.1 ≠ i

/-- A request is served: its client, if any, is to be given the answer. -/
def answer (s : System ι σ κ α ρ) (n : ℕ) (m : Option ι × α) (v : σ) (a : ρ) :
    System ι σ κ α ρ :=
  { s with
    server := v
    requests := s.requests.eraseIdx n
    answers := s.answers ++ m.1.toList.map fun i => (i, m.2, a) }

end System

def step (p : Protocol σ κ α ρ χ η) (s : System ι σ κ α ρ) :
    Event ι χ η → Option (System ι σ κ α ρ)
  | .act i c => (p.act (s.client i) c).map fun r => s.put i r.1 r.2
  | .serve n h =>
      s.requests[n]?.bind fun m =>
        (p.serve s.server m.2 h).map fun r => s.answer n m r.1 r.2
  | .receive n =>
      s.answers[n]?.map fun m =>
        let s' := { s with answers := s.answers.eraseIdx n }
        match p.receive (s.client m.1) m.2.1 m.2.2 with
        | some (k, l) => s'.put m.1 k l
        | none => s'.terminate m.1 (p.ended (s.client m.1))
  | .terminate i => some (s.terminate i (p.ended (s.client i)))

/-! ### One client alone -/

/-- The requests of a client are served and answered one after the other, and
after them what it sends then. -/
inductive Alone (p : Protocol σ κ α ρ χ η) : σ → κ → List α → σ → κ → Prop
  | done (v : σ) (k : κ) : Alone p v k [] v k
  | next {v v' w : σ} {k k' k'' : κ} {r : α} {rest l : List α} {h : η} {a : ρ}
      (hserve : p.serve v r h = some (v', a)) (hreceive : p.receive k r a = some (k', l))
      (hrest : Alone p v' k' (rest ++ l) w k'') : Alone p v k (r :: rest) w k''

/-- What a client comes to alone is one of the runs. -/
theorem Alone.run {p : Protocol σ κ α ρ χ η} {v w : σ} {k k' : κ} {l : List α}
    (h : Alone p v k l w k') {i : ι} {f : ι → κ} (hf : f i = k) :
    ∃ es, Machine.run p.step ⟨v, f, l.map fun r => (some i, r), []⟩ es =
      some ⟨w, Function.update f i k', [], []⟩ := by
  induction h generalizing f with
  | done v k =>
      subst hf
      exact ⟨[], by rw [Function.update_eq_self]; rfl⟩
  | @next v v' w k k' k'' r rest l h a hserve hreceive hrest ih =>
      obtain ⟨es, hes⟩ := ih (f := Function.update f i k') (Function.update_self ..)
      rw [Function.update_idem] at hes
      refine ⟨.serve 0 h :: .receive 0 :: es, ?_⟩
      have hserved : p.step ⟨v, f, (r :: rest).map fun r => (some i, r), []⟩ (.serve 0 h) =
          some ⟨v', f, rest.map fun r => (some i, r), [(i, r, a)]⟩ := by
        simp [step, System.answer, hserve]
      have hreceived : p.step ⟨v', f, rest.map fun r => (some i, r), [(i, r, a)]⟩ (.receive 0) =
          some ⟨v', Function.update f i k', (rest ++ l).map fun r => (some i, r), []⟩ := by
        simp [step, System.put, hf, hreceive]
      exact run_cons_eq_some.mpr ⟨_, hserved, run_cons_eq_some.mpr ⟨_, hreceived, hes⟩⟩

/-! ### A client and what it sends -/

def Leaves (C : κ → Prop) (R : α → Prop) (k : κ) (l : List α) : Prop := C k ∧ ∀ r ∈ l, R r

section Leaves

variable {C : κ → Prop} {R : α → Prop} {k : κ} {l m : List α}

theorem Leaves.quiet (hk : C k) : Leaves C R k [] := ⟨hk, fun _ hr => absurd hr List.not_mem_nil⟩

theorem Leaves.single {r : α} (hk : C k) (hr : R r) : Leaves C R k [r] :=
  ⟨hk, fun _ hr' => List.mem_singleton.mp hr' ▸ hr⟩

theorem Leaves.append (hl : ∀ r ∈ l, R r) (hm : Leaves C R k m) : Leaves C R k (l ++ m) :=
  ⟨hm.1, fun r hr => (List.mem_append.mp hr).elim (hl r) (hm.2 r)⟩

end Leaves

/-! ### What only grows -/

/-- A server with an invariant, and what is said of clients, requests and
answers with a view to it. -/
structure Reading (σ κ α ρ : Type*) where
  grows : σ → σ → Prop
  server : σ → Prop
  client : σ → κ → Prop
  request : σ → α → Prop
  answer : σ → α → ρ → Prop

namespace Reading

variable (q : Reading σ κ α ρ) (p : Protocol σ κ α ρ χ η)

/-- Each part of the protocol keeps what is said, and nothing that is said
is lost when the server grows. -/
structure KeptBy : Prop where
  client_grows : ∀ {v w k}, q.grows v w → q.client v k → q.client w k
  request_grows : ∀ {v w r}, q.grows v w → q.request v r → q.request w r
  answer_grows : ∀ {v w r a}, q.grows v w → q.answer v r a → q.answer w r a
  act : ∀ {v k c k' l}, q.client v k → p.act k c = some (k', l) →
    q.client v k' ∧ ∀ r ∈ l, q.request v r
  serve : ∀ {v r h w a}, q.server v → q.request v r → p.serve v r h = some (w, a) →
    q.server w ∧ q.grows v w ∧ q.answer w r a
  receive : ∀ {v k r a k' l}, q.client v k → q.request v r → q.answer v r a →
    p.receive k r a = some (k', l) → q.client v k' ∧ ∀ r' ∈ l, q.request v r'
  ended : ∀ {v k}, q.client v k → q.client v (p.ended k)

/-- Each part keeps what is said, and an answer exactly if it is one of `ok`. -/
structure KeptWhen (ok : κ → α → ρ → Prop) : Prop where
  client_grows : ∀ {v w k}, q.grows v w → q.client v k → q.client w k
  request_grows : ∀ {v w r}, q.grows v w → q.request v r → q.request w r
  answer_grows : ∀ {v w r a}, q.grows v w → q.answer v r a → q.answer w r a
  act : ∀ {v k c k' l}, q.client v k → p.act k c = some (k', l) →
    Leaves (q.client v) (q.request v) k' l
  serve : ∀ {v r h w a}, q.server v → q.request v r → p.serve v r h = some (w, a) →
    q.server w ∧ q.grows v w ∧ q.answer w r a
  receive_iff : ∀ {v k r a k' l}, q.client v k → q.request v r → q.answer v r a →
    p.receive k r a = some (k', l) → (Leaves (q.client v) (q.request v) k' l ↔ ok k r a)
  raises : ∀ {k r a}, p.receive k r a = none → ok k r a
  ended : ∀ {v k}, q.client v k → q.client v (p.ended k)

variable {q p} in
theorem KeptBy.keptWhen (h : q.KeptBy p) : q.KeptWhen p fun _ _ _ => True where
  client_grows := h.client_grows
  request_grows := h.request_grows
  answer_grows := h.answer_grows
  act := h.act
  serve := h.serve
  receive_iff hk hr ha hreceive := iff_of_true (h.receive hk hr ha hreceive) trivial
  raises _ := trivial
  ended := h.ended

/-- The answer that the event gives, if any, is one of `ok`. -/
def Given (ok : κ → α → ρ → Prop) (s : System ι σ κ α ρ) : Event ι χ η → Prop
  | .receive n => ∀ m ∈ s.answers[n]?, ok (s.client m.1) m.2.1 m.2.2
  | .act _ _ | .serve _ _ | .terminate _ => True

structure Holds (s : System ι σ κ α ρ) : Prop where
  server : q.server s.server
  clients : ∀ i, q.client s.server (s.client i)
  requests : ∀ m ∈ s.requests, q.request s.server m.2
  answers : ∀ m ∈ s.answers, q.request s.server m.2.1 ∧ q.answer s.server m.2.1 m.2.2

section Steps

variable {q p} {s t : System ι σ κ α ρ} {ok : κ → α → ρ → Prop} {e : Event ι χ η}

theorem Holds.put {i : ι} {k : κ} {l : List α} (hs : q.Holds s) (hk : q.client s.server k)
    (hl : ∀ r ∈ l, q.request s.server r) : q.Holds (s.put i k l) where
  server := hs.server
  clients := (Function.forall_update_iff s.client fun _ k => q.client s.server k).mpr
    ⟨hk, fun j _ => hs.clients j⟩
  requests m hm := by
    rcases List.mem_append.mp hm with hm | hm
    · exact hs.requests m hm
    · obtain ⟨r, hr, rfl⟩ := List.mem_map.mp hm
      exact hl r hr
  answers := hs.answers

theorem Holds.terminate {i : ι} {k : κ} (hs : q.Holds s) (hk : q.client s.server k) :
    q.Holds (s.terminate i k) where
  server := hs.server
  clients := (Function.forall_update_iff s.client fun _ k => q.client s.server k).mpr
    ⟨hk, fun j _ => hs.clients j⟩
  requests m hm := by
    obtain ⟨m', hm', rfl⟩ := List.mem_map.mp hm
    exact hs.requests m' hm'
  answers m hm := hs.answers m (List.mem_of_mem_filter hm)

omit [DecidableEq ι] in
theorem Holds.answered (hs : q.Holds s) (n : ℕ) :
    q.Holds { s with answers := s.answers.eraseIdx n } where
  server := hs.server
  clients := hs.clients
  requests := hs.requests
  answers m hm := hs.answers m (List.mem_of_mem_eraseIdx hm)

omit [DecidableEq ι] in
theorem Holds.answer (hkept : q.KeptWhen p ok) (hs : q.Holds s) {n : ℕ} {m : Option ι × α} {h : η}
    {v : σ} {a : ρ} (hm : s.requests[n]? = some m) (hserve : p.serve s.server m.2 h = some (v, a)) :
    q.Holds (s.answer n m v a) := by
  have hrequest := hs.requests m (List.mem_of_getElem? hm)
  obtain ⟨hserver, hgrows, hanswer⟩ := hkept.serve hs.server hrequest hserve
  constructor
  case server => exact hserver
  case clients => exact fun i => hkept.client_grows hgrows (hs.clients i)
  case requests =>
    intro m' hm'
    exact hkept.request_grows hgrows (hs.requests m' (List.mem_of_mem_eraseIdx hm'))
  case answers =>
    intro m' hm'
    rcases List.mem_append.mp hm' with hm' | hm'
    · obtain ⟨hr, ha⟩ := hs.answers m' hm'
      exact ⟨hkept.request_grows hgrows hr, hkept.answer_grows hgrows ha⟩
    · obtain ⟨i, -, rfl⟩ := List.mem_map.mp hm'
      exact ⟨hkept.request_grows hgrows hrequest, hanswer⟩

theorem holds_put_iff {i : ι} {k : κ} {l : List α} (hs : q.Holds s) :
    q.Holds (s.put i k l) ↔ Leaves (q.client s.server) (q.request s.server) k l := by
  refine ⟨fun h => ⟨?_, fun r hr => ?_⟩, fun h => hs.put h.1 h.2⟩
  · simpa [System.put] using h.clients i
  · exact h.requests (some i, r) (List.mem_append_right _ (List.mem_map_of_mem hr))

theorem holds_iff_given (hkept : q.KeptWhen p ok) (hs : q.Holds s) (hstep : p.step s e = some t) :
    q.Holds t ↔ Given ok s e := by
  cases e with
  | act i c =>
      obtain ⟨⟨k, l⟩, hact, rfl⟩ := Option.map_eq_some_iff.mp hstep
      exact iff_of_true ((holds_put_iff hs).mpr (hkept.act (hs.clients i) hact)) trivial
  | serve n h =>
      obtain ⟨m, hm, hserved⟩ := Option.bind_eq_some_iff.mp hstep
      obtain ⟨⟨v, a⟩, hserve, rfl⟩ := Option.map_eq_some_iff.mp hserved
      exact iff_of_true (hs.answer hkept hm hserve) trivial
  | receive n =>
      obtain ⟨m, hm, rfl⟩ := Option.map_eq_some_iff.mp hstep
      obtain ⟨hrequest, hanswer⟩ := hs.answers m (List.mem_of_getElem? hm)
      have hgiven : Given ok s (.receive n : Event ι χ η) ↔
          ok (s.client m.1) m.2.1 m.2.2 := by
        simp only [Given, hm, Option.mem_some_iff, forall_eq']
      rw [hgiven]
      dsimp only
      split
      · rename_i k l hreceive
        rw [holds_put_iff (hs.answered n)]
        exact hkept.receive_iff (hs.clients m.1) hrequest hanswer hreceive
      · rename_i hended
        have hclient := hkept.ended (hs.clients m.1)
        exact iff_of_true ((hs.answered n).terminate hclient) (hkept.raises hended)
  | terminate i =>
      obtain rfl := Option.some.inj hstep
      exact iff_of_true (hs.terminate (hkept.ended (hs.clients i))) trivial

theorem everyStep_holds_iff (hkept : q.KeptWhen p ok) (hs : q.Holds s) (es : List (Event ι χ η)) :
    EveryStep p.step (fun _ _ t => q.Holds t) s es ↔ Meets p.step (Given ok) s es :=
  everyStep_iff_of_invariant (I := q.Holds) (fun _ _ _ hm hstep => holds_iff_given hkept hm hstep)
    (fun _ _ _ _ _ ht => ht) hs es

theorem Holds.step (hkept : q.KeptBy p) (hs : q.Holds s) (hstep : p.step s e = some t) :
    q.Holds t := by
  refine (holds_iff_given hkept.keptWhen hs hstep).mpr ?_
  cases e with
  | receive n => exact fun _ _ => trivial
  | act i c | serve n h | terminate i => trivial

theorem Holds.run (hkept : q.KeptBy p) (hs : q.Holds s) {es : List (Event ι χ η)}
    (hrun : Machine.run p.step s es = some t) : q.Holds t :=
  run_invariant (fun _ _ _ h hstep => h.step hkept hstep) hrun hs

end Steps

end Reading

end Protocol

end Tootti.Machine
