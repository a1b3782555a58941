import Tootti.Machine.Requests

/-!
What a client has been told.

A client learns of the server by the answers that it is given, each to one of
its requests. What it comes to and what it sends must rest on them, and on
nothing else: if an action and an answer leave it so, every request that is
under way rests on what its sender was told in the run, also when the sender has
ended since.
-/

namespace Tootti.Machine.Protocol

variable {ι σ κ α ρ χ η : Type*} [DecidableEq ι]

def System.tells (s : System ι σ κ α ρ) (i : ι) : Event ι χ η → List (α × ρ)
  | .receive n => (s.answers[n]?.toList.filter fun m => m.1 = i).map Prod.snd
  | .act _ _ | .serve _ _ | .terminate _ => []

/-- The answers that client `i` is given in a run, in order, each with its
request. -/
def told (p : Protocol σ κ α ρ χ η) :
    System ι σ κ α ρ → List (Event ι χ η) → ι → List (α × ρ)
  | _, [], _ => []
  | s, e :: es, i => s.tells i e ++ (p.step s e).elim [] fun t => p.told t es i

/-- What is said of a client, and of a request, with a view to what the client
was told. -/
structure Grounds (κ α ρ : Type*) where
  client : List (α × ρ) → κ → Prop
  request : List (α × ρ) → α → Prop

namespace Grounds

variable (g : Grounds κ α ρ) (p : Protocol σ κ α ρ χ η)

structure KeptBy : Prop where
  client_append : ∀ {h k} h', g.client h k → g.client (h ++ h') k
  request_append : ∀ {h r} h', g.request h r → g.request (h ++ h') r
  act : ∀ {h k c k' l}, g.client h k → p.act k c = some (k', l) →
    g.client h k' ∧ ∀ r ∈ l, g.request h r
  receive : ∀ {h k r a k' l}, g.client h k → g.request h r → p.receive k r a = some (k', l) →
    g.client (h ++ [(r, a)]) k' ∧ ∀ r' ∈ l, g.request (h ++ [(r, a)]) r'
  ended : ∀ {h k}, g.client h k → g.client h (p.ended k)

structure Holds (known : ι → List (α × ρ)) (s : System ι σ κ α ρ) : Prop where
  clients : ∀ i, g.client (known i) (s.client i)
  /-- A sender that has ended is not named any more. -/
  requests : ∀ m ∈ s.requests, ∃ i, (∀ j ∈ m.1, j = i) ∧ g.request (known i) m.2
  answers : ∀ m ∈ s.answers, g.request (known m.1) m.2.1

section Steps

variable {g p} {known : ι → List (α × ρ)} {s t : System ι σ κ α ρ} {e : Event ι χ η}

theorem Holds.put {i : ι} {k : κ} {l : List α} (hs : g.Holds known s)
    (hk : g.client (known i) k) (hl : ∀ r ∈ l, g.request (known i) r) :
    g.Holds known (s.put i k l) where
  clients := (Function.forall_update_iff s.client fun j k => g.client (known j) k).mpr
    ⟨hk, fun j _ => hs.clients j⟩
  requests m hm := by
    rcases List.mem_append.mp hm with hm | hm
    · exact hs.requests m hm
    · obtain ⟨r, hr, rfl⟩ := List.mem_map.mp hm
      exact ⟨i, fun j hj => (Option.some.inj hj).symm, hl r hr⟩
  answers := hs.answers

theorem Holds.terminate {i : ι} {k : κ} (hs : g.Holds known s) (hk : g.client (known i) k) :
    g.Holds known (s.terminate i k) where
  clients := (Function.forall_update_iff s.client fun j k => g.client (known j) k).mpr
    ⟨hk, fun j _ => hs.clients j⟩
  requests m hm := by
    obtain ⟨m', hm', rfl⟩ := List.mem_map.mp hm
    obtain ⟨sender, hsender, hrequest⟩ := hs.requests m' hm'
    exact ⟨sender, fun j hj => hsender j (Option.ite_none_left_eq_some.mp hj).2, hrequest⟩
  answers m hm := hs.answers m (List.mem_of_mem_filter hm)

omit [DecidableEq ι] in
theorem Holds.answered (hs : g.Holds known s) (n : ℕ) :
    g.Holds known { s with answers := s.answers.eraseIdx n } where
  clients := hs.clients
  requests := hs.requests
  answers m hm := hs.answers m (List.mem_of_mem_eraseIdx hm)

omit [DecidableEq ι] in
theorem Holds.answer (hs : g.Holds known s) {n : ℕ} {m : Option ι × α}
    (hm : s.requests[n]? = some m) (v : σ) (a : ρ) : g.Holds known (s.answer n m v a) where
  clients := hs.clients
  requests m' hm' := hs.requests m' (List.mem_of_mem_eraseIdx hm')
  answers m' hm' := by
    rcases List.mem_append.mp hm' with hm' | hm'
    · exact hs.answers m' hm'
    · obtain ⟨i, hi, rfl⟩ := List.mem_map.mp hm'
      obtain ⟨sender, hsender, hrequest⟩ := hs.requests m (List.mem_of_getElem? hm)
      exact hsender i (Option.mem_toList.mp hi) ▸ hrequest

omit [DecidableEq ι] in
theorem Holds.append (hkept : g.KeptBy p) (hs : g.Holds known s) (more : ι → List (α × ρ)) :
    g.Holds (fun i => known i ++ more i) s where
  clients i := hkept.client_append _ (hs.clients i)
  requests m hm := by
    obtain ⟨i, hi, hrequest⟩ := hs.requests m hm
    exact ⟨i, hi, hkept.request_append _ hrequest⟩
  answers m hm := hkept.request_append _ (hs.answers m hm)

theorem Holds.step (hkept : g.KeptBy p) (hs : g.Holds known s) (hstep : p.step s e = some t) :
    g.Holds (fun i => known i ++ s.tells i e) t := by
  have hknown := hs.append hkept fun i => s.tells i e
  cases e with
  | act i c =>
      obtain ⟨⟨k, l⟩, hact, rfl⟩ := Option.map_eq_some_iff.mp hstep
      obtain ⟨hk, hl⟩ := hkept.act (hknown.clients i) hact
      exact hknown.put hk hl
  | serve n h =>
      obtain ⟨m, hm, hserved⟩ := Option.bind_eq_some_iff.mp hstep
      obtain ⟨⟨v, a⟩, -, rfl⟩ := Option.map_eq_some_iff.mp hserved
      exact hknown.answer hm v a
  | receive n =>
      obtain ⟨m, hm, rfl⟩ := Option.map_eq_some_iff.mp hstep
      have htold : s.tells m.1 (.receive n : Event ι χ η) = [m.2] := by
        simp [System.tells, hm]
      dsimp only
      split
      · rename_i k l hreceive
        obtain ⟨hk, hl⟩ := hkept.receive (hs.clients m.1)
          (hs.answers m (List.mem_of_getElem? hm)) hreceive
        refine (hknown.answered n).put ?_ ?_
        · rw [htold]
          exact hk
        · rw [htold]
          exact hl
      · exact (hknown.answered n).terminate (hkept.ended (hknown.clients m.1))
  | terminate i =>
      obtain rfl := Option.some.inj hstep
      exact hknown.terminate (hkept.ended (hknown.clients i))

theorem Holds.run (hkept : g.KeptBy p) (hs : g.Holds known s) {es : List (Event ι χ η)}
    (hrun : Machine.run p.step s es = some t) :
    g.Holds (fun i => known i ++ p.told s es i) t := by
  induction es generalizing s known with
  | nil =>
      obtain rfl := Option.some.inj hrun
      simpa [told] using hs
  | cons e es ih =>
      obtain ⟨s', hstep, hrest⟩ := run_cons_eq_some.mp hrun
      have hlater := ih (hs.step hkept hstep) hrest
      simpa [told, hstep, List.append_assoc] using hlater

end Steps

end Grounds

end Tootti.Machine.Protocol
