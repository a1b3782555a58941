import Mathlib.Data.String.Basic
import Tootti.Machine.Run
import Tootti.Model.Join

/-!
Creating sessions, one step at a time.

`createNewSession:` asks for the sessions of the host that have the name, and
adds a document when there are none. Between the answer and the arrival of the
new document anything can happen, another tap on the same button included: the
steps of all calls, of all users on all devices, come in any order. An added
document is visible to the device that adds it before it reaches the server. A
device that is offline answers its queries itself, from the documents it happens
to have in its cache, and reports no error.
-/

namespace Tootti.Names

open Machine

inductive Phase
  /-- The query for duplicates is on its way. -/
  | asked
  /-- It found none among `seen`, the documents the answer was taken from. -/
  | unused (seen : List String)
  /-- `addDocumentWithData:` was called, and the document has not arrived. -/
  | adding (seen : List String)
  | ended
  deriving DecidableEq, Repr

structure Call where
  device : Nat
  user : User
  sessionName : String
  phase : Phase
  deriving DecidableEq, Repr

structure State where
  sessions : Collection String SessionDocument
  calls : List Call

inductive Event
  | createNewSession (device : Nat) (user : User) (sessionName : String)
  /-- The server answers, or the cache of a device that is offline, which has the
  documents `cached` at most. -/
  | answer (i : Nat) (cached : Option (List String))
  /-- The completion of the query is called. -/
  | callback (i : Nat)
  /-- The new document arrives, under an identifier that no other has. -/
  | arrive (i : Nat) (sid : String)
  | fail (i : Nat)

def initial : State := ⟨⟨[], List.nodup_nil⟩, []⟩

namespace Call

/-- The document is one the query asks for. -/
def asksFor (c : Call) (d : SessionDocument) : Bool :=
  d.hostUid = c.user.uid && d.sessionName = c.sessionName

def sameName (c e : Call) : Bool := c.user.uid = e.user.uid && c.sessionName = e.sessionName

def seen (c : Call) : List String :=
  match c.phase with
  | .unused seen | .adding seen => seen
  | .asked | .ended => []

def isAdding (c : Call) : Bool :=
  match c.phase with
  | .adding _ => true
  | .asked | .unused _ | .ended => false

def document (c : Call) (sid : String) : SessionDocument :=
  (createdSession c.user sid c.sessionName).docData

end Call

namespace State

def put (s : State) (i : Nat) (c : Call) (phase : Phase) : State :=
  { s with calls := s.calls.set i { c with phase } }

/-- The documents an answer is taken from. -/
def shown (s : State) : Option (List String) → List (String × SessionDocument)
  | none => s.sessions.docs
  | some cached => s.sessions.docs.filter fun x => cached.contains x.1

/-- What the query of a call finds: the documents that are `shown`, and those its
own device is adding. -/
def hasDuplicate (s : State) (c : Call) (cached : Option (List String)) : Bool :=
  (s.shown cached).any (fun x => c.asksFor x.2) ||
    s.calls.any fun e => e.device == c.device && e.isAdding && c.sameName e

end State

def step (s : State) : Event → Option State
  | .createNewSession device user sessionName =>
      some { s with calls := s.calls ++ [⟨device, user, sessionName, .asked⟩] }
  | .answer i cached => do
      let c ← s.calls[i]?
      match c.phase with
      | .asked =>
          let seen := (s.shown cached).map Prod.fst
          some (s.put i c (if s.hasDuplicate c cached then .ended else .unused seen))
      | _ => none
  | .callback i => do
      let c ← s.calls[i]?
      match c.phase with
      | .unused seen => some (s.put i c (.adding seen))
      | _ => none
  | .arrive i sid => do
      let c ← s.calls[i]?
      match c.phase with
      | .adding _ =>
          if h : s.sessions.find? sid = none then
            some { s.put i c .ended with
              sessions := s.sessions.insert (· ≤ ·) sid (c.document sid) h }
          else none
      | _ => none
  | .fail i => do
      let c ← s.calls[i]?
      some (s.put i c .ended)

/-- No two documents have the same host and the same name. -/
def Unique (c : Collection String SessionDocument) : Prop :=
  ∀ sid d sid' d', c.find? sid = some d → c.find? sid' = some d' → d.hostUid = d'.hostUid →
    d.sessionName = d'.sessionName → sid = sid'

/-- When a document arrives, every other of its host and name was among those the
answer to its call's query was taken from: none has come since the answer, and
none was missing in the cache. -/
def Undisturbed (s : State) : Event → Prop
  | .arrive i _ => ∀ c ∈ s.calls[i]?, ∀ x ∈ s.sessions.docs, c.asksFor x.2 → x.1 ∈ c.seen
  | _ => True

instance (s : State) : (e : Event) → Decidable (Undisturbed s e)
  | .arrive i _ => inferInstanceAs
      (Decidable (∀ c ∈ s.calls[i]?, ∀ x ∈ s.sessions.docs, c.asksFor x.2 → x.1 ∈ c.seen))
  | .createNewSession .. | .answer .. | .callback _ | .fail _ => .isTrue trivial

/-- What a call has seen is in the collection, and is not what it asked
for. -/
def Looked (s : State) : Prop :=
  ∀ c ∈ s.calls, ∀ sid ∈ c.seen, ∃ d, s.sessions.find? sid = some d ∧ c.asksFor d = false

structure Inv (s : State) : Prop where
  looked : Looked s
  unique : Unique s.sessions

section Steps

variable {s s' : State} {c : Call} {i : Nat}

theorem looked_put (h : Looked s) {phase : Phase}
    (hc : ∀ sid ∈ ({ c with phase } : Call).seen, ∃ d, s.sessions.find? sid = some d ∧
      c.asksFor d = false) : Looked (s.put i c phase) := by
  intro e he
  rcases List.mem_or_eq_of_mem_set he with he | rfl
  · exact h e he
  · exact hc

theorem mem_of_mem_shown {cached : Option (List String)} {x : String × SessionDocument}
    (h : x ∈ s.shown cached) : x ∈ s.sessions.docs := by
  cases cached with
  | none => exact h
  | some cached => exact List.mem_of_mem_filter h

theorem looked_answer (h : Looked s) {cached : Option (List String)}
    (hfree : s.hasDuplicate c cached = false) :
    Looked (s.put i c (.unused ((s.shown cached).map Prod.fst))) := by
  refine looked_put h fun sid hsid => ?_
  obtain ⟨x, hx, rfl⟩ := List.mem_map.mp hsid
  rw [State.hasDuplicate, Bool.or_eq_false_iff, List.any_eq_false] at hfree
  have hfound : s.sessions.find? x.1 = some x.2 :=
    Collection.find?_eq_some.mpr (mem_of_mem_shown hx)
  exact ⟨x.2, hfound, by simpa using hfree.1 x hx⟩

/-- An arriving document is nobody's duplicate exactly if its query could show all
of its host and name; it showed none. -/
theorem unique_insert_iff {sid : String} (h : Inv s) (hc : c ∈ s.calls)
    (hfree : s.sessions.find? sid = none) :
    Unique (s.sessions.insert (· ≤ ·) sid (c.document sid) hfree) ↔
      ∀ x ∈ s.sessions.docs, c.asksFor x.2 → x.1 ∈ c.seen := by
  have hasks (d : SessionDocument) : c.asksFor d = true ↔
      d.hostUid = c.user.uid ∧ d.sessionName = c.sessionName := by
    simp [Call.asksFor]
  constructor
  · intro hunique x hx hasked
    exfalso
    obtain ⟨hhost, hname⟩ := (hasks x.2).mp hasked
    have hold := Collection.find?_eq_some.mpr hx
    have heq := hunique x.1 x.2 sid (c.document sid)
      ((Collection.find?_insert_eq_some hfree).mpr (Or.inr hold))
      ((Collection.find?_insert_eq_some hfree).mpr (Or.inl ⟨rfl, rfl⟩)) hhost hname
    rw [heq, hfree] at hold
    exact Option.some_ne_none _ hold.symm
  · intro hseen
    -- a document of the host and name would have been seen, and was not asked for
    have hnone : ∀ j d, s.sessions.find? j = some d →
        ¬ (d.hostUid = c.user.uid ∧ d.sessionName = c.sessionName) := by
      intro j d hd hmatch
      have hasked := (hasks d).mpr hmatch
      have hj := hseen (j, d) (Collection.find?_eq_some.mp hd) hasked
      obtain ⟨d', hd', hnot⟩ := h.looked c hc j hj
      obtain rfl := Option.some.inj (hd.symm.trans hd')
      simp [hasked] at hnot
    intro j d j' d' hd hd' hhost hname
    rw [Collection.find?_insert_eq_some hfree] at hd hd'
    rcases hd with ⟨rfl, rfl⟩ | hd <;> rcases hd' with ⟨rfl, rfl⟩ | hd'
    · rfl
    · exact absurd ⟨hhost.symm, hname.symm⟩ (hnone j' d' hd')
    · exact absurd ⟨hhost, hname⟩ (hnone j d hd)
    · exact h.unique j d j' d' hd hd' hhost hname

theorem looked_insert {sid : String} (h : Looked s) (hfree : s.sessions.find? sid = none)
    (d : SessionDocument) :
    Looked { s.put i c .ended with sessions := s.sessions.insert (· ≤ ·) sid d hfree } := by
  intro e he j hj
  have hput : Looked (s.put i c .ended) := looked_put h fun _ h => absurd h List.not_mem_nil
  obtain ⟨d', hd', hnot⟩ := hput e he j hj
  exact ⟨d', (Collection.find?_insert_eq_some hfree).mpr (Or.inr hd'), hnot⟩

/-- What one step does: it leaves the documents and keeps in mind only what
was looked at, or it adds a document. -/
inductive Turn (s : State) (e : Event) (s' : State) : Prop
  | quiet (hcond : Undisturbed s e) (hsame : s'.sessions = s.sessions) (hlooked : Looked s')
  | arrived (c : Call) (sid : String) (hc : c ∈ s.calls) (hfree : s.sessions.find? sid = none)
      (hcond : Undisturbed s e ↔ ∀ x ∈ s.sessions.docs, c.asksFor x.2 → x.1 ∈ c.seen)
      (hadded : s'.sessions = s.sessions.insert (· ≤ ·) sid (c.document sid) hfree)
      (hlooked : Looked s')

theorem step_turn {e : Event} (h : Looked s) (hstep : step s e = some s') : Turn s e s' := by
  cases e with
  | createNewSession device user sessionName =>
      simp only [step, Option.some.injEq] at hstep
      subst s'
      refine .quiet trivial rfl fun e he => ?_
      rcases List.mem_append.mp he with he | he
      · exact h e he
      · obtain rfl := List.mem_singleton.mp he
        exact fun _ h => absurd h List.not_mem_nil
  | answer i cached =>
      simp only [step, Option.bind_eq_bind, Option.bind_eq_some_iff] at hstep
      obtain ⟨c, hc, hstep⟩ := hstep
      split at hstep <;> simp only [Option.some.injEq, reduceCtorEq] at hstep
      subst s'
      refine .quiet trivial rfl ?_
      cases hdup : s.hasDuplicate c cached with
      | true => exact looked_put h fun _ h => absurd h List.not_mem_nil
      | false => exact looked_answer h hdup
  | callback i =>
      simp only [step, Option.bind_eq_bind, Option.bind_eq_some_iff] at hstep
      obtain ⟨c, hc, hstep⟩ := hstep
      split at hstep <;> simp only [Option.some.injEq, reduceCtorEq] at hstep
      rename_i seen hphase
      subst s'
      have hseen : c.seen = seen := by rw [Call.seen, hphase]
      have hcalls := h c (List.mem_of_getElem? hc)
      rw [hseen] at hcalls
      exact .quiet trivial rfl (looked_put h hcalls)
  | arrive i sid =>
      simp only [step, Option.bind_eq_bind, Option.bind_eq_some_iff] at hstep
      obtain ⟨c, hc, hstep⟩ := hstep
      split at hstep
      · split at hstep <;> simp only [Option.some.injEq, reduceCtorEq] at hstep
        rename_i hfree
        subst s'
        refine .arrived c sid (List.mem_of_getElem? hc) hfree ?_ rfl (looked_insert h hfree _)
        simp only [Undisturbed, hc, Option.mem_some_iff, forall_eq']
      · simp at hstep
  | fail i =>
      simp only [step, Option.bind_eq_bind, Option.bind_eq_some_iff, Option.some.injEq] at hstep
      obtain ⟨c, hc, rfl⟩ := hstep
      exact .quiet trivial rfl (looked_put h fun _ h => absurd h List.not_mem_nil)

end Steps

/-- In a run of any calls, online or offline, the names stay unique per host exactly
if no new document finds one of its host and name that its call's query could not
show: one that came after the answer, or that the cache lacked. -/
theorem unique_iff_undisturbed (es : List Event) :
    EveryStep step (fun _ _ s' => Unique s'.sessions) initial es ↔
      Meets step Undisturbed initial es := by
  have hagree : ∀ s e s', Inv s → step s e = some s' →
      (Unique s'.sessions ↔ Undisturbed s e) := by
    intro s e s' h hstep
    cases step_turn h.looked hstep with
    | quiet hcond hsame hlooked => exact iff_of_true (hsame ▸ h.unique) hcond
    | arrived c sid hc hfree hcond hadded hlooked =>
        rw [hcond, hadded]
        exact unique_insert_iff h hc hfree
  have hkeep : ∀ s e s', Inv s → step s e = some s' → Unique s'.sessions → Inv s' := by
    intro s e s' h hstep hunique
    cases step_turn h.looked hstep with
    | quiet _ _ hlooked => exact ⟨hlooked, hunique⟩
    | arrived _ _ _ _ _ _ hlooked => exact ⟨hlooked, hunique⟩
  have hinit : Inv initial :=
    ⟨fun _ hc => absurd hc List.not_mem_nil,
      fun _ _ _ _ hd => by simp [initial, Collection.find?] at hd⟩
  exact everyStep_iff_of_invariant hagree hkeep hinit es

/-- The button is tapped again before the first call's query was answered. -/
theorem two_sessions_by_two_taps :
    ¬ ∀ es, EveryStep step (fun _ _ s' => Unique s'.sessions) initial es := by
  intro h
  let tap : Event := .createNewSession 0 ⟨"h", "host"⟩ "song"
  let before := [tap, tap, .answer 0 none, .answer 1 none, .callback 0, .callback 1,
    .arrive 0 "s"]
  have hrun : run step initial before = some _ := rfl
  have hlast := (h (before ++ [.arrive 1 "t"])).at hrun rfl
  exact absurd (hlast "s" _ "t" _ rfl rfl rfl rfl) (by decide)

end Tootti.Names
