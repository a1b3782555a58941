import Tootti.Machine.Inbox
import Tootti.Sync.Roster

/-!
The rosters the clients show once everything has been delivered.

A listening client shows the list of the snapshot it was given last, until it
changes the list itself; and what it changes it sends, so that the server comes
back to it with another snapshot. There is one exception. A client that joins the
session again, and finds its user in the list it was answered with, keeps that list
and sends nothing, however old the answer is.
-/

namespace Tootti.RosterSync

open Machine

/-- The cached list and the snapshots on their way, as an inbox. -/
def Client.inbox (k : Client) : Inbox Roster := ⟨k.cached, k.snapshots⟩

/-- Nothing of the client's is on its way to the document, nor a snapshot to the
client. -/
structure Delivered (s : System) (c : String) : Prop where
  listening : (s.client c).listening
  sent : s.register.outbox c = []
  told : (s.client c).snapshots = []

/-- Every client to which everything was delivered has the list of the document. -/
def Agreed (s : System) : Prop := ∀ c, Delivered s c → (s.client c).cached = some s.list

/-- A client with nothing on its way that joins again, and is in the list it was
answered with, was answered with the list of the document. -/
def RejoinsCurrent (s : System) : Event → Prop
  | .enter c => Delivered s c → ∀ l ∈ (s.client c).answers.head?, l.contains c → l = s.list
  | _ => True

/-- A listening client has a list, and has sent a write that is still on its way or
will have seen the list of the document when it has seen its snapshots. -/
def Told (s : System) : Prop := ∀ c, (s.client c).listening →
  (s.client c).cached.isSome ∧
    (s.register.outbox c ≠ [] ∨ (s.client c).inbox.newest = some s.list)

theorem told_initial (l : Roster) : Told (.initial l) :=
  fun c h => absurd h (by simp [System.initial])

theorem Told.agreed {s : System} (h : Told s) : Agreed s := by
  intro c hc
  rcases (h c hc.listening).2 with hsent | hnewest
  · exact absurd hc.sent hsent
  · have hpending : (s.client c).inbox.pending = [] := hc.told
    rw [Inbox.newest_of_pending_nil hpending] at hnewest
    exact hnewest

theorem newest_of_snapshots {k : Client} {old : List Roster} {l : Roster}
    (h : k.snapshots = old ++ [l]) : k.inbox.newest = some l := by
  simp [Client.inbox, Inbox.newest, h]

section Steps

variable {name : String → String} {s s' : System} {c : String} {k : Client}

/-- A change of one client, without a write. -/
theorem Told.setClient (h : Told s)
    (hk : k.listening → k.cached.isSome ∧
      (s.register.outbox c ≠ [] ∨ k.inbox.newest = some s.list)) : Told (s.setClient c k) := by
  intro u hu
  by_cases huc : u = c
  · subst u
    simp only [System.setClient, Function.update_self] at hu ⊢
    exact hk hu
  · simp only [System.setClient, Function.update_of_ne huc] at hu ⊢
    exact h u hu

/-- A change of one client that is sent. -/
theorem Told.issue (h : Told s) (w : RosterWrite) (hcached : k.cached.isSome) :
    Told ((s.setClient c k).issue c w) := by
  intro u hu
  by_cases huc : u = c
  · subst u
    simp [System.setClient, System.issue, hcached]
  · simp only [System.setClient, System.issue, Function.update_of_ne huc] at hu ⊢
    rw [Register.issue_outbox_of_ne w huc]
    exact h u hu

theorem Told.notified (h : Told s) (r : Register String Roster RosterWrite) :
    Told ⟨r, fun u => (s.client u).notified r.value⟩ := by
  intro u hu
  simp only [Client.notified] at hu ⊢
  split at hu
  · rename_i hlisten
    rw [if_pos hlisten]
    exact ⟨(h u hlisten).1, Or.inr (newest_of_snapshots rfl)⟩
  · contradiction

/-- A join that sends nothing. -/
theorem Told.enter (h : Told s) {l : Roster} {rest : List Roster}
    (hanswers : (s.client c).answers = l :: rest) (hin : l.contains c)
    (hcurrent : RejoinsCurrent s (.enter c)) :
    Told (s.setClient c { s.client c with cached := some l, answers := rest }) := by
  refine h.setClient fun hlisten => ⟨rfl, ?_⟩
  by_cases hsent : s.register.outbox c = []
  · right
    cases hpending : (s.client c).snapshots with
    | nil =>
        have hlist := hcurrent ⟨hlisten, hsent, hpending⟩ l (by rw [hanswers]; rfl) hin
        rw [Inbox.newest_of_pending_nil hpending, ← hlist]
        rfl
    | cons m ms =>
        -- the snapshots on their way replace the answer
        have hnewest := (h c hlisten).2.resolve_left fun hne => hne hsent
        simp only [Client.inbox, Inbox.newest, hpending, List.getLast?_cons] at hnewest ⊢
        exact hnewest
  · exact Or.inl hsent

theorem join_of_contains {name c : String} {l : Roster} (h : l.contains c) :
    Roster.join name c l = l := by
  rw [Roster.join, if_pos h]

/-- Only a join can leave a client with an old list for good. -/
theorem agreed_step_iff (h : Told s) {e : Event} (hstep : step name s e = some s') :
    (RejoinsCurrent s e → Told s') ∧ (Agreed s' → RejoinsCurrent s e) := by
  cases e with
  | answerQuery c =>
      obtain rfl := Option.some.inj hstep
      exact ⟨fun _ => h.setClient (h c), fun _ => trivial⟩
  | enter c =>
      simp only [step] at hstep
      split at hstep
      · simp at hstep
      · rename_i l rest hanswers
        split at hstep
        · rename_i hin
          obtain rfl := Option.some.inj hstep
          rw [join_of_contains hin]
          refine ⟨h.enter hanswers hin, fun hagreed hc l' hl' _ => ?_⟩
          obtain rfl : l = l' := by simpa [hanswers] using hl'
          have hcached := hagreed c ⟨by simpa [System.setClient] using hc.listening, hc.sent,
            by simpa [System.setClient] using hc.told⟩
          simpa [System.setClient, System.list] using hcached
        · rename_i hout
          obtain rfl := Option.some.inj hstep
          refine ⟨fun _ => h.issue _ rfl, fun _ _ l' hl' hin => ?_⟩
          obtain rfl : l = l' := by simpa [hanswers] using hl'
          exact absurd hin hout
  | listen c =>
      simp only [step] at hstep
      split at hstep
      · simp at hstep
      · rename_i l hcached
        obtain rfl := Option.some.inj hstep
        refine ⟨fun _ => h.setClient fun _ => ⟨?_, Or.inr (newest_of_snapshots rfl)⟩,
          fun _ => trivial⟩
        rw [hcached]
        rfl
  | setActivity c isActive =>
      obtain ⟨l, -, hmap⟩ := Option.bind_eq_some_iff.mp hstep
      obtain ⟨l', -, rfl⟩ := Option.map_eq_some_iff.mp hmap
      exact ⟨fun _ => h.issue _ rfl, fun _ => trivial⟩
  | setStatus c status =>
      obtain ⟨l, -, rfl⟩ := Option.map_eq_some_iff.mp hstep
      exact ⟨fun _ => h.issue _ rfl, fun _ => trivial⟩
  | arrive c =>
      obtain ⟨r, -, rfl⟩ := Option.map_eq_some_iff.mp hstep
      exact ⟨fun _ => h.notified r, fun _ => trivial⟩
  | deliver c =>
      simp only [step] at hstep
      split at hstep
      · simp at hstep
      · rename_i l rest hsnapshots
        obtain rfl := Option.some.inj hstep
        refine ⟨fun _ => h.setClient fun hlisten => ?_, fun _ => trivial⟩
        obtain ⟨hcached, htold⟩ := h c hlisten
        obtain ⟨m, hm⟩ := Option.isSome_iff_exists.mp hcached
        refine ⟨by simp [hm], htold.imp_right fun hnewest => ?_⟩
        have hdeliver : (s.client c).inbox.deliver = some (l, ⟨some l, rest⟩) :=
          Inbox.deliver_eq_some.mpr ⟨rest, hsnapshots, rfl⟩
        rw [← Inbox.newest_deliver hdeliver] at hnewest
        simpa [Client.inbox, hm] using hnewest

end Steps

/-- In every run, the clients to which everything was delivered have the list of
the document, in every state on the way, exactly if none of them joined again with
an old list. -/
theorem agreed_iff_rejoinsCurrent (name : String → String) (l : Roster) (es : List Event) :
    EveryStep (step name) (fun _ _ s' => Agreed s') (.initial l) es ↔
      Meets (step name) RejoinsCurrent (.initial l) es := by
  refine everyStep_iff_of_invariant (fun s e s' h hstep => ?_) (fun s e s' h hstep hagreed => ?_)
    (told_initial l) es
  · obtain ⟨hkeep, hcurrent⟩ := agreed_step_iff h hstep
    exact ⟨hcurrent, fun hrejoins => (hkeep hrejoins).agreed⟩
  · obtain ⟨hkeep, hcurrent⟩ := agreed_step_iff h hstep
    exact hkeep (hcurrent hagreed)

end Tootti.RosterSync
