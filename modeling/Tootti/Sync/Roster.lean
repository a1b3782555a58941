import Tootti.Machine.Run
import Tootti.Machine.Register
import Tootti.Model.Session

/-!
The players of one session, edited by any number of clients.

Every client edits `currentPlayerList` in the same way: it takes a copy of
the list (its Session object's, or the one a join query returned), changes
the entries of its own user in the copy, and sends the whole copy. What the
list is for is stated separately, as `Presence`: each user is in the session
or not, and if in, ready or not, and only the user's own actions change that.

The document follows `Presence` as long as no write is stale: the copy it was
computed from agrees with the document, when the write arrives, on the
entries of all other users.
-/

namespace Tootti.RosterSync

open Machine Roster

/-- A write of the whole list. The source sends `list` only; `base` is the
copy it was computed from. -/
structure RosterWrite where
  base : Roster
  list : Roster

/-- `updateData:` on the field replaces what it held. -/
def RosterWrite.apply (w : RosterWrite) (_ : Roster) : Roster := w.list

/-- What one client holds. Clients are named by the uid of their user. -/
structure Client where
  cached : Option Roster
  /-- Lists its join queries were answered with, not yet processed. -/
  answers : List Roster
  listening : Bool
  snapshots : List Roster

structure System where
  register : Register String Roster RosterWrite
  client : String → Client

inductive Event
  | answerQuery (c : String)
  | enter (c : String)
  | listen (c : String)
  | setActivity (c : String) (isActive : Bool)
  | setStatus (c : String) (status : Bool)
  /-- The client's oldest outstanding write reaches the server. -/
  | arrive (c : String)
  | deliver (c : String)

namespace System

def initial (l : Roster) : System where
  register := .initial l
  client _ := ⟨none, [], false, []⟩

def list (s : System) : Roster := s.register.value

def view (s : System) (c : String) : Roster := s.register.view RosterWrite.apply c

def setClient (s : System) (c : String) (k : Client) : System :=
  { s with client := Function.update s.client c k }

def issue (s : System) (c : String) (w : RosterWrite) : System :=
  { s with register := s.register.issue c w }

/-- All writes are applied and all snapshots delivered. -/
def Quiet (s : System) : Prop := s.register.Settled ∧ ∀ c, (s.client c).snapshots = []

end System

def Client.notified (l : Roster) (k : Client) : Client :=
  if k.listening then { k with snapshots := k.snapshots ++ [l] } else k

/-- One event. `name` gives each user's username. -/
def step (name : String → String) (s : System) : Event → Option System
  | .answerQuery c =>
      let k := s.client c
      some (s.setClient c { k with answers := k.answers ++ [s.list] })
  | .enter c =>
      let k := s.client c
      match k.answers with
      | [] => none
      | l :: rest =>
          let cpl := Roster.join (name c) c l
          let s := s.setClient c { k with cached := some cpl, answers := rest }
          -- the list is sent only if the user was not found in it
          some (if l.contains c then s else s.issue c ⟨l, cpl⟩)
  | .listen c =>
      let k := s.client c
      match k.cached with
      | none => none
      | some _ =>
          -- a new listener is given the document as it stands
          some (s.setClient c { k with listening := true, snapshots := k.snapshots ++ [s.list] })
  | .setActivity c isActive =>
      let k := s.client c
      k.cached.bind fun l =>
        (l.withActivity isActive (some (name c)) (some c)).map fun l' =>
          (s.setClient c { k with cached := some l' }).issue c ⟨l, l'⟩
  | .setStatus c status =>
      let k := s.client c
      k.cached.map fun l =>
        let l' := l.setStatus status (some c)
        (s.setClient c { k with cached := some l' }).issue c ⟨l, l'⟩
  | .arrive c =>
      (s.register.arrive RosterWrite.apply c).map fun r =>
        { register := r, client := fun u => (s.client u).notified r.value }
  | .deliver c =>
      let k := s.client c
      match k.snapshots with
      | [] => none
      | l :: rest =>
          some (s.setClient c { k with cached := k.cached.map fun _ => l, snapshots := rest })

/-! ### What the list is for -/

abbrev Presence := String → Option Bool

/-- A user's own actions, and nothing else, change the user's presence. A
join sets the status only of a user who was not in. -/
def presenceStep (P : Presence) : Event → Presence
  | .enter c => Function.update P c (some ((P c).getD false))
  | .setActivity c isActive => Function.update P c (if isActive then some false else none)
  | .setStatus c status => Function.update P c ((P c).map fun _ => status)
  | _ => P

/-- The presence a list shows; a user's newest entry has the status. -/
def shown (l : Roster) : Presence := fun u => (l.entriesOf u).getLast?.map Player.status

def presence (l : Roster) (es : List Event) : Presence := es.foldl presenceStep (shown l)

/-! ### When a run is free of stale copies -/

/-- The condition on a step. A join and a status update read a copy that
shows the user's own entries as the user's last write left them; an arriving
write was computed from a copy that agrees with the document on all other
users. -/
def Current (s : System) : Event → Prop
  | .enter c => ∀ l ∈ (s.client c).answers.head?, l.entriesOf c = (s.view c).entriesOf c
  | .setStatus c _ => ∀ l ∈ (s.client c).cached, l.entriesOf c = (s.view c).entriesOf c
  | .arrive c => ∀ w ∈ (s.register.outbox c).head?, AgreeExcept c w.base s.list
  | _ => True

instance (s : System) : (e : Event) → Decidable (Current s e)
  | .enter c => inferInstanceAs (Decidable (∀ l ∈ (s.client c).answers.head?,
      l.entriesOf c = (s.view c).entriesOf c))
  | .setStatus c _ => inferInstanceAs (Decidable (∀ l ∈ (s.client c).cached,
      l.entriesOf c = (s.view c).entriesOf c))
  | .arrive c => inferInstanceAs (Decidable (∀ w ∈ (s.register.outbox c).head?,
      AgreeExcept c w.base s.list))
  | .answerQuery _ | .listen _ | .setActivity _ _ | .deliver _ => .isTrue trivial

/-- Each user's own view shows the user's presence, and outstanding writes
change no entry but the sender's. -/
structure Follows (s : System) (P : Presence) : Prop where
  shows : ∀ u, shown (s.view u) u = P u
  frame : ∀ c, ∀ w ∈ s.register.outbox c, AgreeExcept c w.list w.base

theorem follows_initial (l : Roster) : Follows (.initial l) (shown l) where
  shows u := by simp [System.view, System.initial]
  frame c w hw := by simp [System.initial] at hw

theorem shown_congr {l m : Roster} {u : String} (h : l.entriesOf u = m.entriesOf u) :
    shown l u = shown m u := by
  rw [shown, shown, h]

theorem shown_of_not_contains {l : Roster} {c : String} (h : l.contains c = false) :
    shown l c = none := by
  rw [shown, contains_eq_false.mp h]
  rfl

@[simp] theorem shown_addPlayer {name c : String} {l : Roster} :
    shown (addPlayer name c l) c = some false := by
  simp [shown]

@[simp] theorem shown_removePlayer {c : String} {l : Roster} :
    shown (removePlayer (some c) l) c = none := by
  simp [shown]

/-- A join adds the user who is not in, and leaves the status of one who is. -/
theorem shown_join {name c : String} {l : Roster} :
    shown (Roster.join name c l) c = some ((shown l c).getD false) := by
  rw [Roster.join]
  split
  · rename_i hin
    obtain ⟨p, hp, hpc⟩ := contains_eq_true.mp hin
    have hne : l.entriesOf c ≠ [] := List.ne_nil_of_mem (mem_own.mpr ⟨hp, hpc⟩)
    simp [shown, List.getLast?_eq_some_getLast hne]
  · rename_i hout
    have hnone : shown l c = none := shown_of_not_contains (Bool.eq_false_iff.mpr hout)
    rw [shown_addPlayer, hnone, Option.getD_none]

theorem shown_setStatus {l : Roster} {c : String} {status : Bool} :
    shown (l.setStatus status (some c)) c = (shown l c).map fun _ => status := by
  rw [shown, entriesOf_setStatus_self, List.getLast?_map, Option.map_map, shown, Option.map_map]
  rfl

theorem withActivity_spec {l l' : Roster} {isActive : Bool} {name c : String}
    (h : l.withActivity isActive (some name) (some c) = some l') :
    shown l' c = (if isActive then some false else none) ∧ AgreeExcept c l' l := by
  cases isActive with
  | true =>
      simp only [withActivity, if_true, Option.some.injEq] at h
      subst l'
      exact ⟨shown_addPlayer, fun u hu => entriesOf_addPlayer_of_ne hu⟩
  | false =>
      simp only [withActivity, Bool.false_eq_true, if_false, Option.some.injEq] at h
      subst l'
      exact ⟨shown_removePlayer, fun u hu => entriesOf_removePlayer_of_ne hu⟩

section Steps

variable {s : System} {P : Presence} {c : String}

theorem Follows.setClient (h : Follows s P) (k : Client) : Follows (s.setClient c k) P :=
  ⟨h.shows, h.frame⟩

/-- Sending a list that shows the sender's new presence and leaves all other
entries of its base alone keeps every view in step. -/
theorem Follows.issue (h : Follows s P) {l l' : Roster} {p : Option Bool} (hself : shown l' c = p)
    (hother : AgreeExcept c l' l) :
    Follows (s.issue c ⟨l, l'⟩) (Function.update P c p) where
  shows u := by
    by_cases hu : u = c
    · subst u
      simpa [System.view, System.issue, RosterWrite.apply] using hself
    · have hview : (s.issue c ⟨l, l'⟩).view u = s.view u := Register.view_issue_of_ne _ hu
      rw [Function.update_of_ne hu, hview]
      exact h.shows u
  frame d w hw := by
    by_cases hd : d = c
    · subst d
      have hout : (s.issue c ⟨l, l'⟩).register.outbox c = s.register.outbox c ++ [⟨l, l'⟩] :=
        Register.issue_outbox_self _
      rw [hout] at hw
      rcases List.mem_append.mp hw with hw | hw
      · exact h.frame c w hw
      · rw [List.mem_singleton.mp hw]
        exact hother
    · have hout : (s.issue c ⟨l, l'⟩).register.outbox d = s.register.outbox d :=
        Register.issue_outbox_of_ne _ hd
      exact h.frame d w (hout ▸ hw)

theorem Follows.arrive (h : Follows s P) {r : Register String Roster RosterWrite}
    (hr : s.register.arrive RosterWrite.apply c = some r) (hcur : Current s (.arrive c))
    (client : String → Client) : Follows ⟨r, client⟩ P := by
  obtain ⟨w, ws, hout, hreg⟩ := Register.arrive_eq_some.mp hr
  have hw : w ∈ s.register.outbox c := hout ▸ List.mem_cons_self
  refine ⟨fun u => ?_, fun d v hv => ?_⟩
  · by_cases hu : u = c
    · subst u
      have hview : r.view RosterWrite.apply c = s.view c := Register.view_arrive_self hr
      simpa [System.view, hview] using h.shows c
    · -- the written list agrees with its base, and the base with the document
      have hkeep : r.value.entriesOf u = s.list.entriesOf u := by
        rw [hreg]
        exact (h.frame c w hw u hu).trans (hcur w (by simp [hout]) u hu)
      refine Eq.trans (shown_congr ?_) (h.shows u)
      refine Register.proj_view_arrive_of_ne (entriesOf u) (fun w a b _ => rfl) hr hu ?_
      exact hkeep
  · by_cases hd : d = c
    · subst d
      refine h.frame c v ?_
      rw [hreg] at hv
      simp only [Function.update_self] at hv
      exact hout ▸ List.mem_cons_of_mem w hv
    · refine h.frame d v ?_
      rw [hreg] at hv
      simpa [Function.update_of_ne hd] using hv

end Steps

/-- One step that reads no stale copy and applies no stale write keeps the
views in step with the presence. -/
theorem follows_step {name : String → String} {s s' : System} {e : Event} {P : Presence}
    (h : Follows s P) (hcur : Current s e) (hstep : step name s e = some s') :
    Follows s' (presenceStep P e) := by
  cases e with
  | answerQuery c =>
      simp only [step, Option.some.injEq] at hstep
      exact hstep ▸ h.setClient _
  | enter c =>
      simp only [step] at hstep
      cases hans : (s.client c).answers with
      | nil => simp [hans] at hstep
      | cons l rest =>
          simp only [hans, Option.some.injEq] at hstep
          have hown := hcur l (by simp [hans])
          have hshow : shown (Roster.join (name c) c l) c = some ((P c).getD false) := by
            rw [shown_join, shown_congr hown, h.shows c]
          subst s'
          split
          · -- the user was found: nothing is sent, and the presence was set before
            rename_i hin
            have hsame : presenceStep P (.enter c) = P := by
              have hlist : Roster.join (name c) c l = l := if_pos hin
              rw [hlist, shown_congr hown, h.shows c] at hshow
              rw [presenceStep, ← hshow, Function.update_eq_self]
            rw [hsame]
            exact h.setClient _
          · exact (h.setClient _).issue hshow fun u hu => entriesOf_join_of_ne hu
  | listen c =>
      simp only [step] at hstep
      cases hk : (s.client c).cached with
      | none => simp [hk] at hstep
      | some l =>
          simp only [hk, Option.some.injEq] at hstep
          exact hstep ▸ h.setClient _
  | setActivity c isActive =>
      simp only [step, Option.bind_eq_some_iff, Option.map_eq_some_iff] at hstep
      obtain ⟨l, -, l', hl', rfl⟩ := hstep
      obtain ⟨hself, hother⟩ := withActivity_spec hl'
      exact (h.setClient _).issue hself hother
  | setStatus c status =>
      simp only [step, Option.map_eq_some_iff] at hstep
      obtain ⟨l, hl, rfl⟩ := hstep
      have hshow : shown (l.setStatus status (some c)) c = (P c).map fun _ => status := by
        rw [shown_setStatus, shown_congr (hcur l hl), h.shows c]
      exact (h.setClient _).issue hshow fun u hu => entriesOf_setStatus_of_ne hu
  | arrive c =>
      simp only [step, Option.map_eq_some_iff] at hstep
      obtain ⟨r, hr, rfl⟩ := hstep
      exact h.arrive hr hcur _
  | deliver c =>
      simp only [step] at hstep
      cases hsn : (s.client c).snapshots with
      | nil => simp [hsn] at hstep
      | cons l rest =>
          simp only [hsn, Option.some.injEq] at hstep
          exact hstep ▸ h.setClient _

/-- In a run free of stale copies the document ends up showing every user
with the presence the user's own actions gave it. -/
theorem list_shows_presence {name : String → String} {l : Roster} {es : List Event} {s : System}
    (hrun : run (step name) (.initial l) es = some s)
    (hcur : Meets (step name) Current (.initial l) es) (hquiet : s.Quiet) (u : String) :
    shown s.list u = presence l es u := by
  have hsim : ∀ s e s' P, Follows s P → Current s e → step name s e = some s' →
      Follows s' (presenceStep P e) := fun _ _ _ _ h hC hs => follows_step h hC hs
  have hfollows : Follows s (presence l es) := run_simulates hsim hcur hrun (follows_initial l)
  have hview : s.view u = s.list := Register.view_of_settled hquiet.1
  exact hview ▸ hfollows.shows u

def Event.client : Event → String
  | .answerQuery c | .enter c | .listen c | .setActivity c _ | .setStatus c _ | .arrive c
  | .deliver c => c

/-- A client without a listener has nothing to send or receive before its
first event. -/
def Idle (s : System) (c : String) : Prop :=
  s.register.outbox c = [] ∧ (s.client c).listening = false ∧ (s.client c).snapshots = []

theorem Idle.setClient {s : System} {c d : String} {k : Client} (h : Idle s c) (hd : d ≠ c) :
    Idle (s.setClient d k) c := by
  have hk : (s.setClient d k).client c = s.client c := Function.update_of_ne hd.symm _ _
  exact ⟨h.1, hk ▸ h.2.1, hk ▸ h.2.2⟩

theorem Idle.issue {s : System} {c d : String} {w : RosterWrite} (h : Idle s c) (hd : d ≠ c) :
    Idle (s.issue d w) c :=
  ⟨(Register.issue_outbox_of_ne w hd.symm).trans h.1, h.2⟩

theorem idle_step {name : String → String} {s s' : System} {e : Event} {c : String}
    (h : Idle s c) (he : e.client ≠ c) (hstep : step name s e = some s') : Idle s' c := by
  cases e with
  | answerQuery d =>
      simp only [step, Option.some.injEq] at hstep
      exact hstep ▸ h.setClient he
  | enter d =>
      simp only [step] at hstep
      split at hstep <;> simp only [Option.some.injEq, reduceCtorEq] at hstep
      subst s'
      split
      · exact h.setClient he
      · exact (h.setClient he).issue he
  | listen d | deliver d =>
      simp only [step] at hstep
      split at hstep <;> simp only [Option.some.injEq, reduceCtorEq] at hstep
      exact hstep ▸ h.setClient he
  | setActivity d isActive =>
      simp only [step, Option.bind_eq_some_iff, Option.map_eq_some_iff] at hstep
      obtain ⟨l, -, l', -, rfl⟩ := hstep
      exact (h.setClient he).issue he
  | setStatus d status =>
      simp only [step, Option.map_eq_some_iff] at hstep
      obtain ⟨l, -, rfl⟩ := hstep
      exact (h.setClient he).issue he
  | arrive d =>
      simp only [step, Option.map_eq_some_iff] at hstep
      obtain ⟨r, hr, rfl⟩ := hstep
      obtain ⟨w, ws, -, rfl⟩ := Register.arrive_eq_some.mp hr
      obtain ⟨hout, hlist, hsnap⟩ := h
      simp only [Idle, Client.notified, hlist]
      exact ⟨(Function.update_of_ne (Ne.symm he) _ _).trans hout, hlist, hsnap⟩

/-- A run leaves nothing outstanding if it leaves nothing outstanding for
the clients that acted in it. -/
theorem quiet_of_actors {name : String → String} {l : Roster} {es : List Event} {s : System}
    (hrun : run (step name) (.initial l) es = some s)
    (hactors : ∀ e ∈ es, s.register.outbox e.client = [] ∧ (s.client e.client).snapshots = []) :
    s.Quiet := by
  have hquiet : ∀ c, s.register.outbox c = [] ∧ (s.client c).snapshots = [] := by
    intro c
    by_cases hc : ∃ e ∈ es, e.client = c
    · obtain ⟨e, he, rfl⟩ := hc
      exact hactors e he
    · have hother : ∀ s e s', e ∈ es → Idle s c → step name s e = some s' → Idle s' c :=
        fun s e s' he h hs => idle_step h (fun hec => hc ⟨e, he, hec⟩) hs
      have hidle : Idle s c := run_invariant_of_mem hother hrun ⟨rfl, rfl, rfl⟩
      exact ⟨hidle.1, hidle.2.2⟩
  exact ⟨fun c => (hquiet c).1, fun c => (hquiet c).2⟩

/-- The two joins one after the other, with the second user leaving again. -/
theorem list_shows_presence_sequential :
    ∃ s, run (step id) (.initial [⟨"host", "host", false⟩])
        [.answerQuery "ann", .enter "ann", .arrive "ann", .listen "ann", .setStatus "ann" true,
          .arrive "ann", .deliver "ann", .deliver "ann", .answerQuery "bob", .enter "bob",
          .arrive "bob", .deliver "ann", .setActivity "bob" false, .arrive "bob",
          .deliver "ann"] = some s ∧
      shown s.list "ann" = some true ∧ shown s.list "bob" = none := by
  have hrun : run (step id) (.initial [⟨"host", "host", false⟩])
      [.answerQuery "ann", .enter "ann", .arrive "ann", .listen "ann", .setStatus "ann" true,
        .arrive "ann", .deliver "ann", .deliver "ann", .answerQuery "bob", .enter "bob",
        .arrive "bob", .deliver "ann", .setActivity "bob" false, .arrive "bob",
        .deliver "ann"] = some _ := rfl
  have hquiet := quiet_of_actors hrun (by decide)
  exact ⟨_, hrun, list_shows_presence hrun (by decide) hquiet "ann",
    list_shows_presence hrun (by decide) hquiet "bob"⟩

/-- Two users join at the same time: both queries are answered before either
list arrives, and the second list takes the first user out again. -/
theorem roster_update_lost :
    ¬ ∀ (name : String → String) (l : Roster) (es : List Event) (s : System),
      run (step name) (.initial l) es = some s → s.Quiet →
        ∀ u, shown s.list u = presence l es u := by
  intro h
  have hrun : run (step id) (.initial [⟨"host", "host", false⟩])
      [.answerQuery "ann", .answerQuery "bob", .enter "ann", .enter "bob",
        .arrive "ann", .arrive "bob"] = some _ := rfl
  exact absurd (h _ _ _ _ hrun (quiet_of_actors hrun (by decide)) "ann") (by decide)

end Tootti.RosterSync
