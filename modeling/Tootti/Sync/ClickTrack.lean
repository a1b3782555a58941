import Tootti.Recording.Screen

/-!
The click track on two screens.

The Click-track screen and the Recording screen share the current Session.
Each has a snapshot listener, and a snapshot reaches both, one after the
other. A listener compares the snapshot's click track with the shared
Session's and, where they differ, updates that Session, so that the listener
that comes second finds nothing new. The Click-track screen's listener
passes the click track on to the Recording screen; the Recording screen's
passes it to nobody.
-/

namespace Tootti.ClickTrackSync

open Machine

structure State where
  user : User
  /-- `currentSession`, which both screens have cached. -/
  session : Session
  /-- `clickTrack` and `audioPlayer` of the Click-track screen. -/
  clickTrack : Option Audio
  audioPlayer : Option Nat
  recordingVC : RecordingScreen
  nextPlayer : Nat

inductive Listener
  | clickTrackSessionVC
  | recordingSessionVC
  deriving DecidableEq, Repr

inductive Event
  /-- A snapshot reaches both listeners, `first` before the other. The Recording
  screen `appears` if another tab was selected and its listener selects it. -/
  | snapshot (first : Listener) (appears : Bool) (os : Start) (d : SessionDocument)
  | recordAudio (os : Start)
  /-- The Recording screen appears again. -/
  | viewWillAppear

namespace State

/-- Both screens have loaded and appeared. -/
def loaded (user : User) (session : Session) (clock nextPlayer : Nat) : State where
  user := user
  session := session
  clickTrack := session.clickTrack
  audioPlayer := session.clickTrack.map Audio.player
  recordingVC := (RecordingScreen.initial clock).viewWillAppear (some session)
  nextPlayer := nextPlayer

def clickTrackListener (d : SessionDocument) (s : State) : State :=
  if d.newClickTrack (some s.session) then
    let session := s.session.followClickTrack d (s.user.uid, s.user.username) s.nextPlayer
    { s with
      session
      audioPlayer := session.clickTrack.map Audio.player
      clickTrack := session.clickTrack
      recordingVC := { s.recordingVC with clickTrack := session.clickTrack }
      nextPlayer := s.nextPlayer + 1 }
  else s

/-- The Session that the Recording screen takes when it appears is the shared one. -/
def shown (appears : Bool) (session : Session) : Option (Option Session) :=
  if appears then some (some session) else none

def recordingListener (appears : Bool) (os : Start) (d : SessionDocument) (s : State) : State :=
  let u := Recording.defaults s.user
  let r := s.recordingVC.snapshotListener u (some s.session) (shown appears s.session) os
    s.nextPlayer d
  { s with
    session := r.cached.getD s.session
    recordingVC := r.screen
    nextPlayer := s.nextPlayer + 1 }

def snapshot (first : Listener) (appears : Bool) (os : Start) (d : SessionDocument) (s : State) :
    State :=
  match first with
  | .clickTrackSessionVC => (s.clickTrackListener d).recordingListener appears os d
  | .recordingSessionVC => (s.recordingListener appears os d).clickTrackListener d

end State

def step (s : State) : Event → Option State
  | .snapshot first appears os d => some (s.snapshot first appears os d)
  | .recordAudio os =>
      let u := Recording.defaults s.user
      some { s with recordingVC := (s.recordingVC.recordAudio u (some s.session) os).1 }
  | .viewWillAppear =>
      some { s with recordingVC := s.recordingVC.viewWillAppear (some s.session) }

/-- Everything that holds the click track has the one of this reference. -/
structure Follows (url : Option AudioURL) (s : State) : Prop where
  session : s.session.clickTrack.bind Audio.audioURL = url
  clickTrack : s.clickTrack.bind Audio.audioURL = url
  audioPlayer : s.audioPlayer = s.clickTrack.map Audio.player
  recordingVC : s.recordingVC.clickTrack.bind Audio.audioURL = url

/-- Once both listeners have processed a snapshot, all follow it. -/
def Followed (_ : State) (e : Event) (s' : State) : Prop :=
  match e with
  | .snapshot _ _ _ d => Follows (some d.clickTrackRef) s'
  | _ => True

/-- The snapshot brings no new click track, or the Click-track screen's
listener comes first. -/
def ClickTrackFirst (s : State) : Event → Prop
  | .snapshot first _ _ d =>
      d.newClickTrack (some s.session) → first = .clickTrackSessionVC
  | _ => True

instance (s : State) : (e : Event) → Decidable (ClickTrackFirst s e)
  | .snapshot first _ _ d => inferInstanceAs
      (Decidable (d.newClickTrack (some s.session) → first = .clickTrackSessionVC))
  | .recordAudio _ | .viewWillAppear => .isTrue trivial

/-! ### The two listeners -/

section Listeners

variable {s : State} {d : SessionDocument} {os : Start} {url : Option AudioURL}

theorem newClickTrack_eq_true {o : Session} :
    d.newClickTrack (some o) = true ↔ o.clickTrack.bind Audio.audioURL ≠ some d.clickTrackRef := by
  rw [SessionDocument.newClickTrack, decide_eq_true_iff]
  exact ne_comm

theorem follows_clickTrackListener (h : d.newClickTrack (some s.session) = true) :
    Follows (some d.clickTrackRef) (s.clickTrackListener d) := by
  rw [State.clickTrackListener, if_pos h]
  exact ⟨rfl, rfl, rfl, rfl⟩

theorem clickTrackListener_of_same (h : ¬ d.newClickTrack (some s.session) = true) :
    s.clickTrackListener d = s := if_neg h

theorem cached_followHost (u : Defaults) (session : Session) (appears : Bool) (os : Start)
    (d : SessionDocument) (x : RecordingScreen) :
    (x.followHost u (some session) (State.shown appears session) os d).2.1 = some session := by
  rw [RecordingScreen.followHost]
  cases u.isHost (some session) with
  | true => rfl
  | false => cases d.hostStartRecording <;> cases appears <;> rfl

/-- The Recording screen keeps its click track, unless it appears and takes the shared
Session's. -/
theorem clickTrack_followHost (u : Defaults) (session : Session) (appears : Bool) (os : Start)
    (d : SessionDocument) (x : RecordingScreen) :
    let y := (x.followHost u (some session) (State.shown appears session) os d).1
    y.clickTrack = x.clickTrack ∨ y.clickTrack = session.clickTrack.or x.clickTrack := by
  dsimp only
  rw [RecordingScreen.clickTrack_followHost]
  split
  · cases appears with
    | false => exact Or.inl rfl
    | true => exact Or.inr (RecordingScreen.clickTrack_viewWillAppear x (some session))
  · exact Or.inl rfl

theorem recordingListener_of_new (appears : Bool) (os : Start)
    (h : d.newClickTrack (some s.session) = true) :
    (s.recordingListener appears os d).session.clickTrack.bind Audio.audioURL =
      some d.clickTrackRef := by
  have hnew : d.newClickTrack
      (some { s.session with currentPlayerList := d.currentPlayerList }) = true := h
  simp [State.recordingListener, RecordingScreen.snapshotListener, cached_followHost, hnew,
    Session.followClickTrack]

theorem recordingListener_of_same (appears : Bool) (os : Start)
    (h : ¬ d.newClickTrack (some s.session) = true) :
    (s.recordingListener appears os d).session.clickTrack = s.session.clickTrack ∧
      (s.recordingListener appears os d).recordingVC.clickTrack =
        (s.recordingVC.followHost (Recording.defaults s.user) (some s.session)
          (State.shown appears s.session) os d).1.clickTrack := by
  have hsame : ¬ d.newClickTrack
      (some { s.session with currentPlayerList := d.currentPlayerList }) = true := h
  simp [State.recordingListener, RecordingScreen.snapshotListener, cached_followHost, hsame]

theorem Follows.recordingListener (appears : Bool) (os : Start) (h : Follows url s)
    (hsame : ¬ d.newClickTrack (some s.session) = true) :
    Follows url (s.recordingListener appears os d) := by
  obtain ⟨hsession, hscreen⟩ := recordingListener_of_same appears os hsame
  refine ⟨hsession ▸ h.session, h.clickTrack, h.audioPlayer, ?_⟩
  rw [hscreen]
  rcases clickTrack_followHost (Recording.defaults s.user) s.session appears os d s.recordingVC with
    hkept | htaken
  · rw [hkept]
    exact h.recordingVC
  · rw [htaken]
    cases hshared : s.session.clickTrack with
    | none => exact h.recordingVC
    | some a =>
        rw [← h.session, hshared]
        rfl

/-- Where all hold the same click track, a snapshot's is followed by all
exactly if it is that one or reaches the Click-track screen first. -/
theorem follows_snapshot_iff (first : Listener) (appears : Bool) (h : Follows url s) :
    Follows (some d.clickTrackRef) (s.snapshot first appears os d) ↔
      ClickTrackFirst s (.snapshot first appears os d) := by
  by_cases hnew : d.newClickTrack (some s.session) = true
  · cases first with
    | clickTrackSessionVC =>
        have hfirst := follows_clickTrackListener hnew
        refine iff_of_true (hfirst.recordingListener appears os fun hagain => ?_) fun _ => rfl
        exact newClickTrack_eq_true.mp hagain hfirst.session
    | recordingSessionVC =>
        refine iff_of_false (fun hall => ?_) fun hfirst => by simpa using hfirst hnew
        -- the second listener finds the Session up to date
        have hsession := recordingListener_of_new appears os hnew
        have hsame : (s.recordingListener appears os d).clickTrackListener d =
            s.recordingListener appears os d :=
          clickTrackListener_of_same fun hagain => newClickTrack_eq_true.mp hagain hsession
        have hstale : s.clickTrack.bind Audio.audioURL = some d.clickTrackRef := by
          have hclick := hall.clickTrack
          rw [State.snapshot, hsame] at hclick
          exact hclick
        rw [h.clickTrack, ← h.session] at hstale
        exact newClickTrack_eq_true.mp hnew hstale
  · have hurl : url = some d.clickTrackRef := by
      rw [newClickTrack_eq_true, not_not, h.session] at hnew
      exact hnew
    rw [hurl] at h
    refine iff_of_true ?_ fun h => absurd h hnew
    cases first with
    | clickTrackSessionVC =>
        rw [State.snapshot, clickTrackListener_of_same hnew]
        exact h.recordingListener appears os hnew
    | recordingSessionVC =>
        have hafter := h.recordingListener appears os hnew
        rw [State.snapshot, clickTrackListener_of_same fun hagain => ?_]
        · exact hafter
        · exact newClickTrack_eq_true.mp hagain hafter.session

end Listeners

/-! ### Runs -/

def Together (s : State) : Prop := Follows (s.session.clickTrack.bind Audio.audioURL) s

theorem together_loaded (user : User) (session : Session) (clock nextPlayer : Nat) :
    Together (.loaded user session clock nextPlayer) := by
  refine ⟨rfl, rfl, rfl, ?_⟩
  show ((RecordingScreen.initial clock).viewWillAppear (some session)).clickTrack.bind
    Audio.audioURL = session.clickTrack.bind Audio.audioURL
  rw [RecordingScreen.clickTrack_viewWillAppear, Option.bind_some]
  cases session.clickTrack <;> rfl

theorem together_step {s s' : State} {e : Event} (h : Together s) (hstep : step s e = some s')
    (hfollowed : Followed s e s') : Together s' := by
  cases e with
  | snapshot first appears os d =>
      rw [Together, hfollowed.session]
      exact hfollowed
  | recordAudio os =>
      simp only [step, Option.some.injEq] at hstep
      subst s'
      refine ⟨rfl, h.clickTrack, h.audioPlayer, ?_⟩
      rw [RecordingScreen.clickTrack_recordAudio]
      exact h.recordingVC
  | viewWillAppear =>
      simp only [step, Option.some.injEq] at hstep
      subst s'
      refine ⟨rfl, h.clickTrack, h.audioPlayer, ?_⟩
      rw [RecordingScreen.clickTrack_viewWillAppear, Option.bind_some]
      cases hcur : s.session.clickTrack with
      | none =>
          have hscreen := h.recordingVC
          rwa [hcur] at hscreen
      | some a => rfl

/-- The screens follow every snapshot of a run exactly if each that brings a
new click track reaches the Click-track screen first. -/
theorem followed_iff_clickTrackFirst (user : User) (session : Session) (clock nextPlayer : Nat)
    (es : List Event) :
    EveryStep step Followed (.loaded user session clock nextPlayer) es ↔
      Meets step ClickTrackFirst (.loaded user session clock nextPlayer) es := by
  have hagree : ∀ s e s', Together s → step s e = some s' →
      (Followed s e s' ↔ ClickTrackFirst s e) := by
    intro s e s' h hstep
    cases e with
    | snapshot first appears os d =>
        simp only [step, Option.some.injEq] at hstep
        subst s'
        exact follows_snapshot_iff first appears h
    | recordAudio os | viewWillAppear => exact Iff.rfl
  exact everyStep_iff_of_invariant hagree (fun _ _ _ h hs hf => together_step h hs hf)
    (together_loaded user session clock nextPlayer) es

/-- The Recording screen was opened first, and so it hears first of a new
click track. -/
theorem click_track_screen_stale :
    ¬ ∀ (user : User) (session : Session) (clock nextPlayer : Nat) (es : List Event),
      EveryStep step Followed (.loaded user session clock nextPlayer) es := by
  intro h
  let session : Session := ⟨"s", "song", "h", [], none, [], none, false, []⟩
  let d : SessionDocument := { session.docData with clickTrackRef := .download "h/s/click.wav" }
  have hall := h ⟨"a", "ann"⟩ session 0 0 [.snapshot .recordingSessionVC false ⟨true, true⟩ d]
  have hrun : step (.loaded ⟨"a", "ann"⟩ session 0 0)
    (.snapshot .recordingSessionVC false ⟨true, true⟩ d) = some _ := rfl
  exact absurd ((everyStep_cons hrun).mp hall).1.clickTrack (by decide)

end Tootti.ClickTrackSync
