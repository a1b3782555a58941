import Tootti.Machine.Run
import Tootti.Model.RecordingScreen

/-!
Runs of one Recording screen of a signed-in user.

The events are everything that calls into the screen: its button and switch,
the session's snapshots, the scene notifications, the answer to the naming
alert, the screen's reappearance with whatever Session is current by then,
and an interruption that stops the recorder. They come in any order.
-/

namespace Tootti.Recording

open Machine

structure State where
  screen : RecordingScreen
  cached : Option Session
  /-- The host's flag in the snapshot delivered last. -/
  lastFlag : Option Bool
  audioRecordings : List Audio
  sent : List Request
  nextPlayer : Nat

inductive Event
  | recordAudio (os : Start)
  /-- `shown` is the current Session if another tab was selected, should the
  listener select this one. -/
  | snapshot (shown : Option (Option Session)) (os : Start) (d : SessionDocument)
  | save (name : String)
  | cancel
  | updateUsersStatus (on : Bool)
  | handleBackgroundStatus
  | handleForegroundStatus
  | viewWillAppear (current : Option Session)
  | interrupted

def defaults (u : User) : Defaults := ⟨some u.uid, some u.username⟩

theorem defaults_inj {u v : User} (h : defaults u = defaults v) : u = v := by
  obtain ⟨huid, husername⟩ := Defaults.mk.inj h
  exact congrArg₂ User.mk (Option.some.inj huid) (Option.some.inj husername)

namespace State

def initial (cached : Option Session) (clock : Nat) : State :=
  ⟨.initial clock, cached, none, [], [], 0⟩

def put (s : State) (r : RecordingScreen × List Request) : State :=
  { s with screen := r.1, sent := s.sent ++ r.2 }

def react (s : State) (r : RecordingScreen.Reaction) : State :=
  { s with screen := r.screen, cached := r.cached, sent := s.sent ++ r.requests }

end State

def step (u : User) (s : State) : Event → Option State
  | .recordAudio os => some (s.put (s.screen.recordAudio (defaults u) s.cached os))
  | .snapshot shown os d =>
      let r := s.screen.snapshotListener (defaults u) s.cached shown os s.nextPlayer d
      some { s.react r with lastFlag := some d.hostStartRecording, nextPlayer := s.nextPlayer + 1 }
  | .save name =>
      if s.screen.alert.isSome then
        some { s with
          screen := s.screen.dismissAlert
          audioRecordings := s.audioRecordings ++ [s.screen.savedAudio u name s.nextPlayer]
          nextPlayer := s.nextPlayer + 1 }
      else none
  | .cancel =>
      if s.screen.alert.isSome then some { s with screen := s.screen.dismissAlert } else none
  | .updateUsersStatus on => some (s.react (s.screen.updateUsersStatus (defaults u) s.cached on))
  | .handleBackgroundStatus =>
      (s.screen.handleBackgroundStatus (defaults u) s.cached).map s.react
  | .handleForegroundStatus =>
      (s.screen.handleForegroundStatus (defaults u) s.cached).map s.react
  | .viewWillAppear current =>
      some { s with screen := s.screen.viewWillAppear current, cached := current }
  | .interrupted =>
      let stopped := s.screen.audioRecorder.map Recorder.stop
      some { s with screen := { s.screen with audioRecorder := stopped } }

/-- The event makes a new recorder: a start that gets past the activation of
the audio session. -/
def Prepares (u : User) (s : State) : Event → Prop
  | .recordAudio os => s.screen.inProgress = none ∧ os.activationSuccess
  | .snapshot _ os d =>
      (defaults u).isHost s.cached = false ∧ d.hostStartRecording ∧ os.activationSuccess
  | _ => False

def Event.answers : Event → Bool
  | .save _ | .cancel => true
  | _ => false

/-! ### What one event does to the recorder and the alert -/

/-- A new recorder, whose file is later than everything before it. -/
structure Prepared (x x' : RecordingScreen) : Prop where
  recorder : ∃ result, x'.audioRecorder = some ⟨x.clock + 1, result⟩
  clock : x'.clock = x.clock + 2
  alert : x'.alert = x.alert

/-- The same recorder, possibly stopped; if the alert changed, then to one
for the recording that just ended. -/
structure Kept (x x' : RecordingScreen) : Prop where
  recorder : x'.audioRecorder = x.audioRecorder ∨
    x'.audioRecorder = x.audioRecorder.map Recorder.stop
  clock : x.clock ≤ x'.clock
  alert : x'.alert = x.alert ∨ x'.audioRecorder = x.audioRecorder.map Recorder.stop ∧
    x'.alert = x.alert.or (x.inProgress.map Recorder.time)

inductive Turn (u : User) (s : State) (e : Event) (s' : State) : Prop
  | prepared (h : Prepares u s e) (hopen : e.answers = false) (hx : Prepared s.screen s'.screen)
  | kept (h : ¬ Prepares u s e) (hopen : e.answers = false) (hx : Kept s.screen s'.screen)
  | answered (h : ¬ Prepares u s e) (hanswers : e.answers)
      (hx : s'.screen = { s.screen with alert := none })

section Screen

variable {u : Defaults} {cached : Option Session} {os : Start} {x x' : RecordingScreen}

theorem prepared_startRecording (h : os.activationSuccess) :
    Prepared x (x.startRecording u cached os).1 where
  recorder := ⟨os.result, by rw [RecordingScreen.audioRecorder_startRecording, if_pos h]⟩
  clock := by rw [RecordingScreen.clock_startRecording, if_pos h]
  alert := RecordingScreen.alert_startRecording

theorem kept_startRecording (h : ¬ os.activationSuccess) :
    Kept x (x.startRecording u cached os).1 where
  recorder := Or.inl (by rw [RecordingScreen.audioRecorder_startRecording, if_neg h])
  clock := by
    rw [RecordingScreen.clock_startRecording, if_neg h]
    omega
  alert := Or.inl RecordingScreen.alert_startRecording

theorem kept_endRecording : Kept x (x.endRecording u cached).1 where
  recorder := Or.inr RecordingScreen.audioRecorder_endRecording
  clock := Nat.le_of_eq RecordingScreen.clock_endRecording.symm
  alert := Or.inr ⟨RecordingScreen.audioRecorder_endRecording, RecordingScreen.alert_endRecording⟩

theorem Kept.of_same (hr : x'.audioRecorder = x.audioRecorder) (hc : x'.clock = x.clock)
    (ha : x'.alert = x.alert) : Kept x x' :=
  ⟨Or.inl hr, Nat.le_of_eq hc.symm, Or.inl ha⟩

theorem Prepared.dated (h : Prepared x x') : x'.Dated := by
  intro r hr
  obtain ⟨result, hrec⟩ := h.recorder
  rw [hrec, Option.mem_some_iff] at hr
  rw [h.clock, ← hr]
  show x.clock + 1 < x.clock + 2
  omega

theorem Kept.dated (h : Kept x x') (hx : x.Dated) : x'.Dated := by
  intro r hr
  refine Nat.lt_of_lt_of_le ?_ h.clock
  rcases h.recorder with hrec | hrec
  · exact hx r (hrec ▸ hr)
  · rw [hrec, Option.mem_map] at hr
    obtain ⟨r', hr', rfl⟩ := hr
    exact hx r' hr'

theorem Prepared.clickTrack (h : Prepared x x') (a : Option Audio) :
    Prepared x { x' with clickTrack := a } :=
  ⟨h.recorder, h.clock, h.alert⟩

theorem Kept.clickTrack (h : Kept x x') (a : Option Audio) : Kept x { x' with clickTrack := a } :=
  ⟨h.recorder, h.clock, h.alert⟩

theorem prepared_setSelectedIndex {shown : Option (Option Session)}
    (h : Prepared (x.setSelectedIndex shown cached).1 x') : Prepared x x' := by
  obtain ⟨a, ha⟩ := x.setSelectedIndex_eq shown cached
  rw [ha] at h
  exact ⟨h.recorder, h.clock, h.alert⟩

theorem kept_setSelectedIndex {shown : Option (Option Session)}
    (h : Kept (x.setSelectedIndex shown cached).1 x') : Kept x x' := by
  obtain ⟨a, ha⟩ := x.setSelectedIndex_eq shown cached
  rw [ha] at h
  exact ⟨h.recorder, h.clock, h.alert⟩

theorem kept_followHost {shown : Option (Option Session)} {d : SessionDocument}
    (h : u.isHost cached ∨ ¬ d.hostStartRecording ∨ ¬ os.activationSuccess) :
    Kept x (x.followHost u cached shown os d).1 := by
  rw [RecordingScreen.followHost]
  split
  · exact .of_same rfl rfl rfl
  · rename_i hguest
    split
    · rename_i hflag
      refine kept_setSelectedIndex (kept_startRecording fun hact => ?_)
      rcases h with h | h | h
      · exact hguest h
      · exact h hflag
      · exact h hact
    · exact kept_endRecording

theorem prepared_followHost {shown : Option (Option Session)} {d : SessionDocument}
    (hguest : u.isHost cached = false) (hflag : d.hostStartRecording)
    (hact : os.activationSuccess) : Prepared x (x.followHost u cached shown os d).1 := by
  rw [RecordingScreen.followHost]
  rw [if_neg (by simp [hguest]), if_pos hflag]
  exact prepared_setSelectedIndex (prepared_startRecording hact)

end Screen

/-- Apart from the click track the listener leaves the screen as its first
step does. -/
theorem screen_snapshotListener (u : Defaults) (cached : Option Session)
    (shown : Option (Option Session)) (os : Start) (player : Nat) (d : SessionDocument)
    (x : RecordingScreen) :
    ∃ a, (x.snapshotListener u cached shown os player d).screen =
      { (x.followHost u cached shown os d).1 with clickTrack := a } := by
  rw [RecordingScreen.snapshotListener]
  dsimp only
  split
  · exact ⟨_, rfl⟩
  · exact ⟨(x.followHost u cached shown os d).1.clickTrack, rfl⟩

theorem inProgress_snapshotListener (u : Defaults) (cached : Option Session)
    (shown : Option (Option Session)) (os : Start) (player : Nat) (d : SessionDocument)
    (x : RecordingScreen) :
    (x.snapshotListener u cached shown os player d).screen.inProgress =
      (x.followHost u cached shown os d).1.inProgress := by
  obtain ⟨a, ha⟩ := screen_snapshotListener u cached shown os player d x
  rw [ha]
  rfl

theorem inProgress_followHost (u : Defaults) (cached : Option Session)
    (shown : Option (Option Session)) (os : Start) (d : SessionDocument) (x : RecordingScreen) :
    (x.followHost u cached shown os d).1.inProgress =
      if u.isHost cached then x.inProgress
      else if d.hostStartRecording then (x.startRecording u cached os).1.inProgress
      else none := by
  rw [RecordingScreen.followHost]
  split
  · rfl
  · split
    · obtain ⟨a, ha⟩ := x.setSelectedIndex_eq shown cached
      dsimp only
      rw [RecordingScreen.inProgress_startRecording, RecordingScreen.inProgress_startRecording, ha]
      rfl
    · exact RecordingScreen.inProgress_endRecording

theorem screen_updateActivity {u : Defaults} {cached : Option Session} {isActive : Bool}
    {x : RecordingScreen} {r : RecordingScreen.Reaction}
    (h : x.updateActivity u cached isActive = some r) : r.screen = x := by
  unfold RecordingScreen.updateActivity at h
  cases cached with
  | none =>
      simp only [Option.some.injEq] at h
      rw [← h]
  | some s =>
      simp only [Option.map_eq_some_iff] at h
      obtain ⟨s', -, rfl⟩ := h
      rfl

theorem step_turn {u : User} {s s' : State} {e : Event} (h : step u s e = some s') :
    Turn u s e s' := by
  cases e with
  | recordAudio os =>
      simp only [step, Option.some.injEq] at h
      subst s'
      simp only [State.put, RecordingScreen.recordAudio]
      cases hrec : s.screen.inProgress with
      | some r =>
          have hr : s.screen.recording := by simp [RecordingScreen.recording, hrec]
          refine .kept (fun hp => ?_) rfl ?_
          · simp [Prepares, hrec] at hp
          · simpa only [hr, if_true] using kept_endRecording
      | none =>
          have hr : s.screen.recording = false := by simp [RecordingScreen.recording, hrec]
          by_cases hact : os.activationSuccess
          · refine .prepared ⟨hrec, hact⟩ rfl ?_
            simpa [hr] using prepared_startRecording hact
          · refine .kept (fun hp => hact hp.2) rfl ?_
            simpa [hr] using kept_startRecording hact
  | snapshot shown os d =>
      simp only [step, Option.some.injEq] at h
      subst s'
      obtain ⟨a, ha⟩ :=
        screen_snapshotListener (defaults u) s.cached shown os s.nextPlayer d s.screen
      by_cases hp : Prepares u s (.snapshot shown os d)
      · refine .prepared hp rfl ?_
        obtain ⟨hguest, hflag, hact⟩ := hp
        simpa only [State.react, ha] using (prepared_followHost hguest hflag hact).clickTrack a
      · refine .kept hp rfl ?_
        have hcases : (defaults u).isHost s.cached ∨ ¬ d.hostStartRecording ∨
            ¬ os.activationSuccess := by
          by_contra hall
          simp only [not_or, Bool.not_eq_true, Bool.not_eq_false] at hall
          exact hp hall
        simpa only [State.react, ha] using (kept_followHost hcases).clickTrack a
  | save name | cancel =>
      simp only [step] at h
      split at h <;> simp only [Option.some.injEq, reduceCtorEq] at h
      subst s'
      exact .answered (fun hp => hp) rfl rfl
  | updateUsersStatus on =>
      simp only [step, Option.some.injEq] at h
      subst s'
      exact .kept (fun hp => hp) rfl (.of_same rfl rfl rfl)
  | handleBackgroundStatus =>
      simp only [step, Option.map_eq_some_iff, RecordingScreen.handleBackgroundStatus] at h
      obtain ⟨r, hr, rfl⟩ := h
      have hscreen := screen_updateActivity hr
      refine .kept (fun hp => hp) rfl ?_
      simp only [State.react, hscreen]
      exact .of_same rfl rfl rfl
  | handleForegroundStatus =>
      simp only [step, Option.map_eq_some_iff, RecordingScreen.handleForegroundStatus] at h
      obtain ⟨r, ⟨r', hr', rfl⟩, rfl⟩ := h
      have hscreen := screen_updateActivity hr'
      refine .kept (fun hp => hp) rfl ?_
      simp only [State.react, RecordingScreen.updateUsersStatus, hscreen]
      exact .of_same rfl rfl rfl
  | viewWillAppear current =>
      simp only [step, Option.some.injEq] at h
      subst s'
      refine .kept (fun hp => hp) rfl ?_
      rw [RecordingScreen.viewWillAppear]
      split <;> exact .of_same rfl rfl rfl
  | interrupted =>
      simp only [step, Option.some.injEq] at h
      subst s'
      exact .kept (fun hp => hp) rfl ⟨Or.inr rfl, Nat.le_refl _, Or.inl rfl⟩

def Dated (s : State) : Prop := s.screen.Dated

theorem dated_initial (cached : Option Session) (clock : Nat) : Dated (.initial cached clock) :=
  RecordingScreen.dated_initial clock

theorem dated_step {u : User} {s s' : State} {e : Event} (h : Dated s)
    (hstep : step u s e = some s') : Dated s' := by
  cases step_turn hstep with
  | prepared _ _ hx => exact hx.dated
  | kept _ _ hx => exact hx.dated h
  | answered _ _ hx =>
      rw [Dated, hx]
      exact h

end Tootti.Recording
