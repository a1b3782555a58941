import Tootti.Machine.Keyed
import Tootti.Model.Session

/-!
`RecordingSessionVC.m`: the recorder, its timers and its click track, and
what makes them start and stop.

The cached Session is an object that other screens hold too, so the screen's
functions take it as an argument, missing or not, and those that change it
return it. What the operating system answers when a recording is started is
an argument as well. Moments, WaveViews and timers are told apart by the
clock, which moves on with each of them.
-/

namespace Tootti

open Machine

/-- `uid` and `username` of the user defaults, absent when nobody is signed
in. -/
structure Defaults where
  uid : Option String
  username : Option String
  deriving DecidableEq, Repr

/-- `[currentUserId isEqual:session.hostUid]`, which fails when either side
is missing. -/
def Defaults.isHost (u : Defaults) (s : Option Session) : Bool :=
  match u.uid, s with
  | some uid, some s => uid == s.hostUid
  | _, _ => false

/-- An `AVAudioRecorder`, with the moment its file is named after. -/
structure Recorder where
  time : Nat
  recording : Bool
  deriving DecidableEq, Repr

def Recorder.stop (r : Recorder) : Recorder := { r with recording := false }

/-- The answers of `setActive:` and of the recorder's `record`. -/
structure Start where
  activationSuccess : Bool
  result : Bool
  deriving DecidableEq, Repr

/-- A field the screen sends to the document of a session. -/
inductive Request
  | hostStartRecording (session : String) (status : Bool)
  | currentPlayerList (session : String) (l : Roster)
  deriving DecidableEq, Repr

def Request.session : Request → String
  | .hostStartRecording session _ | .currentPlayerList session _ => session

structure RecordingScreen where
  audioRecorder : Option Recorder
  clickTrack : Option Audio
  /-- Click-track players told to play and not told to stop since. -/
  playing : List Nat
  recordTimer : Bool
  wv : Option Nat
  waveFormView : List Nat
  waveformTimer : Option Nat
  /-- Waveform timers the run loop still fires. -/
  scheduled : List Nat
  sessionActive : Bool
  idleTimerDisabled : Bool
  recordButtonStops : Bool
  tabBarEnabled : Bool
  statusSwitch : Bool
  /-- The recording at whose end the naming alert on the screen was shown. -/
  alert : Option Nat
  clock : Nat
  deriving DecidableEq, Repr

namespace RecordingScreen

def initial (clock : Nat) : RecordingScreen where
  audioRecorder := none
  clickTrack := none
  playing := []
  recordTimer := false
  wv := none
  waveFormView := []
  waveformTimer := none
  scheduled := []
  sessionActive := false
  idleTimerDisabled := false
  recordButtonStops := false
  tabBarEnabled := true
  statusSwitch := false
  alert := none
  clock := clock

def inProgress (x : RecordingScreen) : Option Recorder := x.audioRecorder.filter Recorder.recording

def recording (x : RecordingScreen) : Bool := x.inProgress.isSome

/-- `x'` is recording, into a file made since `x`. -/
def started (x x' : RecordingScreen) : Bool := x'.inProgress.any fun r => x.clock ≤ r.time

/-! ### Timers, waveform and click track -/

def startTimer (x : RecordingScreen) : RecordingScreen :=
  if x.recordTimer then x else { x with recordTimer := true }

def resetTimer (x : RecordingScreen) : RecordingScreen := { x with recordTimer := false }

/-- `startWaveform`, which leaves an older view and timer where they are. -/
def startWaveform (x : RecordingScreen) : RecordingScreen :=
  { x with
    wv := some x.clock
    waveFormView := x.waveFormView ++ [x.clock]
    waveformTimer := some x.clock
    scheduled := x.scheduled ++ [x.clock]
    clock := x.clock + 1 }

def resetWaveform (x : RecordingScreen) : RecordingScreen :=
  { x with
    scheduled := x.waveformTimer.elim x.scheduled (removeObject x.scheduled)
    waveformTimer := none
    waveFormView := x.wv.elim x.waveFormView (removeObject x.waveFormView) }

def playClickTrack (x : RecordingScreen) : RecordingScreen :=
  match x.clickTrack with
  | none => x
  | some a => { x with playing := removeObject x.playing a.player ++ [a.player] }

def stopClickTrack (x : RecordingScreen) : RecordingScreen :=
  match x.clickTrack with
  | none => x
  | some a => { x with playing := removeObject x.playing a.player }

-- Each of these changes one field; all others can be read off.
@[simp] theorem startTimer_eq (x : RecordingScreen) :
    x.startTimer = { x with recordTimer := true } := by
  obtain ⟨_, _, _, _ | _, _⟩ := x <;> rfl

@[simp] theorem playClickTrack_eq (x : RecordingScreen) :
    x.playClickTrack = { x with
      playing := x.clickTrack.elim x.playing fun a =>
        removeObject x.playing a.player ++ [a.player] } := by
  obtain ⟨_, _ | _, _⟩ := x <;> rfl

@[simp] theorem stopClickTrack_eq (x : RecordingScreen) :
    x.stopClickTrack = { x with
      playing := x.clickTrack.elim x.playing fun a => removeObject x.playing a.player } := by
  obtain ⟨_, _ | _, _⟩ := x <;> rfl

/-! ### Recording -/

/-- `prepareForNewRecording`: the recorder before it, if any, is released. -/
def prepareForNewRecording (x : RecordingScreen) : RecordingScreen :=
  { x with audioRecorder := some ⟨x.clock, false⟩, clock := x.clock + 1 }

def record (x : RecordingScreen) : RecordingScreen :=
  { x with audioRecorder := x.audioRecorder.map fun r => { r with recording := true } }

/-- `sessionRecordingStatusUpdate:` of a host's screen. -/
def flagRequest (u : Defaults) (cached : Option Session) (status : Bool) : List Request :=
  if u.isHost cached then
    (cached.map fun s => Request.hostStartRecording s.uid status).toList
  else []

def startRecording (u : Defaults) (cached : Option Session) (os : Start) (x : RecordingScreen) :
    RecordingScreen × List Request :=
  let x := x.startWaveform
  if os.activationSuccess then
    let x := { x with sessionActive := true }.prepareForNewRecording.playClickTrack
    if os.result then
      let x := { x.record with idleTimerDisabled := true }.startTimer
      ({ x with recordButtonStops := true, tabBarEnabled := false }, flagRequest u cached true)
    else (x.stopClickTrack, [])
  else (x, [])

/-- `showAlertForRecordingName`. A screen that shows an alert cannot present
another one. -/
def showAlertForRecordingName (time : Nat) (x : RecordingScreen) : RecordingScreen :=
  { x with alert := x.alert.or (some time) }

/-- `endRecording:` past its guard, apart from the host's flag. -/
def stopRecording (r : Recorder) (x : RecordingScreen) : RecordingScreen :=
  let x := { x with audioRecorder := some r.stop }.stopClickTrack
  let x := { x with
    sessionActive := false
    idleTimerDisabled := false
    recordButtonStops := false
    tabBarEnabled := true }
  x.resetWaveform.showAlertForRecordingName r.time

def endRecording (u : Defaults) (cached : Option Session) (x : RecordingScreen) :
    RecordingScreen × List Request :=
  match x.inProgress with
  | none => (x.resetTimer, [])
  | some r => (x.resetTimer.stopRecording r, flagRequest u cached false)

def recordAudio (u : Defaults) (cached : Option Session) (os : Start) (x : RecordingScreen) :
    RecordingScreen × List Request :=
  if x.recording then x.endRecording u cached else x.startRecording u cached os

/-- The Audio the Save handler of the naming alert makes, whose file is that
of the recorder the screen has by then. -/
def savedAudio (u : User) (name : String) (player : Nat) (x : RecordingScreen) : Audio where
  audioName := name
  performerUid := u.uid
  performer := u.username
  audioURL := x.audioRecorder.map fun r => .document (recordingFileName r.time)
  player := player

def dismissAlert (x : RecordingScreen) : RecordingScreen := { x with alert := none }

/-! ### The snapshot listener -/

/-- What a handler leaves: the screen, its cached Session, the fields it
sends, and whether it makes that Session the current one. -/
structure Reaction where
  screen : RecordingScreen
  cached : Option Session
  requests : List Request
  setsCurrent : Bool

def viewWillAppear (current : Option Session) (x : RecordingScreen) : RecordingScreen :=
  match current.bind Session.clickTrack with
  | none => x
  | some a => { x with clickTrack := some a }

/-- `setSelectedIndex:2`. If another tab was selected, `viewWillAppear:` takes
the Session that is current; `shown` is missing otherwise. -/
def setSelectedIndex (shown : Option (Option Session)) (cached : Option Session)
    (x : RecordingScreen) : RecordingScreen × Option Session :=
  match shown with
  | none => (x, cached)
  | some current => (x.viewWillAppear current, current)

/-- Step 1 of the listener: a guest follows the host's flag, to the Recording
screen when the host has started. -/
def followHost (u : Defaults) (cached : Option Session) (shown : Option (Option Session))
    (os : Start) (d : SessionDocument) (x : RecordingScreen) :
    RecordingScreen × Option Session × List Request :=
  if u.isHost cached then (x, cached, [])
  else if d.hostStartRecording then
    let (x, cached) := x.setSelectedIndex shown cached
    let (x, requests) := x.startRecording u cached os
    (x, cached, requests)
  else
    let (x, requests) := x.endRecording u cached
    (x, cached, requests)

/-- The block `viewDidLoad` adds as snapshot listener. -/
def snapshotListener (u : Defaults) (cached : Option Session) (shown : Option (Option Session))
    (os : Start) (player : Nat) (d : SessionDocument) (x : RecordingScreen) : Reaction :=
  let (x, cached, requests) := x.followHost u cached shown os d
  let cached := cached.map fun s => { s with currentPlayerList := d.currentPlayerList }
  if d.newClickTrack cached then
    let cached := cached.map fun s => s.followClickTrack d (s.hostUid, "ClickTrack") player
    ⟨{ x with clickTrack := cached.bind Session.clickTrack }, cached, requests, true⟩
  else ⟨x, cached, requests, false⟩

/-! ### Status and activity -/

/-- `updateUsersStatus:`, with the switch as the user left it. -/
def updateUsersStatus (u : Defaults) (cached : Option Session) (on : Bool) (x : RecordingScreen) :
    Reaction :=
  let cached := cached.map fun s => s.updateSessionActivityStatus on u.uid
  ⟨{ x with statusSwitch := on }, cached,
    (cached.map fun s => Request.currentPlayerList s.uid s.currentPlayerList).toList, false⟩

/-- The first message of both notification handlers; `none` when it raises. -/
def updateActivity (u : Defaults) (cached : Option Session) (isActive : Bool)
    (x : RecordingScreen) : Option Reaction :=
  match cached with
  | none => some ⟨x, none, [], false⟩
  | some s =>
      (s.updateCurrentPlayerListWithActivity isActive u.username u.uid).map fun s =>
        ⟨x, some s, [.currentPlayerList s.uid s.currentPlayerList], false⟩

def handleBackgroundStatus (u : Defaults) (cached : Option Session) (x : RecordingScreen) :
    Option Reaction :=
  x.updateActivity u cached false

/-- `handleForegroundStatus:`, which sends the switch's position after the
activity. -/
def handleForegroundStatus (u : Defaults) (cached : Option Session) (x : RecordingScreen) :
    Option Reaction :=
  (x.updateActivity u cached true).map fun r =>
    let status := r.screen.updateUsersStatus u r.cached x.statusSwitch
    { status with requests := r.requests ++ status.requests }

/-! ### What the operations do to a recording in progress -/

section InProgress

variable {u : Defaults} {cached : Option Session} {os : Start} {x : RecordingScreen}

/-- A start that gets past the activation of the audio session replaces the
recorder, whether or not the new one records. -/
theorem audioRecorder_startRecording :
    (x.startRecording u cached os).1.audioRecorder =
      if os.activationSuccess then some ⟨x.clock + 1, os.result⟩ else x.audioRecorder := by
  rw [startRecording]
  cases os.activationSuccess with
  | false => rfl
  | true =>
      cases os.result <;> simp [record, prepareForNewRecording, startWaveform]

theorem inProgress_startRecording :
    (x.startRecording u cached os).1.inProgress =
      if os.activationSuccess then
        if os.result then some ⟨x.clock + 1, true⟩ else none
      else x.inProgress := by
  rw [inProgress, audioRecorder_startRecording]
  cases os.activationSuccess <;> cases os.result <;> rfl

theorem audioRecorder_endRecording :
    (x.endRecording u cached).1.audioRecorder = x.audioRecorder.map Recorder.stop := by
  rw [endRecording]
  cases hin : x.inProgress with
  | some r =>
      have hr : x.audioRecorder = some r := Option.eq_some_of_filter_eq_some hin
      simp [stopRecording, resetWaveform, showAlertForRecordingName, hr]
  | none =>
      -- a recorder that does not record is left as it is
      cases hx : x.audioRecorder with
      | none => exact hx
      | some r =>
          have hstopped : r.recording = false := by simpa [inProgress, hx] using hin
          have hsame : r.stop = r := by rw [Recorder.stop, ← hstopped]
          show x.audioRecorder = some r.stop
          rw [hx, hsame]

theorem inProgress_endRecording : (x.endRecording u cached).1.inProgress = none := by
  rw [inProgress, audioRecorder_endRecording]
  cases x.audioRecorder <;> rfl

end InProgress

/-! ### What the operations send -/

section Requests

variable {u : Defaults} {cached : Option Session} {os : Start} {x : RecordingScreen}

theorem requests_startRecording :
    (x.startRecording u cached os).2 =
      if os.activationSuccess && os.result then flagRequest u cached true else [] := by
  rw [startRecording]
  cases os.activationSuccess with
  | false => rfl
  | true => cases os.result <;> rfl

theorem requests_endRecording :
    (x.endRecording u cached).2 = if x.recording then flagRequest u cached false else [] := by
  rw [endRecording, recording]
  cases x.inProgress <;> rfl

theorem flagRequest_of_guest (h : u.isHost cached = false) (status : Bool) :
    flagRequest u cached status = [] := by
  rw [flagRequest, h]
  rfl

theorem flagRequest_eq_some {status : Bool} {q : Request} (h : q ∈ flagRequest u cached status) :
    ∃ s ∈ cached, u.isHost (some s) ∧ q = .hostStartRecording s.uid status := by
  rw [flagRequest] at h
  split at h
  · rename_i hhost
    obtain ⟨s, rfl, rfl⟩ := by simpa using h
    exact ⟨s, rfl, hhost, rfl⟩
  · exact absurd h List.not_mem_nil

/-- A guest who follows the host sends nothing, unless the screen that is brought
up has a session of the user's own. A host does not follow. -/
theorem requests_followHost (shown : Option (Option Session)) (d : SessionDocument) :
    (x.followHost u cached shown os d).2.2 =
      if !u.isHost cached && d.hostStartRecording && os.activationSuccess && os.result then
        flagRequest u (x.setSelectedIndex shown cached).2 true
      else [] := by
  rw [followHost]
  cases hhost : u.isHost cached with
  | true => rfl
  | false =>
      cases d.hostStartRecording with
      | false =>
          show (x.endRecording u cached).2 = []
          rw [requests_endRecording, flagRequest_of_guest hhost, ite_self]
      | true => exact requests_startRecording

theorem requests_snapshotListener (shown : Option (Option Session)) (player : Nat)
    (d : SessionDocument) :
    (x.snapshotListener u cached shown os player d).requests =
      (x.followHost u cached shown os d).2.2 := by
  rw [snapshotListener]
  dsimp only
  split <;> rfl

/-- The listener of a host's screen sends nothing. -/
theorem requests_snapshotListener_of_isHost (h : u.isHost cached = true)
    (shown : Option (Option Session)) (player : Nat) (d : SessionDocument) :
    (x.snapshotListener u cached shown os player d).requests = [] := by
  rw [requests_snapshotListener, requests_followHost, h]
  rfl

/-- All that the listener sends is the flag. -/
theorem eq_of_mem_requests_snapshotListener {shown : Option (Option Session)} {player : Nat}
    {d : SessionDocument} {q : Request}
    (h : q ∈ (x.snapshotListener u cached shown os player d).requests) :
    ∃ sid, q = .hostStartRecording sid true := by
  rw [requests_snapshotListener, requests_followHost] at h
  split at h
  · obtain ⟨s, -, -, rfl⟩ := flagRequest_eq_some h
    exact ⟨s.uid, rfl⟩
  · exact absurd h List.not_mem_nil

end Requests

/-! ### Time and the naming alert -/

section Clock

variable {u : Defaults} {cached : Option Session} {os : Start} {x : RecordingScreen}

theorem clock_startRecording :
    (x.startRecording u cached os).1.clock =
      if os.activationSuccess then x.clock + 2 else x.clock + 1 := by
  rw [startRecording]
  cases os.activationSuccess with
  | false => rfl
  | true => cases os.result <;> simp [record, prepareForNewRecording, startWaveform]

theorem alert_startRecording : (x.startRecording u cached os).1.alert = x.alert := by
  rw [startRecording]
  cases os.activationSuccess with
  | false => rfl
  | true => cases os.result <;> simp [record, prepareForNewRecording, startWaveform]

theorem clock_endRecording : (x.endRecording u cached).1.clock = x.clock := by
  rw [endRecording]
  cases x.inProgress with
  | none => rfl
  | some r => simp [stopRecording, resetWaveform, showAlertForRecordingName, resetTimer]

/-- The alert at the end of a recording, unless an older one is in its way. -/
theorem alert_endRecording :
    (x.endRecording u cached).1.alert = x.alert.or (x.inProgress.map Recorder.time) := by
  rw [endRecording]
  cases x.inProgress with
  | none => exact (Option.or_none).symm
  | some r => simp [stopRecording, resetWaveform, showAlertForRecordingName, resetTimer]

end Clock

/-! ### The click track -/

section ClickTrack

variable {u : Defaults} {cached : Option Session} {os : Start} {x : RecordingScreen}

theorem clickTrack_startRecording :
    (x.startRecording u cached os).1.clickTrack = x.clickTrack := by
  rw [startRecording]
  cases os.activationSuccess with
  | false => rfl
  | true => cases os.result <;> simp [record, prepareForNewRecording, startWaveform]

theorem clickTrack_endRecording : (x.endRecording u cached).1.clickTrack = x.clickTrack := by
  rw [endRecording]
  cases x.inProgress with
  | none => rfl
  | some r => simp [stopRecording, resetWaveform, showAlertForRecordingName, resetTimer]

theorem clickTrack_viewWillAppear (x : RecordingScreen) (current : Option Session) :
    (x.viewWillAppear current).clickTrack = (current.bind Session.clickTrack).or x.clickTrack := by
  rw [viewWillAppear]
  cases h : current.bind Session.clickTrack <;> simp

/-- The screen that has its Session's click track finds nothing new. -/
theorem viewWillAppear_eq_self_iff {current : Option Session} :
    x.viewWillAppear current = x ↔
      ∀ a ∈ current.bind Session.clickTrack, x.clickTrack = some a := by
  rw [viewWillAppear]
  cases current.bind Session.clickTrack with
  | none => simp
  | some a =>
      simp only [Option.mem_some_iff, forall_eq']
      refine ⟨fun h => (congrArg clickTrack h).symm, fun h => ?_⟩
      cases x
      simp_all

/-- All that appearing changes on the screen. -/
theorem setSelectedIndex_eq (x : RecordingScreen) (shown : Option (Option Session))
    (cached : Option Session) :
    ∃ a, (x.setSelectedIndex shown cached).1 = { x with clickTrack := a } := by
  cases shown with
  | none => exact ⟨x.clickTrack, rfl⟩
  | some current =>
      rw [setSelectedIndex, viewWillAppear]
      split
      · exact ⟨x.clickTrack, rfl⟩
      · exact ⟨_, rfl⟩

theorem clickTrack_followHost (shown : Option (Option Session)) (d : SessionDocument) :
    (x.followHost u cached shown os d).1.clickTrack =
      if !u.isHost cached && d.hostStartRecording then
        (x.setSelectedIndex shown cached).1.clickTrack
      else x.clickTrack := by
  rw [followHost]
  cases u.isHost cached with
  | true => rfl
  | false =>
      cases d.hostStartRecording with
      | false => exact clickTrack_endRecording
      | true => exact clickTrack_startRecording

theorem clickTrack_recordAudio : (x.recordAudio u cached os).1.clickTrack = x.clickTrack := by
  rw [recordAudio]
  split
  · exact clickTrack_endRecording
  · exact clickTrack_startRecording

end ClickTrack

def Dated (x : RecordingScreen) : Prop := ∀ r ∈ x.audioRecorder, r.time < x.clock

theorem dated_initial (clock : Nat) : (initial clock).Dated :=
  fun _ hr => absurd hr (Option.not_mem_none _)

end RecordingScreen

end Tootti
