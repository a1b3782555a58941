import Tootti.Machine.Decimal
import Tootti.Recording.Screen

/-!
The time on the Recording screen.

The timer is started when a recorder records and reset when a recording is ended;
starting a timer that runs does nothing. What the label should show is what a
stopwatch would that is held only while a recording is in progress.
-/

namespace Tootti.Timer

open Machine Recording

/-- The timer's counters and its label. -/
structure RecordTimer where
  timerMinutes : Int32
  timerSeconds : Int32
  text : List Char
  hidden : Bool
  deriving DecidableEq, Repr

namespace RecordTimer

def initial : RecordTimer := ⟨0, 0, "00:00".toList, true⟩

def startTimer (t : RecordTimer) : RecordTimer :=
  { t with hidden := false, timerSeconds := 0, timerMinutes := 0 }

def resetTimer (_ : RecordTimer) : RecordTimer := ⟨0, 0, "00:00".toList, true⟩

/-- `%d`. -/
def decimal (n : Int32) : List Char :=
  if n < 0 then '-' :: Nat.toDigits 10 n.toInt.natAbs else Nat.toDigits 10 n.toInt.natAbs

/-- The format `0%d` below ten and `%d` from ten on. -/
def format (n : Int32) : List Char := if n < 10 then '0' :: decimal n else decimal n

def timerDidFire (t : RecordTimer) : RecordTimer :=
  let timerSeconds := t.timerSeconds + 1
  let timerMinutes := timerSeconds / 60
  { t with
    timerSeconds
    timerMinutes
    text := format timerMinutes ++ ':' :: format (timerSeconds % 60) }

theorem text_zero : "00:00".toList = clock 0 := by decide

theorem toInt_add_one {n : Int32} {k : ℕ} (hn : n.toInt = k) (h : n < Int32.maxValue) :
    (n + 1).toInt = (k + 1 : ℕ) := by
  have hone : (1 : Int32).toInt = 1 := by decide
  have hmax : Int32.maxValue.toInt = 2147483647 := by decide
  rw [Int32.lt_iff_toInt_lt, hmax, hn] at h
  rw [Int32.toInt_add, hone, hn, Int.bmod_eq_of_le (by omega) (by omega)]
  rfl

theorem format_eq {n : Int32} {k : ℕ} (h : n.toInt = k) : format n = padded 2 k := by
  have hsign : ¬ n < 0 := by
    rw [Int32.lt_iff_toInt_lt, h]
    exact Int.not_lt.mpr (Int.natCast_nonneg k)
  have hten : n < 10 ↔ k < 10 := by
    rw [Int32.lt_iff_toInt_lt, h]
    exact Int.ofNat_lt
  simp only [format, decimal, if_neg hsign, hten, h, Int.natAbs_natCast, padded_two]

theorem text_timerDidFire {t : RecordTimer} {n : ℕ} (hn : t.timerSeconds.toInt = n)
    (h : t.timerSeconds < Int32.maxValue) : t.timerDidFire.text = clock (n + 1) := by
  have hseconds := toInt_add_one hn h
  have hsixty : (60 : Int32).toInt = 60 := by decide
  have hminutes : ((t.timerSeconds + 1) / 60).toInt = ((n + 1) / 60 : ℕ) := by
    rw [Int32.toInt_div_of_ne_right _ _ (by decide), hseconds, hsixty]
    rfl
  have hrest : ((t.timerSeconds + 1) % 60).toInt = ((n + 1) % 60 : ℕ) := by
    rw [Int32.toInt_mod, hseconds, hsixty]
    rfl
  simp only [timerDidFire, clock, format_eq hminutes, format_eq hrest]

end RecordTimer

structure State where
  screen : Recording.State
  timer : RecordTimer
  /-- The seconds since the recording in progress began. -/
  watch : Option ℕ

inductive Event
  | screen (e : Recording.Event)
  | timerDidFire

def initial (cached : Option Session) (time : ℕ) : State :=
  ⟨.initial cached time, .initial, none⟩

/-- The event ends a recording, or would: it calls `endRecording:`. -/
def resets (u : User) (s : Recording.State) : Recording.Event → Bool
  | .recordAudio _ => s.screen.recording
  | .snapshot _ _ d => !(defaults u).isHost s.cached && !d.hostStartRecording
  | _ => false

/-- What the event does to the timer, seen from the screen before and after. -/
def turnTimer (u : User) (s s' : Recording.State) (e : Recording.Event) (t : RecordTimer) :
    RecordTimer :=
  if resets u s e then t.resetTimer
  else if !s.screen.recordTimer && s'.screen.recordTimer then t.startTimer
  else t

def turnWatch (s s' : Recording.State) (w : Option ℕ) : Option ℕ :=
  if s'.screen.recording then if s.screen.started s'.screen then some 0 else w else none

def step (u : User) (s : State) : Event → Option State
  | .screen e =>
      (Recording.step u s.screen e).map fun screen =>
        ⟨screen, turnTimer u s.screen screen e s.timer, turnWatch s.screen screen s.watch⟩
  | .timerDidFire =>
      if s.screen.screen.recordTimer then
        some { s with timer := s.timer.timerDidFire, watch := s.watch.map (· + 1) }
      else none

/-- The recorder stops only through `endRecording:`, none is made while another one
records, and the timer does not count beyond the largest `int`. -/
def Apart (u : User) (s : State) : Event → Prop
  | .screen .interrupted => False
  | .screen e => Prepares u s.screen e → s.screen.screen.inProgress = none
  | .timerDidFire => s.timer.timerSeconds < Int32.maxValue

/-! ### What an event does to the timer and the recorder -/

section Screen

variable {u : Defaults} {cached : Option Session} {os : Start} {x : RecordingScreen}

theorem recordTimer_startRecording :
    (x.startRecording u cached os).1.recordTimer =
      (x.recordTimer || (os.activationSuccess && os.result)) := by
  rw [RecordingScreen.startRecording]
  cases os.activationSuccess with
  | false => simp [RecordingScreen.startWaveform]
  | true =>
      cases os.result <;>
        simp [RecordingScreen.startWaveform, RecordingScreen.prepareForNewRecording,
          RecordingScreen.record]

theorem recordTimer_endRecording : (x.endRecording u cached).1.recordTimer = false := by
  rw [RecordingScreen.endRecording]
  split
  · rfl
  · simp [RecordingScreen.stopRecording, RecordingScreen.resetWaveform,
      RecordingScreen.showAlertForRecordingName, RecordingScreen.resetTimer]

/-- A start that is no new recorder leaves timer and recorder, and any other turns
the timer on if the new recorder records. -/
inductive TimerStep (u : User) (s : Recording.State) (e : Recording.Event)
    (s' : Recording.State) : Prop
  | ended (hreset : resets u s e) (htimer : s'.screen.recordTimer = false)
      (hrecorder : s'.screen.inProgress = none)
  | prepared (hreset : resets u s e = false) (h : Prepares u s e) (result : Bool)
      (htimer : s'.screen.recordTimer = (s.screen.recordTimer || result))
      (hrecorder : s'.screen.inProgress =
        if result then some ⟨s.screen.clock + 1, true⟩ else none)
  | kept (hreset : resets u s e = false) (htimer : s'.screen.recordTimer = s.screen.recordTimer)
      (hrecorder : s'.screen.inProgress = s.screen.inProgress)

end Screen

section Steps

variable {u : User} {s s' : Recording.State} {e : Recording.Event}

theorem timerStep_recordAudio {os : Start}
    (hstep : Recording.step u s (.recordAudio os) = some s') :
    TimerStep u s (.recordAudio os) s' := by
  obtain rfl := Option.some.inj hstep
  simp only [State.put, RecordingScreen.recordAudio]
  cases hrec : s.screen.recording with
  | true => exact .ended hrec recordTimer_endRecording RecordingScreen.inProgress_endRecording
  | false =>
      have hnone : s.screen.inProgress = none := by
        simpa [RecordingScreen.recording] using hrec
      cases hact : os.activationSuccess with
      | true =>
          refine .prepared hrec ⟨hnone, hact⟩ os.result ?_ ?_
          · simp [recordTimer_startRecording, hact]
          · simp [RecordingScreen.inProgress_startRecording, hact]
      | false =>
          refine .kept hrec ?_ ?_
          · simp [recordTimer_startRecording, hact]
          · simp [RecordingScreen.inProgress_startRecording, hact]

theorem timerStep_snapshot {shown : Option (Option Session)} {os : Start} {d : SessionDocument}
    (hstep : Recording.step u s (.snapshot shown os d) = some s') :
    TimerStep u s (.snapshot shown os d) s' := by
  obtain rfl := Option.some.inj hstep
  have hrecorder : ∀ c, RecordingScreen.inProgress { (s.screen.followHost (defaults u) s.cached
      shown os d).1 with clickTrack := c } = _ :=
    fun _ => inProgress_followHost (defaults u) s.cached shown os d s.screen
  obtain ⟨a, ha⟩ := screen_snapshotListener (defaults u) s.cached shown os s.nextPlayer d s.screen
  simp only [State.react, ha]
  cases hhost : (defaults u).isHost s.cached with
  | true =>
      refine .kept (by simp [resets, hhost]) ?_ ?_
      · simp [RecordingScreen.followHost, hhost]
      · simpa [hhost] using hrecorder a
  | false =>
      cases hflag : d.hostStartRecording with
      | false =>
          refine .ended (by simp [resets, hhost, hflag]) ?_ ?_
          · simpa [RecordingScreen.followHost, hhost, hflag] using recordTimer_endRecording
          · simpa [hhost, hflag] using hrecorder a
      | true =>
          have hreset : resets u s (.snapshot shown os d) = false := by simp [resets, hflag]
          have htimer : (s.screen.followHost (defaults u) s.cached shown os d).1.recordTimer =
              (s.screen.recordTimer || (os.activationSuccess && os.result)) := by
            -- the screen that is brought up keeps its timer
            obtain ⟨b, hb⟩ := s.screen.setSelectedIndex_eq shown s.cached
            rw [RecordingScreen.followHost, if_neg (by simp [hhost]), if_pos hflag]
            dsimp only
            rw [recordTimer_startRecording, hb]
          cases hact : os.activationSuccess with
          | true =>
              refine .prepared hreset ⟨hhost, hflag, hact⟩ os.result ?_ ?_
              · simpa [hact] using htimer
              · simpa [hhost, hflag, hact, RecordingScreen.inProgress_startRecording] using
                  hrecorder a
          | false =>
              refine .kept hreset ?_ ?_
              · simpa [hact] using htimer
              · simpa [hhost, hflag, hact, RecordingScreen.inProgress_startRecording] using
                  hrecorder a

theorem timerStep (hstep : Recording.step u s e = some s') (hint : e ≠ .interrupted) :
    TimerStep u s e s' := by
  cases e with
  | recordAudio os => exact timerStep_recordAudio hstep
  | snapshot shown os d => exact timerStep_snapshot hstep
  | save name | cancel =>
      simp only [Recording.step] at hstep
      split at hstep <;> simp only [Option.some.injEq, reduceCtorEq] at hstep
      subst s'
      exact .kept rfl rfl rfl
  | updateUsersStatus on =>
      obtain rfl := Option.some.inj hstep
      exact .kept rfl rfl rfl
  | handleBackgroundStatus =>
      obtain ⟨r, hr, rfl⟩ := Option.map_eq_some_iff.mp hstep
      have hscreen := screen_updateActivity hr
      refine .kept rfl ?_ ?_ <;> simp only [State.react, hscreen]
  | handleForegroundStatus =>
      simp only [Recording.step, Option.map_eq_some_iff,
        RecordingScreen.handleForegroundStatus] at hstep
      obtain ⟨r, ⟨r', hr', rfl⟩, rfl⟩ := hstep
      have hscreen := screen_updateActivity hr'
      refine .kept rfl ?_ ?_ <;>
        simp only [State.react, RecordingScreen.updateUsersStatus, hscreen,
          RecordingScreen.inProgress]
  | viewWillAppear current =>
      obtain rfl := Option.some.inj hstep
      refine .kept rfl ?_ ?_ <;> simp only [RecordingScreen.viewWillAppear] <;> split <;> rfl
  | interrupted => exact absurd rfl hint

end Steps

/-! ### The label -/

/-- The timer runs and the label is seen exactly while a recording is in progress,
and the label shows the watch. -/
structure Shows (s : State) : Prop where
  dated : Recording.Dated s.screen
  live : s.screen.screen.recordTimer = s.screen.screen.recording
  watching : s.watch.isSome = s.screen.screen.recording
  seconds : s.timer.timerSeconds.toInt = (s.watch.getD 0 : ℕ)
  text : s.timer.text = clock (s.watch.getD 0)
  hidden : s.timer.hidden = s.watch.isNone

theorem shows_initial (cached : Option Session) (time : ℕ) : Shows (initial cached time) :=
  ⟨dated_initial cached time, rfl, rfl, rfl, RecordTimer.text_zero, rfl⟩

section Runs

variable {u : User} {s s' : State}

theorem not_started {x x' : RecordingScreen} (hdated : x.Dated)
    (h : x'.inProgress = x.inProgress) : x.started x' = false := by
  rw [RecordingScreen.started, h]
  cases hx : x.inProgress with
  | none => rfl
  | some r =>
      have hr : x.audioRecorder = some r := Option.eq_some_of_filter_eq_some hx
      have hlt := hdated r hr
      simpa using hlt

theorem shows_screen {e : Recording.Event} (h : Shows s) (hapart : Apart u s (.screen e))
    (hstep : step u s (.screen e) = some s') : Shows s' := by
  obtain ⟨x, hx, rfl⟩ := Option.map_eq_some_iff.mp hstep
  have hdated : Recording.Dated x := dated_step h.dated hx
  have hint : e ≠ .interrupted := by
    rintro rfl
    exact hapart
  cases timerStep hx hint with
  | ended hreset htimer hrecorder =>
      have hrec : x.screen.recording = false := by simp [RecordingScreen.recording, hrecorder]
      simp only [turnTimer, hreset, if_true, turnWatch, hrec, Bool.false_eq_true, if_false]
      exact ⟨hdated, htimer.trans hrec.symm, hrec.symm, rfl, RecordTimer.text_zero, rfl⟩
  | prepared hreset hprepares result htimer hrecorder =>
      have hnone : s.screen.screen.inProgress = none := by
        cases e with
        | interrupted => exact absurd hapart id
        | _ => exact hapart hprepares
      have hrec : s.screen.screen.recording = false := by simp [RecordingScreen.recording, hnone]
      have hoff : s.screen.screen.recordTimer = false := h.live.trans hrec
      have hwatch : s.watch = none := by simpa [hrec] using h.watching
      rw [hoff, Bool.false_or] at htimer
      have hrec' : x.screen.recording = result := by
        cases result <;> simp [RecordingScreen.recording, hrecorder]
      simp only [turnTimer, hreset, Bool.false_eq_true, if_false, hoff, htimer, turnWatch, hrec']
      cases result with
      | false =>
          refine ⟨hdated, htimer.trans hrec'.symm, hrec'.symm, ?_, ?_, ?_⟩
          · simpa [hwatch] using h.seconds
          · simpa [hwatch] using h.text
          · simpa [hwatch] using h.hidden
      | true =>
          have hstarted : s.screen.screen.started x.screen := by
            simp [RecordingScreen.started, hrecorder]
          simp only [hstarted, Bool.not_false, Bool.true_and, if_true]
          refine ⟨hdated, htimer.trans hrec'.symm, hrec'.symm, rfl, ?_, rfl⟩
          simpa [hwatch, RecordTimer.startTimer] using h.text
  | kept hreset htimer hrecorder =>
      have hrec : x.screen.recording = s.screen.screen.recording :=
        congrArg Option.isSome hrecorder
      have hsame : turnWatch s.screen x s.watch = s.watch := by
        rw [turnWatch, hrec, not_started h.dated hrecorder, ← h.watching]
        cases s.watch <;> rfl
      have htimers : turnTimer u s.screen x e s.timer = s.timer := by
        rw [turnTimer, hreset, htimer]
        cases s.screen.screen.recordTimer <;> rfl
      rw [hsame, htimers]
      exact ⟨hdated, htimer.trans (h.live.trans hrec.symm), h.watching.trans hrec.symm,
        h.seconds, h.text, h.hidden⟩

theorem shows_fire (h : Shows s) (hcounts : Apart u s .timerDidFire)
    (hstep : step u s .timerDidFire = some s') : Shows s' := by
  simp only [step] at hstep
  split at hstep <;> simp only [Option.some.injEq, reduceCtorEq] at hstep
  rename_i hlive
  subst s'
  obtain ⟨n, hn⟩ : ∃ n, s.watch = some n :=
    Option.isSome_iff_exists.mp (h.watching.trans (h.live.symm.trans hlive))
  have hseconds : s.timer.timerSeconds.toInt = n := by simpa [hn] using h.seconds
  refine ⟨h.dated, h.live, ?_, ?_, ?_, ?_⟩
  · simpa [hn] using h.watching
  · show (s.timer.timerSeconds + 1).toInt = ((s.watch.map (· + 1)).getD 0 : ℕ)
    rw [RecordTimer.toInt_add_one hseconds hcounts, hn]
    rfl
  · simpa [hn] using RecordTimer.text_timerDidFire hseconds hcounts
  · simpa [hn, RecordTimer.timerDidFire] using h.hidden

theorem shows_step {e : Event} (h : Shows s) (hapart : Apart u s e)
    (hstep : step u s e = some s') : Shows s' := by
  cases e with
  | screen e => exact shows_screen h hapart hstep
  | timerDidFire => exact shows_fire h hapart hstep

end Runs

instance (u : User) (s : Recording.State) : (e : Recording.Event) → Decidable (Prepares u s e)
  | .recordAudio _ | .snapshot .. => inferInstanceAs (Decidable (_ ∧ _))
  | .save _ | .cancel | .updateUsersStatus _ | .handleBackgroundStatus | .handleForegroundStatus
  | .viewWillAppear _ | .interrupted => .isFalse id

instance (u : User) (s : State) : (e : Event) → Decidable (Apart u s e)
  | .screen .interrupted => .isFalse id
  | .screen (.recordAudio _) | .screen (.snapshot ..) | .screen (.save _) | .screen .cancel
  | .screen (.updateUsersStatus _) | .screen .handleBackgroundStatus
  | .screen .handleForegroundStatus | .screen (.viewWillAppear _) =>
      inferInstanceAs (Decidable (_ → _))
  | .timerDidFire => inferInstanceAs (Decidable (_ < _))

/-- A second take, in its second second. -/
def secondTake : List Event :=
  [.screen (.recordAudio ⟨true, true⟩), .timerDidFire, .timerDidFire, .timerDidFire,
    .screen (.recordAudio ⟨true, true⟩), .screen (.recordAudio ⟨true, true⟩), .timerDidFire]

end Tootti.Timer
