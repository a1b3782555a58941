import Tootti.Recording.Screen

/-!
What a recording holds, and what its end gives back.

Starting a recording attaches a WaveView, schedules a timer for it and plays
the click track, before it is known whether the recorder records. Ending one
removes the view and the timer the screen made last, and stops the click track
the screen has by then. An Audio nothing refers to any more is deallocated,
which stops its player.
-/

namespace Tootti.Release

open Machine

structure State where
  user : Defaults
  /-- The Session of the screen, which has a listener if there is one. -/
  cached : Option Session
  screen : RecordingScreen
  nextPlayer : Nat

inductive Event
  | recordAudio (os : Start)
  /-- `appears`: another tab was selected, should the listener select this one.
  `kept`: something else refers to the click track the snapshot replaces. -/
  | snapshot (appears : Bool) (os : Start) (kept : Bool) (d : SessionDocument)

namespace State

/-- The screen has loaded and appeared; `clickTrack` was passed to it before. -/
def loaded (user : Defaults) (cached : Option Session) (clickTrack : Option Audio) (clock : Nat) :
    State :=
  let screen := { RecordingScreen.initial clock with clickTrack }.viewWillAppear cached
  ⟨user, cached, screen, screen.clickTrack.elim 0 fun a => a.player + 1⟩

def snapshot (appears : Bool) (os : Start) (kept : Bool) (d : SessionDocument) (s : State) :
    State :=
  let shown := if appears then some s.cached else none
  let r := s.screen.snapshotListener s.user s.cached shown os s.nextPlayer d
  let dealloc (playing : List Nat) : List Nat :=
    if r.setsCurrent && !kept then
      s.screen.clickTrack.elim playing fun a => removeObject playing a.player
    else playing
  { s with
    cached := r.cached
    screen := { r.screen with playing := dealloc r.screen.playing }
    nextPlayer := s.nextPlayer + 1 }

end State

def step (s : State) : Event → Option State
  | .recordAudio os => some { s with screen := (s.screen.recordAudio s.user s.cached os).1 }
  | .snapshot appears os kept d =>
      if s.cached.isSome then some (s.snapshot appears os kept d) else none

/-- No timer is scheduled, no WaveView attached, no click track playing. -/
structure Empty (x : RecordingScreen) : Prop where
  scheduled : x.scheduled = []
  waveFormView : x.waveFormView = []
  playing : x.playing = []

/-- When nothing is being recorded, nothing is held. -/
def Released (x : RecordingScreen) : Prop := x.inProgress = none → Empty x

/-- A recording the snapshot starts starts from idle, and records. -/
def StartsWell (os : Start) (d : SessionDocument) (s : State) : Prop :=
  s.user.isHost s.cached = false → d.hostStartRecording = true →
    s.screen.inProgress = none ∧ os.activationSuccess ∧ os.result

/-- Whether the screen's click track `a` plays once the listener has followed
the host's flag. -/
def Sounds (d : SessionDocument) (a : Audio) (s : State) : Prop :=
  if s.user.isHost s.cached then a.player ∈ s.screen.playing else d.hostStartRecording = true

/-- A start records. A snapshot starts nothing while a recording is in
progress, and replaces no click track that plays and that something else
refers to. -/
def Careful (s : State) : Event → Prop
  | .recordAudio os => s.screen.inProgress = none → os.activationSuccess ∧ os.result
  | .snapshot _ os kept d =>
      StartsWell os d s ∧
        (d.newClickTrack s.cached → kept → ∀ a ∈ s.screen.clickTrack, ¬ Sounds d a s)

/-! ### What a start takes and an end gives back -/

section Screen

variable {u : Defaults} {cached : Option Session} {os : Start} {x x' : RecordingScreen}

/-- What a start adds to what the screen holds, apart from the click track. -/
structure Acquired (x x' : RecordingScreen) : Prop where
  scheduled : x'.scheduled = x.scheduled ++ [x.clock]
  waveFormView : x'.waveFormView = x.waveFormView ++ [x.clock]
  waveformTimer : x'.waveformTimer = some x.clock
  wv : x'.wv = some x.clock

theorem acquired_startRecording : Acquired x (x.startRecording u cached os).1 := by
  rw [RecordingScreen.startRecording]
  cases os.activationSuccess with
  | false => exact ⟨rfl, rfl, rfl, rfl⟩
  | true =>
      refine ⟨?_, ?_, ?_, ?_⟩ <;> cases os.result <;>
        simp [RecordingScreen.record, RecordingScreen.prepareForNewRecording,
          RecordingScreen.startWaveform]

theorem playing_startRecording (hon : os.activationSuccess) (hrecords : os.result) :
    (x.startRecording u cached os).1.playing =
      x.clickTrack.elim x.playing fun a => removeObject x.playing a.player ++ [a.player] := by
  simp [RecordingScreen.startRecording, hon, hrecords, RecordingScreen.record,
    RecordingScreen.prepareForNewRecording, RecordingScreen.startWaveform]

/-- What an end leaves of it. -/
structure GaveBack (x x' : RecordingScreen) : Prop where
  scheduled : x'.scheduled = x.waveformTimer.elim x.scheduled (removeObject x.scheduled)
  waveFormView : x'.waveFormView = x.wv.elim x.waveFormView (removeObject x.waveFormView)
  playing : x'.playing = x.clickTrack.elim x.playing fun a => removeObject x.playing a.player

theorem gaveBack_endRecording (h : x.recording) : GaveBack x (x.endRecording u cached).1 := by
  obtain ⟨r, hr⟩ := Option.isSome_iff_exists.mp h
  rw [RecordingScreen.endRecording, hr]
  refine ⟨?_, ?_, ?_⟩ <;>
    simp [RecordingScreen.stopRecording, RecordingScreen.resetWaveform,
      RecordingScreen.showAlertForRecordingName, RecordingScreen.resetTimer]

theorem endRecording_of_idle (h : x.inProgress = none) :
    (x.endRecording u cached).1 = x.resetTimer := by
  rw [RecordingScreen.endRecording, h]

/-- What the screen holds is what it made and started last, and nothing when
it does not record. -/
structure Tidy (x : RecordingScreen) : Prop where
  released : Released x
  waveform : x.recording → ∃ t < x.clock, x.scheduled = [t] ∧ x.waveFormView = [t] ∧
    x.waveformTimer = some t ∧ x.wv = some t
  playing : ∀ p ∈ x.playing, ∃ a ∈ x.clickTrack, a.player = p

theorem Tidy.stopped (h : Tidy x) :
    (x.clickTrack.elim x.playing fun a => removeObject x.playing a.player) = [] := by
  rw [List.eq_nil_iff_forall_not_mem]
  intro p hp
  cases ha : x.clickTrack with
  | none =>
      rw [ha, Option.elim_none] at hp
      obtain ⟨a, hmem, -⟩ := h.playing p hp
      simp [ha] at hmem
  | some a =>
      rw [ha, Option.elim_some, mem_removeObject] at hp
      obtain ⟨b, hb, rfl⟩ := h.playing p hp.1
      obtain rfl : a = b := by simpa [ha] using hb
      exact hp.2 rfl

theorem tidy_startRecording (h : Tidy x) (hidle : x.inProgress = none)
    (hok : os.activationSuccess ∧ os.result) : Tidy (x.startRecording u cached os).1 := by
  obtain ⟨hon, hrecords⟩ := hok
  have hempty := h.released hidle
  have hnew : Acquired x (x.startRecording u cached os).1 := acquired_startRecording
  refine ⟨fun hnone => ?_, fun _ => ⟨x.clock, ?_, ?_⟩, fun p hp => ?_⟩
  · simp [RecordingScreen.inProgress_startRecording, hon, hrecords] at hnone
  · rw [RecordingScreen.clock_startRecording, if_pos hon]
    omega
  · rw [hnew.scheduled, hnew.waveFormView, hempty.scheduled, hempty.waveFormView]
    exact ⟨rfl, rfl, hnew.waveformTimer, hnew.wv⟩
  · rw [playing_startRecording hon hrecords, hempty.playing] at hp
    rw [RecordingScreen.clickTrack_startRecording]
    cases ha : x.clickTrack with
    | none => simp [ha] at hp
    | some a =>
        obtain rfl : p = a.player := by simpa [ha, removeObject] using hp
        exact ⟨a, rfl, rfl⟩

theorem empty_endRecording (h : Tidy x) : Empty (x.endRecording u cached).1 := by
  by_cases hrec : x.recording
  · have hback : GaveBack x (x.endRecording u cached).1 := gaveBack_endRecording hrec
    obtain ⟨t, -, hscheduled, hview, htimer, hwv⟩ := h.waveform hrec
    refine ⟨?_, ?_, ?_⟩
    · rw [hback.scheduled, htimer, hscheduled]
      simp [removeObject]
    · rw [hback.waveFormView, hwv, hview]
      simp [removeObject]
    · rw [hback.playing, h.stopped]
  · have hidle : x.inProgress = none := by simpa [RecordingScreen.recording] using hrec
    rw [endRecording_of_idle hidle]
    obtain ⟨hscheduled, hview, hplaying⟩ := h.released hidle
    exact ⟨hscheduled, hview, hplaying⟩

theorem tidy_of_empty (hidle : x.inProgress = none) (h : Empty x) : Tidy x where
  released _ := h
  waveform hrec := by simp [RecordingScreen.recording, hidle] at hrec
  playing p hp := by simp [h.playing] at hp

theorem tidy_endRecording (h : Tidy x) : Tidy (x.endRecording u cached).1 :=
  tidy_of_empty RecordingScreen.inProgress_endRecording (empty_endRecording h)

/-- Something is held that no end of a recording will give back. -/
inductive Leaks (x : RecordingScreen) : Prop
  | timer (t : Nat) (hin : t ∈ x.scheduled) (hlost : x.waveformTimer ≠ some t)
  | player (p : Nat) (hin : p ∈ x.playing) (hlost : ∀ a ∈ x.clickTrack, a.player ≠ p)

theorem Leaks.not_empty (h : Leaks x) : ¬ Empty x := by
  intro hempty
  cases h with
  | timer t hin _ => simp [hempty.scheduled] at hin
  | player p hin _ => simp [hempty.playing] at hin

theorem Leaks.not_empty_endRecording (h : Leaks x) (hrec : x.recording) :
    ¬ Empty (x.endRecording u cached).1 := by
  have hback : GaveBack x (x.endRecording u cached).1 := gaveBack_endRecording hrec
  intro hempty
  cases h with
  | timer t hin hlost =>
      have hstill : t ∈ (x.endRecording u cached).1.scheduled := by
        rw [hback.scheduled]
        cases htimer : x.waveformTimer with
        | none => exact hin
        | some v =>
            rw [htimer] at hlost
            exact mem_removeObject.mpr ⟨hin, fun heq => hlost (congrArg some heq.symm)⟩
      simp [hempty.scheduled] at hstill
  | player p hin hlost =>
      have hstill : p ∈ (x.endRecording u cached).1.playing := by
        rw [hback.playing]
        cases ha : x.clickTrack with
        | none => exact hin
        | some a => exact mem_removeObject.mpr ⟨hin, fun heq => hlost a ha heq.symm⟩
      simp [hempty.playing] at hstill

/-- A start that fails leaves its view and timer behind. -/
theorem scheduled_startRecording_of_fails (u : Defaults) (cached : Option Session)
    (hidle : x.inProgress = none)
    (hfails : ¬ (os.activationSuccess ∧ os.result)) :
    (x.startRecording u cached os).1.inProgress = none ∧
      (x.startRecording u cached os).1.scheduled ≠ [] := by
  have hnew : Acquired x (x.startRecording u cached os).1 := acquired_startRecording
  refine ⟨?_, ?_⟩
  · rw [RecordingScreen.inProgress_startRecording]
    split
    · rename_i hon
      rw [if_neg fun hrecords => hfails ⟨hon, hrecords⟩]
    · exact hidle
  · simp [hnew.scheduled]

/-- A start in a recording loses hold of the recording's timer. -/
theorem lost_startRecording (u : Defaults) (cached : Option Session) (os : Start) (h : Tidy x)
    (hrec : x.recording) :
    ∃ t ∈ (x.startRecording u cached os).1.scheduled,
      (x.startRecording u cached os).1.waveformTimer ≠ some t := by
  have hnew : Acquired x (x.startRecording u cached os).1 := acquired_startRecording
  obtain ⟨t, ht, hscheduled, -⟩ := h.waveform hrec
  refine ⟨t, ?_, ?_⟩
  · simp [hnew.scheduled, hscheduled]
  · rw [hnew.waveformTimer, Ne, Option.some.injEq]
    omega

end Screen

/-! ### The snapshot listener -/

section Snapshot

variable {s : State} {os : Start} {kept : Bool} {d : SessionDocument} {o : Session}

/-- The screen has appeared with the click track its Session has now. -/
def Settled (s : State) : Prop := s.screen.viewWillAppear s.cached = s.screen

/-- Its Session is the current one, so it finds nothing new when it appears again. -/
theorem snapshot_of_settled (h : Settled s) (appears : Bool) (os : Start) (kept : Bool)
    (d : SessionDocument) : s.snapshot appears os kept d = s.snapshot false os kept d := by
  cases appears with
  | false => rfl
  | true =>
      have hsame : s.screen.followHost s.user s.cached (some s.cached) os d =
          s.screen.followHost s.user s.cached none os d := by
        rw [RecordingScreen.followHost, RecordingScreen.followHost,
          RecordingScreen.setSelectedIndex, RecordingScreen.setSelectedIndex, h]
      simp only [State.snapshot, RecordingScreen.snapshotListener, Bool.false_eq_true, if_true,
        if_false, hsame]

/-- The screen once it has followed the host's flag. -/
abbrev State.followed (os : Start) (d : SessionDocument) (s : State) : RecordingScreen :=
  (s.screen.followHost s.user s.cached none os d).1

theorem clickTrack_followed (os : Start) (d : SessionDocument) (s : State) :
    (s.followed os d).clickTrack = s.screen.clickTrack :=
  (RecordingScreen.clickTrack_followHost none d).trans (ite_self _)

theorem cached_followHost_none (os : Start) (d : SessionDocument) (s : State) :
    (s.screen.followHost s.user s.cached none os d).2.1 = s.cached := by
  rw [RecordingScreen.followHost]
  split
  · rfl
  · split <;> rfl

theorem newClickTrack_roster (d : SessionDocument) (c : Option Session) (l : Roster) :
    d.newClickTrack (c.map fun s => { s with currentPlayerList := l }) = d.newClickTrack c := by
  cases c <;> rfl

theorem screen_snapshot_of_same (h : ¬ d.newClickTrack s.cached) :
    (s.snapshot false os kept d).screen = s.followed os d := by
  simp [State.snapshot, RecordingScreen.snapshotListener, cached_followHost_none,
    newClickTrack_roster, h]

theorem screen_snapshot_of_new (h : d.newClickTrack s.cached) (hs : s.cached = some o) :
    (s.snapshot false os kept d).screen = { s.followed os d with
      clickTrack :=
        some ⟨"click-track.wav", o.hostUid, "ClickTrack", some d.clickTrackRef, s.nextPlayer⟩
      playing :=
        if kept then (s.followed os d).playing
        else s.screen.clickTrack.elim (s.followed os d).playing fun a =>
          removeObject (s.followed os d).playing a.player } := by
  have hnew : d.newClickTrack (some { o with currentPlayerList := d.currentPlayerList }) := by
    rw [hs] at h
    exact h
  have hcached := (cached_followHost_none os d s).trans hs
  simp only [State.snapshot, RecordingScreen.snapshotListener, State.followed, hcached,
    Bool.false_eq_true, if_false, Option.map_some, hnew, if_true]
  cases kept <;> rfl

theorem settled_snapshot (h : Settled s) (hs : s.cached = some o) :
    Settled (s.snapshot false os kept d) := by
  refine RecordingScreen.viewWillAppear_eq_self_iff.mpr fun a ha => ?_
  have hcached := (cached_followHost_none os d s).trans hs
  by_cases hnew : d.newClickTrack s.cached
  · rw [screen_snapshot_of_new hnew hs]
    have hnew : d.newClickTrack (some { o with currentPlayerList := d.currentPlayerList }) := by
      rw [hs] at hnew
      exact hnew
    simp only [State.snapshot, RecordingScreen.snapshotListener, Bool.false_eq_true, if_false,
      hcached, Option.map_some, hnew, if_true] at ha
    exact ha
  · rw [screen_snapshot_of_same hnew, clickTrack_followed]
    refine RecordingScreen.viewWillAppear_eq_self_iff.mp h a ?_
    have hsame : ¬ d.newClickTrack (some { o with currentPlayerList := d.currentPlayerList }) := by
      rw [hs] at hnew
      exact hnew
    simp only [State.snapshot, RecordingScreen.snapshotListener, Bool.false_eq_true, if_false,
      hcached, Option.map_some, hsame] at ha
    rw [hs]
    exact ha

theorem tidy_followed (h : Tidy s.screen) (hwell : StartsWell os d s) :
    Tidy (s.followed os d) := by
  rw [State.followed, RecordingScreen.followHost]
  split
  · exact h
  · rename_i hguest
    split
    · rename_i hflag
      obtain ⟨hidle, hok⟩ := hwell (by simpa using hguest) hflag
      exact tidy_startRecording h hidle hok
    · exact tidy_endRecording h

theorem player_mem_followed {a : Audio} (ha : a ∈ s.screen.clickTrack)
    (hwell : StartsWell os d s) (hsounds : Sounds d a s) :
    a.player ∈ (s.followed os d).playing := by
  rw [Sounds] at hsounds
  rw [State.followed, RecordingScreen.followHost]
  split
  · rename_i hhost
    rwa [if_pos hhost] at hsounds
  · rename_i hguest
    rw [if_neg hguest] at hsounds
    obtain ⟨-, hon, hrecords⟩ := hwell (by simpa using hguest) hsounds
    rw [if_pos hsounds]
    show a.player ∈ (s.screen.startRecording s.user s.cached os).1.playing
    rw [playing_startRecording hon hrecords, ha, Option.elim_some]
    exact List.mem_append_right _ (List.mem_singleton_self _)

theorem playing_followed_eq_nil (h : Tidy s.screen) (hwell : StartsWell os d s)
    (hquiet : ∀ a ∈ s.screen.clickTrack, ¬ Sounds d a s) : (s.followed os d).playing = [] := by
  rw [List.eq_nil_iff_forall_not_mem]
  intro p hp
  have htrack := clickTrack_followed os d s
  obtain ⟨a, ha, rfl⟩ := (tidy_followed h hwell).playing p hp
  rw [htrack] at ha
  refine hquiet a ha ?_
  rw [Sounds]
  rw [State.followed, RecordingScreen.followHost] at hp
  split
  · rename_i hhost
    rwa [if_pos hhost] at hp
  · rename_i hguest
    rw [if_neg hguest] at hp
    by_contra hflag
    rw [if_neg hflag, (empty_endRecording h).playing] at hp
    exact absurd hp List.not_mem_nil

theorem tidy_snapshot (h : Tidy s.screen) (hs : s.cached = some o)
    (hcareful : Careful s (.snapshot false os kept d)) :
    Tidy (s.snapshot false os kept d).screen := by
  obtain ⟨hwell, hkept⟩ := hcareful
  have hfollowed := tidy_followed h hwell
  by_cases hnew : d.newClickTrack s.cached
  · rw [screen_snapshot_of_new hnew hs]
    have hquiet : (if kept then (s.followed os d).playing
        else s.screen.clickTrack.elim (s.followed os d).playing fun a =>
          removeObject (s.followed os d).playing a.player) = [] := by
      cases kept with
      | true => exact playing_followed_eq_nil h hwell (hkept hnew rfl)
      | false =>
          rw [if_neg Bool.false_ne_true, ← clickTrack_followed os d s, hfollowed.stopped]
    rw [hquiet]
    refine ⟨fun hidle => ?_, hfollowed.waveform, fun p hp => absurd hp List.not_mem_nil⟩
    obtain ⟨hscheduled, hview, -⟩ := hfollowed.released hidle
    exact ⟨hscheduled, hview, rfl⟩
  · rw [screen_snapshot_of_same hnew]
    exact hfollowed

/-- Following the click track leaves the recorder and its timer. -/
theorem snapshot_frame (os : Start) (kept : Bool) (d : SessionDocument) (hs : s.cached = some o) :
    let x := (s.snapshot false os kept d).screen
    x.inProgress = (s.followed os d).inProgress ∧ x.scheduled = (s.followed os d).scheduled ∧
      x.waveformTimer = (s.followed os d).waveformTimer := by
  by_cases hnew : d.newClickTrack s.cached
  · rw [screen_snapshot_of_new hnew hs]
    exact ⟨rfl, rfl, rfl⟩
  · rw [screen_snapshot_of_same hnew]
    exact ⟨rfl, rfl, rfl⟩

theorem leaks_of_not_startsWell (h : Tidy s.screen) (hs : s.cached = some o)
    (hwell : ¬ StartsWell os d s) :
    Leaks (s.snapshot false os kept d).screen ∨ ¬ Released (s.snapshot false os kept d).screen := by
  simp only [StartsWell, not_forall] at hwell
  obtain ⟨hguest, hflag, hwell⟩ := hwell
  obtain ⟨hprogress, hscheduled, htimer⟩ := snapshot_frame os kept d hs
  have hfollowed : s.followed os d = (s.screen.startRecording s.user s.cached os).1 := by
    rw [State.followed, RecordingScreen.followHost, hguest, if_pos hflag]
    rfl
  rw [hfollowed] at hprogress hscheduled htimer
  by_cases hrec : s.screen.recording
  · obtain ⟨t, hin, hlost⟩ := lost_startRecording s.user s.cached os h hrec
    exact .inl (.timer t (hscheduled ▸ hin) (htimer ▸ hlost))
  · have hidle : s.screen.inProgress = none := by simpa [RecordingScreen.recording] using hrec
    obtain ⟨hnone, hleft⟩ := scheduled_startRecording_of_fails s.user s.cached hidle
      fun hok => hwell ⟨hidle, hok⟩
    exact .inr fun hreleased => (hscheduled ▸ hleft) (hreleased (hprogress.trans hnone)).scheduled

theorem leaks_of_sounds {a : Audio} (hs : s.cached = some o) (hwell : StartsWell os d s)
    (hnew : d.newClickTrack s.cached) (ha : a ∈ s.screen.clickTrack)
    (hold : a.player < s.nextPlayer) (hsounds : Sounds d a s) :
    Leaks (s.snapshot false os true d).screen := by
  have hin := player_mem_followed ha hwell hsounds
  rw [screen_snapshot_of_new hnew hs]
  refine .player a.player hin fun b hb => ?_
  obtain rfl := Option.some.inj hb
  exact fun heq => absurd heq (by show s.nextPlayer ≠ a.player; omega)

end Snapshot

/-! ### Runs -/

/-- The players made later have later numbers. -/
structure Inv (s : State) : Prop where
  settled : Settled s
  tidy : Tidy s.screen
  player : ∀ a ∈ s.screen.clickTrack, a.player < s.nextPlayer

theorem inv_loaded (user : Defaults) (cached : Option Session) (clickTrack : Option Audio)
    (clock : Nat) : Inv (.loaded user cached clickTrack clock) := by
  refine ⟨?_, tidy_of_empty ?_ ⟨?_, ?_, ?_⟩, fun a ha => ?_⟩
  case refine_1 =>
    refine RecordingScreen.viewWillAppear_eq_self_iff.mpr fun a ha => ?_
    have ha : cached.bind Session.clickTrack = some a := ha
    show (RecordingScreen.viewWillAppear _ _).clickTrack = some a
    rw [RecordingScreen.clickTrack_viewWillAppear, ha, Option.some_or]
  case refine_6 =>
    rw [State.loaded, Option.mem_def] at ha
    show a.player < (State.loaded user cached clickTrack clock).nextPlayer
    rw [State.loaded, ha]
    exact Nat.lt_succ_self a.player
  all_goals
    rw [State.loaded, RecordingScreen.viewWillAppear]
    split <;> rfl

theorem inv_step {s s' : State} {e : Event} (h : Inv s) (hcareful : Careful s e)
    (hstep : step s e = some s') : Inv s' := by
  cases e with
  | recordAudio os =>
      simp only [step, Option.some.injEq] at hstep
      subst s'
      have htrack : (s.screen.recordAudio s.user s.cached os).1.clickTrack = s.screen.clickTrack :=
        RecordingScreen.clickTrack_recordAudio
      refine ⟨?_, ?_, fun a ha => h.player a (htrack ▸ ha)⟩
      · refine RecordingScreen.viewWillAppear_eq_self_iff.mpr fun a ha => ?_
        exact htrack.trans (RecordingScreen.viewWillAppear_eq_self_iff.mp h.settled a ha)
      · show Tidy (s.screen.recordAudio s.user s.cached os).1
        rw [RecordingScreen.recordAudio]
        split
        · exact tidy_endRecording h.tidy
        · rename_i hrec
          have hidle : s.screen.inProgress = none := by simpa [RecordingScreen.recording] using hrec
          exact tidy_startRecording h.tidy hidle (hcareful hidle)
  | snapshot appears os kept d =>
      rw [step] at hstep
      split at hstep <;> simp only [Option.some.injEq, reduceCtorEq] at hstep
      rename_i hlistens
      subst s'
      rw [snapshot_of_settled h.settled]
      obtain ⟨o, hs⟩ := Option.isSome_iff_exists.mp hlistens
      refine ⟨settled_snapshot h.settled hs, tidy_snapshot h.tidy hs hcareful, fun a ha => ?_⟩
      show a.player < s.nextPlayer + 1
      by_cases hnew : d.newClickTrack s.cached
      · rw [screen_snapshot_of_new hnew hs] at ha
        obtain rfl := Option.some.inj ha
        exact Nat.lt_succ_self s.nextPlayer
      · rw [screen_snapshot_of_same hnew, clickTrack_followed] at ha
        exact Nat.lt_succ_of_lt (h.player a ha)

def Releases (_ : State) (_ : Event) (s' : State) : Prop := Released s'.screen

/-- What leaks shows at once, or when the recording is ended. -/
theorem broken_of_leaks {s s' : State} {e : Event} (hstep : step s e = some s')
    (h : Leaks s'.screen ∨ ¬ Released s'.screen) : ∃ fs, ¬ EveryStep step Releases s (e :: fs) := by
  rcases h with hleaks | hbroken
  · by_cases hrec : s'.screen.recording
    · have hnext : step s' (.recordAudio ⟨true, true⟩) =
          some { s' with screen := (s'.screen.endRecording s'.user s'.cached).1 } := by
        rw [step, RecordingScreen.recordAudio, if_pos hrec]
      refine ⟨[.recordAudio ⟨true, true⟩], fun hall => ?_⟩
      have hreleased := ((everyStep_cons hnext).mp ((everyStep_cons hstep).mp hall).2).1
      exact hleaks.not_empty_endRecording hrec (hreleased RecordingScreen.inProgress_endRecording)
    · refine ⟨[], fun hall => hleaks.not_empty ?_⟩
      exact ((everyStep_cons hstep).mp hall).1 (by simpa [RecordingScreen.recording] using hrec)
  · exact ⟨[], fun hall => hbroken ((everyStep_cons hstep).mp hall).1⟩

theorem leaks_of_not_careful {s s' : State} {e : Event} (h : Inv s) (hcareful : ¬ Careful s e)
    (hstep : step s e = some s') : Leaks s'.screen ∨ ¬ Released s'.screen := by
  cases e with
  | recordAudio os =>
      obtain ⟨hidle, hfails⟩ := Classical.not_imp.mp hcareful
      simp only [step, Option.some.injEq] at hstep
      subst s'
      obtain ⟨hnone, hleft⟩ := scheduled_startRecording_of_fails s.user s.cached hidle hfails
      have hrecord : s.screen.recordAudio s.user s.cached os =
          s.screen.startRecording s.user s.cached os := by
        simp [RecordingScreen.recordAudio, RecordingScreen.recording, hidle]
      rw [hrecord]
      exact .inr fun hreleased => hleft (hreleased hnone).scheduled
  | snapshot appears os kept d =>
      rw [step] at hstep
      split at hstep <;> simp only [Option.some.injEq, reduceCtorEq] at hstep
      rename_i hlistens
      subst s'
      rw [snapshot_of_settled h.settled]
      obtain ⟨o, hs⟩ := Option.isSome_iff_exists.mp hlistens
      by_cases hwell : StartsWell os d s
      · simp only [Careful, not_and, not_forall, not_not] at hcareful
        obtain ⟨hnew, rfl, a, ha, hsounds⟩ := hcareful hwell
        exact .inl (leaks_of_sounds hs hwell hnew ha (h.player a ha) hsounds)
      · exact leaks_of_not_startsWell h.tidy hs hwell

/-- In a run that meets the condition everything is given back whenever
nothing is being recorded, and a run that does not meet it has a beginning
after which something can be left behind for good. -/
theorem released_of_careful (user : Defaults) (cached : Option Session)
    (clickTrack : Option Audio) (clock : Nat) (es : List Event) :
    let s := State.loaded user cached clickTrack clock
    (Meets step Careful s es → EveryStep step Releases s es) ∧
      (¬ Meets step Careful s es →
        ∃ before after fs, es = before ++ after ∧ ¬ EveryStep step Releases s (before ++ fs)) := by
  have hinit := inv_loaded user cached clickTrack clock
  refine ⟨fun hmeets => ?_, fun hfails => ?_⟩
  · refine hmeets.everyStep (fun s e s' h hcareful hstep => ?_) hinit
    have h' := inv_step h hcareful hstep
    exact ⟨h'.tidy.released, h'⟩
  · exact exists_broken_of_not_meets (fun s e s' h hcareful hstep => inv_step h hcareful hstep)
      (fun s e s' h hcareful hstep => broken_of_leaks hstep (leaks_of_not_careful h hcareful hstep))
      hfails hinit

/-- The audio session cannot be activated. -/
theorem waveform_left_by_failed_start :
    ¬ ∀ (user : Defaults) (cached : Option Session) (clickTrack : Option Audio) (clock : Nat)
      (es : List Event), EveryStep step Releases (.loaded user cached clickTrack clock) es := by
  intro h
  let session : Session := ⟨"s", "song", "h", [], none, [], none, false, []⟩
  have hall := h ⟨some "h", some "host"⟩ (some session) none 0 [.recordAudio ⟨false, false⟩]
  have hrun : step (.loaded ⟨some "h", some "host"⟩ (some session) none 0)
    (.recordAudio ⟨false, false⟩) = some _ := rfl
  exact absurd (((everyStep_cons hrun).mp hall).1 rfl).scheduled (by decide)

end Tootti.Release
