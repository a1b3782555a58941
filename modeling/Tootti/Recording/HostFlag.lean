import Tootti.Recording.Screen

/-!
The host's flag and the host's recorder.

Only the record button starts or ends a host's recording: the snapshot
listener leaves a host's recorder alone. The flag is sent where the recorder
has begun to record and where it was stopped, and a start that fails sends
nothing. So the flags that are sent alternate, whatever else happens to the
screen.
-/

namespace Tootti.HostFlag

open Machine Recording

def flag? : Request → Option Bool
  | .hostStartRecording _ status => some status
  | .currentPlayerList _ _ => none

/-- The values of the flag among what was sent, in order. -/
def flags (sent : List Request) : List Bool := sent.filterMap flag?

/-- The flags alternate, the first is `YES`, and the last is `now`, which is
`NO` when there is none. -/
structure Follows (flags : List Bool) (now : Bool) : Prop where
  alternate : ∀ (i : Nat) b, flags[i]? = some b → b = decide (i % 2 = 0)
  last : flags.getLast?.getD false = now

/-- A Session of the user's own session. -/
def Hosted (session : Session) (cached : Option Session) : Prop :=
  ∃ s ∈ cached, s.uid = session.uid ∧ s.hostUid = session.hostUid

/-- The event stops no recorder from outside, and a Session it puts in the
place of the cached one is of the same session. -/
def Within (session : Session) : Recording.Event → Prop
  | .interrupted => False
  | .viewWillAppear current => Hosted session current
  | _ => True

theorem follows_nil : Follows [] false := ⟨by simp, rfl⟩

/-- The flag is up after an odd number of them. -/
theorem Follows.length {l : List Bool} {now : Bool} (h : Follows l now) :
    now = decide (l.length % 2 = 1) := by
  rw [← h.last]
  cases hl : l.getLast? with
  | none =>
      obtain rfl := List.getLast?_eq_none_iff.mp hl
      rfl
  | some b =>
      obtain ⟨init, rfl⟩ := List.getLast?_eq_some_iff.mp hl
      have hb : b = decide (init.length % 2 = 0) := h.alternate init.length b (by simp)
      rw [Option.getD_some, hb, List.length_append, List.length_singleton, decide_eq_decide]
      omega

theorem Follows.turn {l : List Bool} {now : Bool} (h : Follows l now) :
    Follows (l ++ [!now]) (!now) := by
  refine ⟨fun i b hi => ?_, by simp⟩
  rcases getElem?_concat_eq_some.mp hi with hi | ⟨rfl, rfl⟩
  · exact h.alternate i b hi
  · rw [h.length, ← decide_not, decide_eq_decide]
    omega

/-! ### One event -/

section Steps

variable {u : User} {session : Session} {s s' : State} {e : Recording.Event}

theorem flags_append (l m : List Request) : flags (l ++ m) = flags l ++ flags m :=
  List.filterMap_append

theorem isHost_of_hosted {cached : Option Session} (hhost : u.uid = session.hostUid)
    (h : Hosted session cached) : (defaults u).isHost cached = true := by
  obtain ⟨s, hs, -, hsame⟩ := h
  rw [Option.mem_def.mp hs]
  simp [defaults, Defaults.isHost, hhost, hsame]

theorem flags_flagRequest {cached : Option Session} (h : (defaults u).isHost cached = true)
    (status : Bool) :
    flags (RecordingScreen.flagRequest (defaults u) cached status) = [status] := by
  cases cached with
  | none => simp [Defaults.isHost, defaults] at h
  | some s =>
      rw [RecordingScreen.flagRequest, if_pos h]
      rfl

/-- What an event does to the flags: nothing, and the recorder goes on as it
did, or it sends the recorder's new state. -/
inductive Turn (s s' : State) : Prop
  | kept (hrecording : s'.screen.recording = s.screen.recording)
      (hflags : flags s'.sent = flags s.sent)
  | turned (hrecording : s'.screen.recording = !s.screen.recording)
      (hflags : flags s'.sent = flags s.sent ++ [!s.screen.recording])

theorem recording_startRecording {cached : Option Session} {os : Start} {x : RecordingScreen}
    (h : x.recording = false) :
    (x.startRecording (defaults u) cached os).1.recording =
      (os.activationSuccess && os.result) := by
  have hidle : x.inProgress = none := by simpa [RecordingScreen.recording] using h
  rw [RecordingScreen.recording, RecordingScreen.inProgress_startRecording, hidle]
  cases os.activationSuccess <;> cases os.result <;> rfl

theorem turn_recordAudio (os : Start) (h : (defaults u).isHost s.cached = true) :
    Turn s (s.put (s.screen.recordAudio (defaults u) s.cached os)) := by
  cases hrec : s.screen.recording with
  | true =>
      have hpressed : s.screen.recordAudio (defaults u) s.cached os =
          s.screen.endRecording (defaults u) s.cached := if_pos hrec
      refine .turned ?_ ?_
      · rw [State.put, hpressed, RecordingScreen.recording,
          RecordingScreen.inProgress_endRecording, hrec]
        rfl
      · rw [State.put, hpressed, flags_append, RecordingScreen.requests_endRecording, if_pos hrec,
          flags_flagRequest h, hrec]
        rfl
  | false =>
      have hpressed : s.screen.recordAudio (defaults u) s.cached os =
          s.screen.startRecording (defaults u) s.cached os := if_neg (Bool.eq_false_iff.mp hrec)
      cases hstarts : os.activationSuccess && os.result with
      | true =>
          refine .turned ?_ ?_
          · rw [State.put, hpressed, recording_startRecording hrec, hstarts, hrec]
            rfl
          · rw [State.put, hpressed, flags_append, RecordingScreen.requests_startRecording, hstarts,
              if_pos rfl, flags_flagRequest h, hrec]
            rfl
      | false =>
          refine .kept ?_ ?_
          · rw [State.put, hpressed, recording_startRecording hrec, hstarts, hrec]
          · rw [State.put, hpressed, flags_append, RecordingScreen.requests_startRecording, hstarts]
            exact List.append_nil _

/-- The listener does nothing to a host's recorder. -/
theorem recording_snapshotListener {cached : Option Session}
    (h : (defaults u).isHost cached = true) (shown : Option (Option Session)) (os : Start)
    (player : Nat) (d : SessionDocument) (x : RecordingScreen) :
    (x.snapshotListener (defaults u) cached shown os player d).screen.recording = x.recording := by
  rw [RecordingScreen.recording, inProgress_snapshotListener, inProgress_followHost, if_pos h]
  rfl

theorem hosted_snapshotListener {cached : Option Session} (h : Hosted session cached)
    {u : Defaults} (hisHost : u.isHost cached = true) (shown : Option (Option Session)) (os : Start)
    (player : Nat) (d : SessionDocument) (x : RecordingScreen) :
    Hosted session (x.snapshotListener u cached shown os player d).cached := by
  have hfollow : x.followHost u cached shown os d = (x, cached, []) := if_pos hisHost
  obtain ⟨s, hs, huid, hhost⟩ := h
  obtain rfl := Option.mem_def.mp hs
  rw [RecordingScreen.snapshotListener, hfollow]
  dsimp only
  split
  · exact ⟨_, rfl, huid, hhost⟩
  · exact ⟨_, rfl, huid, hhost⟩

/-- What the other handlers keep of the cached Session and send. -/
structure Lists (session : Session) (x : RecordingScreen) (r : RecordingScreen.Reaction) :
    Prop where
  recording : r.screen.recording = x.recording
  cached : Hosted session r.cached
  flags : flags r.requests = []

theorem Lists.turn {r : RecordingScreen.Reaction} (h : Lists session s.screen r) :
    Turn s (s.react r) ∧ Hosted session (s.react r).cached := by
  refine ⟨.kept h.recording ?_, h.cached⟩
  rw [State.react, flags_append, h.flags, List.append_nil]

theorem lists_updateUsersStatus {cached : Option Session} (h : Hosted session cached)
    (u : Defaults) (on : Bool) (x : RecordingScreen) :
    Lists session x (x.updateUsersStatus u cached on) := by
  obtain ⟨s, hs, hsame⟩ := h
  obtain rfl := Option.mem_def.mp hs
  exact ⟨rfl, ⟨_, rfl, hsame⟩, rfl⟩

theorem lists_updateActivity {cached : Option Session} (h : Hosted session cached) {u : Defaults}
    {isActive : Bool} {x : RecordingScreen} {r : RecordingScreen.Reaction}
    (hr : x.updateActivity u cached isActive = some r) : Lists session x r := by
  obtain ⟨s, hs, hsame⟩ := h
  obtain rfl := Option.mem_def.mp hs
  obtain ⟨s', hs', rfl⟩ := Option.map_eq_some_iff.mp hr
  obtain ⟨l, -, rfl⟩ := Option.map_eq_some_iff.mp hs'
  exact ⟨rfl, ⟨_, rfl, hsame⟩, rfl⟩

theorem step_turn (hhost : u.uid = session.hostUid) (hcached : Hosted session s.cached)
    (hwithin : Within session e) (hstep : step u s e = some s') :
    Turn s s' ∧ Hosted session s'.cached := by
  have hisHost := isHost_of_hosted hhost hcached
  cases e with
  | recordAudio os =>
      obtain rfl := Option.some.inj hstep
      exact ⟨turn_recordAudio os hisHost, hcached⟩
  | snapshot shown os d =>
      obtain rfl := Option.some.inj hstep
      refine ⟨.kept (recording_snapshotListener hisHost shown os s.nextPlayer d s.screen) ?_,
        hosted_snapshotListener hcached hisHost shown os s.nextPlayer d s.screen⟩
      show flags (s.sent ++ _) = flags s.sent
      rw [RecordingScreen.requests_snapshotListener_of_isHost hisHost, List.append_nil]
  | save name | cancel =>
      simp only [step] at hstep
      split at hstep <;> simp only [Option.some.injEq, reduceCtorEq] at hstep
      subst s'
      exact ⟨.kept rfl rfl, hcached⟩
  | updateUsersStatus on =>
      obtain rfl := Option.some.inj hstep
      exact (lists_updateUsersStatus hcached _ on s.screen).turn
  | handleBackgroundStatus =>
      obtain ⟨r, hr, rfl⟩ := Option.map_eq_some_iff.mp hstep
      exact (lists_updateActivity hcached hr).turn
  | handleForegroundStatus =>
      obtain ⟨r, hr, rfl⟩ := Option.map_eq_some_iff.mp hstep
      obtain ⟨r', hr', rfl⟩ := Option.map_eq_some_iff.mp hr
      -- the activity is sent before the switch
      have hactivity := lists_updateActivity hcached hr'
      have hstatus := lists_updateUsersStatus hactivity.cached (defaults u) s.screen.statusSwitch
        r'.screen
      refine Lists.turn ⟨hstatus.recording.trans hactivity.recording, hstatus.cached, ?_⟩
      rw [flags_append, hactivity.flags, hstatus.flags]
      rfl
  | viewWillAppear current =>
      obtain rfl := Option.some.inj hstep
      refine ⟨.kept ?_ rfl, hwithin⟩
      show (s.screen.viewWillAppear current).recording = s.screen.recording
      rw [RecordingScreen.viewWillAppear]
      split <;> rfl
  | interrupted => exact absurd hwithin id

end Steps

structure Inv (session : Session) (s : State) : Prop where
  hosted : Hosted session s.cached
  follows : Follows (flags s.sent) s.screen.recording

theorem inv_initial (session : Session) (clock : Nat) :
    Inv session (.initial (some session) clock) :=
  ⟨⟨session, rfl, rfl, rfl⟩, follows_nil⟩

theorem inv_step {u : User} {session : Session} {s s' : State} {e : Recording.Event}
    (hhost : u.uid = session.hostUid) (h : Inv session s) (hwithin : Within session e)
    (hstep : step u s e = some s') : Inv session s' := by
  obtain ⟨hturn, hhosted⟩ := step_turn hhost h.hosted hwithin hstep
  refine ⟨hhosted, ?_⟩
  cases hturn with
  | kept hrecording hflags =>
      rw [hrecording, hflags]
      exact h.follows
  | turned hrecording hflags =>
      rw [hrecording, hflags]
      exact h.follows.turn

/-- In every run of a host's screen the flags that were sent alternate, and
the last of them says whether the recorder records. -/
theorem flag_follows_recorder {u : User} {session : Session} (hhost : u.uid = session.hostUid)
    {clock : Nat} {es : List Recording.Event} (hes : ∀ e ∈ es, Within session e) {s : State}
    (hrun : run (step u) (.initial (some session) clock) es = some s) :
    Follows (flags s.sent) s.screen.recording := by
  have hkeep : ∀ m e m', e ∈ es → Inv session m → step u m e = some m' → Inv session m' :=
    fun m e m' he hm hstep => inv_step hhost hm (hes e he) hstep
  exact (run_invariant_of_mem hkeep hrun (inv_initial session clock)).follows

def song : Session := ⟨"s", "song", "h", [], none, [], none, false, []⟩

/-- A take of the host, and a second one that fails to start. -/
theorem flag_follows_one_take :
    ∃ s, run (step ⟨"h", "host"⟩) (.initial (some song) 0)
        [.recordAudio ⟨true, true⟩, .recordAudio ⟨true, true⟩, .recordAudio ⟨true, false⟩] =
          some s ∧ Follows (flags s.sent) s.screen.recording := by
  have hrun : run (step ⟨"h", "host"⟩) (.initial (some song) 0)
    [.recordAudio ⟨true, true⟩, .recordAudio ⟨true, true⟩, .recordAudio ⟨true, false⟩] =
      some _ := rfl
  refine ⟨_, hrun, flag_follows_recorder (u := ⟨"h", "host"⟩) rfl (fun e he => ?_) hrun⟩
  simp only [List.mem_cons, List.not_mem_nil, or_false] at he
  rcases he with rfl | rfl | rfl <;> trivial

end Tootti.HostFlag
