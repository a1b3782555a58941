import Tootti.Machine.Inbox
import Tootti.Machine.Register
import Tootti.Recording.HostFlag

/-!
The takes of a session: the host's recorder, the flag in the document, and the
recorders of the guests.

The host's screen sends the flag when its recorder starts and stops, the server
applies it when it arrives, and the listener of each guest acts on it when the
snapshot is delivered. All of this takes time, and the other screens write other
fields of the same document meanwhile. Once what the host sent has arrived and the
guest has been told, though, the guest records exactly if the host does.
-/

namespace Tootti.Together

open Machine Recording HostFlag

/-- A write of a Recording screen reaches the document. -/
def apply : Request → SessionDocument → SessionDocument
  | .hostStartRecording _ status, d => { d with hostStartRecording := status }
  | .currentPlayerList _ l, d => { d with currentPlayerList := l }

/-- One client's Recording screen. Clients are named by the uid of their user. -/
structure Client where
  state : State
  /-- `viewDidLoad` has added the snapshot listener. -/
  listening : Bool
  inbox : Inbox SessionDocument

structure System where
  register : Register String SessionDocument Request
  client : String → Client

inductive Event
  /-- Something other than a snapshot calls into the screen of `c`. -/
  | act (c : String) (e : Recording.Event)
  | viewDidLoad (c : String)
  /-- The oldest outstanding write of `c` reaches the server. -/
  | arrive (c : String)
  /-- `shown` is the current Session if another tab was selected. -/
  | deliver (c : String) (shown : Option (Option Session)) (os : Start)
  /-- Another screen has written other fields of the document. -/
  | update (d : SessionDocument)

namespace System

def initial (session : Session) (d : SessionDocument) (clock : String → Nat) : System where
  register := .initial d
  client c := ⟨.initial (some session) (clock c), false, .empty⟩

/-- What the screen of a client has sent to the session's document since. -/
def written (sid : String) (s t : State) : List Request :=
  (t.sent.drop s.sent.length).filter fun q => q.session = sid

def perform (sid : String) (s : System) (c : String) (k : Client) (t : State) : System where
  register := s.register.issueAll c (written sid k.state t)
  client := Function.update s.client c { k with state := t }

def document (s : System) : SessionDocument := s.register.value

def recording (s : System) (c : String) : Bool := (s.client c).state.screen.recording

/-- A new listener is given the document as it stands. -/
def listen (s : System) (c : String) : System :=
  let k := s.client c
  { s with client := Function.update s.client c ⟨k.state, true, k.inbox.post s.document⟩ }

end System

def Client.notified (d : SessionDocument) (k : Client) : Client :=
  if k.listening then { k with inbox := k.inbox.post d } else k

def user (name : String → String) (c : String) : User := ⟨c, name c⟩

def isSnapshot : Recording.Event → Bool
  | .snapshot _ _ _ => true
  | _ => false

def step (name : String → String) (sid : String) (s : System) : Event → Option System
  | .act c e =>
      let k := s.client c
      if isSnapshot e then none
      else (Recording.step (user name c) k.state e).map (s.perform sid c k)
  | .viewDidLoad c => if (s.client c).listening then none else some (s.listen c)
  | .arrive c =>
      (s.register.arrive apply c).map fun r =>
        { register := r, client := fun u => (s.client u).notified r.value }
  | .deliver c shown os =>
      let k := s.client c
      k.inbox.deliver.bind fun (d, inbox) =>
        (Recording.step (user name c) k.state (.snapshot shown os d)).map
          (s.perform sid c { k with inbox })
  | .update d =>
      if d.hostStartRecording = s.document.hostStartRecording then
        some { register := { s.register with value := d }
               client := fun u => (s.client u).notified d }
      else none

def pressesRecord : Recording.Event → Bool
  | .recordAudio _ => true
  | _ => false

/-- Nobody's recorder is stopped from outside, each screen keeps to the session,
and a guest's recorder starts where the flag asks for it and nowhere else. -/
def Obedient (session : Session) (s : System) : Event → Prop
  | .act c e => Within session e ∧ (c ≠ session.hostUid → pressesRecord e = false)
  | .deliver c shown os => (∀ current ∈ shown, Hosted session current) ∧
      (c ≠ session.hostUid → ∀ d ∈ (s.client c).inbox.pending.head?,
        d.hostStartRecording → os.activationSuccess ∧ os.result)
  | _ => True

/-! ### What a screen sends -/

section Sent

variable {u : User} {session : Session} {s s' : State} {e : Recording.Event}

theorem session_flagRequest {cached : Option Session} (h : Hosted session cached) {u : Defaults}
    {status : Bool} {q : Request} (hq : q ∈ RecordingScreen.flagRequest u cached status) :
    q.session = session.uid := by
  obtain ⟨o, ho, huid, -⟩ := h
  obtain rfl := Option.mem_def.mp ho
  rw [RecordingScreen.flagRequest] at hq
  split at hq
  · obtain rfl : q = .hostStartRecording o.uid status := by simpa using hq
    exact huid
  · simp at hq

theorem session_recordAudio {cached : Option Session} (h : Hosted session cached) {u : Defaults}
    {os : Start} {x : RecordingScreen} {q : Request} (hq : q ∈ (x.recordAudio u cached os).2) :
    q.session = session.uid := by
  rw [RecordingScreen.recordAudio] at hq
  split at hq
  · rw [RecordingScreen.requests_endRecording, List.mem_ite_nil_right] at hq
    exact session_flagRequest h hq.2
  · rw [RecordingScreen.requests_startRecording, List.mem_ite_nil_right] at hq
    exact session_flagRequest h hq.2

theorem session_updateUsersStatus {cached : Option Session} (h : Hosted session cached)
    {u : Defaults} {on : Bool} {x : RecordingScreen} {q : Request}
    (hq : q ∈ (x.updateUsersStatus u cached on).requests) : q.session = session.uid := by
  obtain ⟨o, ho, huid, -⟩ := h
  obtain rfl := Option.mem_def.mp ho
  obtain rfl := List.mem_singleton.mp hq
  exact huid

theorem session_updateActivity {cached : Option Session} (h : Hosted session cached) {u : Defaults}
    {isActive : Bool} {x : RecordingScreen} {r : RecordingScreen.Reaction}
    (hr : x.updateActivity u cached isActive = some r) {q : Request} (hq : q ∈ r.requests) :
    q.session = session.uid := by
  obtain ⟨o, ho, huid, -⟩ := h
  obtain rfl := Option.mem_def.mp ho
  obtain ⟨o', ho', rfl⟩ := Option.map_eq_some_iff.mp hr
  obtain ⟨l, -, rfl⟩ := Option.map_eq_some_iff.mp ho'
  obtain rfl := List.mem_singleton.mp hq
  exact huid

/-- Everything a screen sends is for its session, and an event other than a press
of the button and a snapshot leaves the recorder and the flags alone. -/
structure Sends (session : Session) (s s' : State) (new : List Request) : Prop where
  sent : s'.sent = s.sent ++ new
  sessions : ∀ q ∈ new, q.session = session.uid

theorem sends_nil (h : s'.sent = s.sent) : Sends session s s' [] :=
  ⟨by rw [h, List.append_nil], fun q hq => absurd hq List.not_mem_nil⟩

theorem sends_react {r : RecordingScreen.Reaction}
    (h : ∀ q ∈ r.requests, q.session = session.uid) :
    Sends session s (s.react r) r.requests :=
  ⟨rfl, h⟩

theorem hosted_setSelectedIndex {cached : Option Session} {shown : Option (Option Session)}
    (h : Hosted session cached) (hshown : ∀ current ∈ shown, Hosted session current)
    (x : RecordingScreen) : Hosted session (x.setSelectedIndex shown cached).2 := by
  cases shown with
  | none => exact h
  | some current => exact hshown current rfl

theorem session_snapshotListener {cached : Option Session} {shown : Option (Option Session)}
    (h : Hosted session cached) (hshown : ∀ current ∈ shown, Hosted session current) {u : Defaults}
    {os : Start} {player : Nat} {d : SessionDocument} {x : RecordingScreen} {q : Request}
    (hq : q ∈ (x.snapshotListener u cached shown os player d).requests) :
    q.session = session.uid := by
  rw [RecordingScreen.requests_snapshotListener, RecordingScreen.requests_followHost,
    List.mem_ite_nil_right] at hq
  exact session_flagRequest (hosted_setSelectedIndex h hshown x) hq.2

/-- The screens that events bring up are of the session. -/
def Brings (session : Session) : Recording.Event → Prop
  | .snapshot shown _ _ => ∀ current ∈ shown, Hosted session current
  | _ => True

theorem exists_sends (hcached : Hosted session s.cached) (hbrings : Brings session e)
    (hstep : Recording.step u s e = some s') : ∃ new, Sends session s s' new := by
  cases e with
  | recordAudio os =>
      obtain rfl := Option.some.inj hstep
      exact ⟨_, rfl, fun q hq => session_recordAudio hcached hq⟩
  | snapshot shown os d =>
      obtain rfl := Option.some.inj hstep
      exact ⟨_, rfl, fun q hq => session_snapshotListener hcached hbrings hq⟩
  | save name | cancel =>
      simp only [Recording.step] at hstep
      split at hstep <;> simp only [Option.some.injEq, reduceCtorEq] at hstep
      subst s'
      exact ⟨[], sends_nil rfl⟩
  | updateUsersStatus on =>
      obtain rfl := Option.some.inj hstep
      exact ⟨_, sends_react fun q hq => session_updateUsersStatus hcached hq⟩
  | handleBackgroundStatus =>
      obtain ⟨r, hr, rfl⟩ := Option.map_eq_some_iff.mp hstep
      exact ⟨_, sends_react fun q hq => session_updateActivity hcached hr hq⟩
  | handleForegroundStatus =>
      obtain ⟨r, hr, rfl⟩ := Option.map_eq_some_iff.mp hstep
      obtain ⟨r', hr', rfl⟩ := Option.map_eq_some_iff.mp hr
      refine ⟨_, sends_react fun q hq => ?_⟩
      rcases List.mem_append.mp hq with hq | hq
      · exact session_updateActivity hcached hr' hq
      · exact session_updateUsersStatus (lists_updateActivity hcached hr').cached hq
  | viewWillAppear current | interrupted =>
      obtain rfl := Option.some.inj hstep
      exact ⟨[], sends_nil rfl⟩

/-- A guest's screen sends no flag. -/
theorem flags_requests_of_guest {new : List Request} (hsends : s'.sent = s.sent ++ new)
    (hflags : flags s'.sent = flags s.sent) : flags new = [] := by
  rw [hsends, flags_append] at hflags
  simpa using hflags

end Sent

/-! ### A guest's screen -/

section Guest

variable {u : User} {session : Session} {s s' : State} {e : Recording.Event}

theorem isHost_of_guest {cached : Option Session} (hguest : u.uid ≠ session.hostUid)
    (h : Hosted session cached) : (defaults u).isHost cached = false := by
  obtain ⟨o, ho, -, hhost⟩ := h
  rw [Option.mem_def.mp ho]
  simp [defaults, Defaults.isHost, hhost, hguest]

/-- What a handler that neither presses the button nor brings a snapshot leaves. -/
structure Idle (session : Session) (s s' : State) : Prop where
  recording : s'.screen.recording = s.screen.recording
  flags : flags s'.sent = flags s.sent
  cached : Hosted session s'.cached

theorem Idle.of_lists {r : RecordingScreen.Reaction} (h : Lists session s.screen r) :
    Idle session s (s.react r) where
  recording := h.recording
  flags := by rw [State.react, flags_append, h.flags, List.append_nil]
  cached := h.cached

theorem idle_step (hcached : Hosted session s.cached) (hwithin : Within session e)
    (hpress : pressesRecord e = false) (hsnapshot : isSnapshot e = false)
    (hstep : Recording.step u s e = some s') : Idle session s s' := by
  cases e with
  | recordAudio os => simp [pressesRecord] at hpress
  | snapshot shown os d => simp [isSnapshot] at hsnapshot
  | save name | cancel =>
      simp only [Recording.step] at hstep
      split at hstep <;> simp only [Option.some.injEq, reduceCtorEq] at hstep
      subst s'
      exact ⟨rfl, rfl, hcached⟩
  | updateUsersStatus on =>
      obtain rfl := Option.some.inj hstep
      exact .of_lists (lists_updateUsersStatus hcached _ on s.screen)
  | handleBackgroundStatus =>
      obtain ⟨r, hr, rfl⟩ := Option.map_eq_some_iff.mp hstep
      exact .of_lists (lists_updateActivity hcached hr)
  | handleForegroundStatus =>
      obtain ⟨r, hr, rfl⟩ := Option.map_eq_some_iff.mp hstep
      obtain ⟨r', hr', rfl⟩ := Option.map_eq_some_iff.mp hr
      have hactivity := lists_updateActivity hcached hr'
      have hstatus := lists_updateUsersStatus hactivity.cached (defaults u) s.screen.statusSwitch
        r'.screen
      refine .of_lists ⟨hstatus.recording.trans hactivity.recording, hstatus.cached, ?_⟩
      rw [flags_append, hactivity.flags, hstatus.flags]
      rfl
  | viewWillAppear current =>
      obtain rfl := Option.some.inj hstep
      refine ⟨?_, rfl, hwithin⟩
      show (s.screen.viewWillAppear current).recording = s.screen.recording
      rw [RecordingScreen.viewWillAppear]
      split <;> rfl
  | interrupted => exact absurd hwithin id

theorem hosted_snapshotListener_of_guest {cached : Option Session}
    {shown : Option (Option Session)} (h : Hosted session cached)
    (hshown : ∀ current ∈ shown, Hosted session current) (u : Defaults) (os : Start) (player : Nat)
    (d : SessionDocument) (x : RecordingScreen) :
    Hosted session (x.snapshotListener u cached shown os player d).cached := by
  have hfollow : Hosted session (x.followHost u cached shown os d).2.1 := by
    rw [RecordingScreen.followHost]
    split
    · exact h
    · split
      · exact hosted_setSelectedIndex h hshown x
      · exact h
  obtain ⟨s, hs, huid, hhost⟩ := hfollow
  rw [RecordingScreen.snapshotListener]
  dsimp only
  rw [Option.mem_def.mp hs]
  split
  · exact ⟨_, rfl, huid, hhost⟩
  · exact ⟨_, rfl, huid, hhost⟩

/-- A guest whose recorder can start does what the flag of the snapshot says. -/
theorem follows_snapshot (hguest : u.uid ≠ session.hostUid) (hcached : Hosted session s.cached)
    {shown : Option (Option Session)} {os : Start} {d : SessionDocument}
    (hshown : ∀ current ∈ shown, Hosted session current)
    (hos : d.hostStartRecording → os.activationSuccess ∧ os.result)
    (hstep : Recording.step u s (.snapshot shown os d) = some s') :
    s'.screen.recording = d.hostStartRecording ∧ flags s'.sent = flags s.sent ∧
      Hosted session s'.cached := by
  have hisGuest := isHost_of_guest hguest hcached
  obtain rfl := Option.some.inj hstep
  refine ⟨?_, ?_, hosted_snapshotListener_of_guest hcached hshown _ os s.nextPlayer d s.screen⟩
  · show (s.screen.snapshotListener (defaults u) s.cached shown os s.nextPlayer d).screen.recording
      = _
    rw [RecordingScreen.recording, inProgress_snapshotListener, inProgress_followHost,
      if_neg (by simp [hisGuest])]
    cases hflag : d.hostStartRecording with
    | true =>
        obtain ⟨hact, hres⟩ := hos hflag
        rw [if_pos rfl, RecordingScreen.inProgress_startRecording, if_pos hact, if_pos hres]
        rfl
    | false => rfl
  · show flags (s.sent ++ _) = flags s.sent
    have hselected : (defaults u).isHost (s.screen.setSelectedIndex shown s.cached).2 = false :=
      isHost_of_guest hguest (hosted_setSelectedIndex hcached hshown s.screen)
    rw [RecordingScreen.requests_snapshotListener, RecordingScreen.requests_followHost,
      RecordingScreen.flagRequest_of_guest hselected, ite_self, List.append_nil]

end Guest

/-! ### Every run -/

/-- The last flag on its way to the document, or the document's own one, says what
the host's recorder does. Guests send no flags, a listener's newest snapshot is the
document, and a guest has done what the flag of the snapshot delivered last says. -/
structure Inv (session : Session) (s : System) : Prop where
  hosted : ∀ c, Hosted session (s.client c).state.cached
  host : (flags (s.register.outbox session.hostUid)).getLast?.getD
    s.document.hostStartRecording = s.recording session.hostUid
  guests : ∀ c ≠ session.hostUid, flags (s.register.outbox c) = []
  told : ∀ c, (s.client c).listening → (s.client c).inbox.newest = some s.document
  follows : ∀ c ≠ session.hostUid, ∀ d ∈ (s.client c).inbox.shown,
    s.recording c = d.hostStartRecording

theorem inv_initial {session : Session} {d : SessionDocument} (hd : d.hostStartRecording = false)
    (clock : String → Nat) : Inv session (.initial session d clock) where
  hosted c := ⟨session, rfl, rfl, rfl⟩
  host := hd
  guests c _ := rfl
  told c hlisten := by simp [System.initial] at hlisten
  follows c _ d hd := absurd hd (Option.not_mem_none d)

section Steps

variable {name : String → String} {session : Session} {s s' : System} {c : String}

theorem written_eq {t t' : State} {new : List Request} (h : Sends session t t' new) :
    System.written session.uid t t' = new := by
  rw [System.written, h.sent, List.drop_left, List.filter_eq_self]
  exact fun q hq => decide_eq_true (h.sessions q hq)

/-- What happens on the screen of one client, with its inbox possibly read. -/
theorem Inv.perform (h : Inv session s) {k : Client} {t : State} {new : List Request}
    (hlisten : k.listening = (s.client c).listening)
    (hnewest : k.inbox.newest = (s.client c).inbox.newest)
    (hstate : k.state = (s.client c).state) (hsends : Sends session k.state t new)
    (hcached : Hosted session t.cached)
    (hhost : c = session.hostUid → HostFlag.Turn k.state t)
    (hguest : c ≠ session.hostUid → flags t.sent = flags k.state.sent ∧
      ∀ d ∈ k.inbox.shown, t.screen.recording = d.hostStartRecording) :
    Inv session (s.perform session.uid c k t) := by
  have hwritten := written_eq hsends
  have hrecording : ∀ u, (s.perform session.uid c k t).recording u =
      if u = c then t.screen.recording else s.recording u := by
    intro u
    rw [System.recording, System.perform]
    by_cases hu : u = c <;> simp [hu, System.recording]
  constructor
  case hosted =>
    intro u
    by_cases hu : u = c
    · subst u
      simpa [System.perform] using hcached
    · simpa [System.perform, hu] using h.hosted u
  case host =>
    rw [hrecording]
    by_cases hc : session.hostUid = c
    · rw [if_pos hc]
      have hold := h.host
      rw [hc] at hold ⊢
      have hout : (s.perform session.uid c k t).register.outbox c =
          s.register.outbox c ++ new := by
        rw [System.perform, Register.issueAll_outbox_self, hwritten]
      have hsent := congrArg flags hsends.sent
      rw [flags_append] at hsent
      rw [hout, flags_append]
      rcases hhost hc.symm with ⟨hrec, hflags⟩ | ⟨hrec, hflags⟩
      · rw [hflags] at hsent
        have hnone : flags new = [] := by simpa using hsent
        rw [hnone, List.append_nil, hrec, hstate]
        exact hold
      · rw [hflags, List.append_cancel_left_eq] at hsent
        rw [← hsent, hrec, List.getLast?_concat]
        rfl
    · rw [if_neg hc, System.perform, Register.issueAll_outbox_of_ne _ hc]
      exact h.host
  case guests =>
    intro u hu
    by_cases huc : u = c
    · subst u
      have hnone := flags_requests_of_guest hsends.sent (hguest hu).1
      rw [System.perform, Register.issueAll_outbox_self, hwritten, flags_append, hnone,
        h.guests c hu]
      rfl
    · rw [System.perform, Register.issueAll_outbox_of_ne _ huc]
      exact h.guests u hu
  case told =>
    intro u hu
    by_cases huc : u = c
    · subst u
      simp only [System.perform, Function.update_self] at hu ⊢
      rw [hnewest]
      exact h.told c (hlisten ▸ hu)
    · simp only [System.perform, Function.update_of_ne huc] at hu ⊢
      exact h.told u hu
  case follows =>
    intro u hu d hd
    rw [hrecording]
    by_cases huc : u = c
    · subst u
      rw [if_pos rfl]
      exact (hguest hu).2 d (by simpa [System.perform] using hd)
    · rw [if_neg huc]
      exact h.follows u hu d (by simpa [System.perform, huc] using hd)

theorem Inv.listen (h : Inv session s) : Inv session (s.listen c) := by
  have hstate : ∀ u, ((s.listen c).client u).state = (s.client u).state := by
    intro u
    by_cases hu : u = c <;> simp [System.listen, hu]
  have hrecording : ∀ u, (s.listen c).recording u = s.recording u := by
    intro u
    rw [System.recording, hstate]
    rfl
  constructor
  case hosted =>
    intro u
    rw [hstate]
    exact h.hosted u
  case host =>
    rw [hrecording]
    exact h.host
  case guests => exact h.guests
  case told =>
    intro u hu
    by_cases huc : u = c
    · simp [System.listen, huc, System.document]
    · simp only [System.listen, Function.update_of_ne huc] at hu ⊢
      exact h.told u hu
  case follows =>
    intro u hu d hd
    rw [hrecording]
    refine h.follows u hu d ?_
    by_cases huc : u = c
    · subst u
      simpa [System.listen, Inbox.post] using hd
    · simpa [System.listen, huc] using hd

/-- The document was changed in a way the host's flag is accounted for. -/
theorem Inv.notified (h : Inv session s) {d : SessionDocument} {outbox : String → List Request}
    (hhost : (flags (outbox session.hostUid)).getLast?.getD d.hostStartRecording =
      s.recording session.hostUid)
    (hguests : ∀ u ≠ session.hostUid, flags (outbox u) = []) :
    Inv session ⟨⟨d, outbox⟩, fun u => (s.client u).notified d⟩ := by
  have hstate : ∀ u, ((s.client u).notified d).state = (s.client u).state := by
    intro u
    rw [Client.notified]
    split <;> rfl
  constructor
  case hosted =>
    intro u
    rw [hstate]
    exact h.hosted u
  case host =>
    show _ = ((s.client session.hostUid).notified d).state.screen.recording
    rw [hstate]
    exact hhost
  case guests => exact hguests
  case told =>
    intro u hu
    simp only [Client.notified] at hu ⊢
    split at hu
    · rename_i hlisten
      rw [if_pos hlisten]
      exact Inbox.newest_post
    · contradiction
  case follows =>
    intro u hu e he
    show ((s.client u).notified d).state.screen.recording = e.hostStartRecording
    rw [hstate]
    refine h.follows u hu e ?_
    simp only [Client.notified] at he
    split at he <;> exact he

theorem flags_cons (q : Request) (ws : List Request) :
    flags (q :: ws) = (flag? q).toList ++ flags ws := by
  cases q <;> rfl

/-- The flag of the document once a write has been applied. -/
theorem hostStartRecording_apply (q : Request) (d : SessionDocument) :
    (apply q d).hostStartRecording = (flag? q).getD d.hostStartRecording := by
  cases q <;> rfl

theorem getLast?_cons_flags (q : Request) (ws : List Request) (b : Bool) :
    (flags (q :: ws)).getLast?.getD b = (flags ws).getLast?.getD ((flag? q).getD b) := by
  rw [flags_cons]
  cases flag? q with
  | none => rfl
  | some a =>
      rw [Option.toList_some, List.singleton_append, List.getLast?_cons]
      cases (flags ws).getLast? <;> rfl

theorem Inv.act (h : Inv session s) {e : Recording.Event}
    (hobedient : Obedient session s (.act c e))
    (hstep : step name session.uid s (.act c e) = some s') : Inv session s' := by
  obtain ⟨hwithin, hpress⟩ := hobedient
  simp only [step] at hstep
  split at hstep
  · simp at hstep
  · rename_i hsnapshot
    rw [Bool.not_eq_true] at hsnapshot
    obtain ⟨t, ht, rfl⟩ := Option.map_eq_some_iff.mp hstep
    have hbrings : Brings session e := by
      cases e with
      | snapshot shown os d => simp [isSnapshot] at hsnapshot
      | _ => trivial
    obtain ⟨new, hsends⟩ := exists_sends (h.hosted c) hbrings ht
    by_cases hc : c = session.hostUid
    · have hturn := HostFlag.step_turn (u := user name c) hc (h.hosted c) hwithin ht
      exact h.perform rfl rfl rfl hsends hturn.2 (fun _ => hturn.1) fun hne => absurd hc hne
    · have hidle := idle_step (h.hosted c) hwithin (hpress hc) hsnapshot ht
      refine h.perform rfl rfl rfl hsends hidle.cached (fun heq => absurd heq hc) fun _ =>
        ⟨hidle.flags, fun d hd => ?_⟩
      rw [hidle.recording]
      exact h.follows c hc d hd

/-- A write of the host brings its flag to the document, and one of a guest none. -/
theorem Inv.arrive (h : Inv session s)
    (hstep : step name session.uid s (.arrive c) = some s') : Inv session s' := by
  obtain ⟨r, hr, rfl⟩ := Option.map_eq_some_iff.mp hstep
  obtain ⟨w, ws, hout, rfl⟩ := Register.arrive_eq_some.mp hr
  refine h.notified ?_ fun u hu => ?_
  · rw [hostStartRecording_apply]
    by_cases hc : c = session.hostUid
    · have hhost := h.host
      rw [← hc] at hhost ⊢
      rw [hout, getLast?_cons_flags] at hhost
      rw [Function.update_self]
      exact hhost
    · have hnone : flag? w = none := by
        have hguest := h.guests c hc
        rw [hout, flags_cons] at hguest
        simpa using (List.append_eq_nil_iff.mp hguest).1
      rw [Function.update_of_ne (Ne.symm hc), hnone]
      exact h.host
  · by_cases huc : u = c
    · subst u
      have hguest := h.guests c hu
      rw [hout, flags_cons] at hguest
      rw [Function.update_self]
      exact (List.append_eq_nil_iff.mp hguest).2
    · rw [Function.update_of_ne huc]
      exact h.guests u hu

theorem Inv.deliver (h : Inv session s) {shown : Option (Option Session)} {os : Start}
    (hobedient : Obedient session s (.deliver c shown os))
    (hstep : step name session.uid s (.deliver c shown os) = some s') : Inv session s' := by
  obtain ⟨hshown, hstarts⟩ := hobedient
  obtain ⟨⟨d, inbox⟩, hdeliver, hmap⟩ := Option.bind_eq_some_iff.mp hstep
  obtain ⟨t, ht, rfl⟩ := Option.map_eq_some_iff.mp hmap
  obtain ⟨new, hsends⟩ := exists_sends (e := .snapshot shown os d) (h.hosted c) hshown ht
  have hnewest := Inbox.newest_deliver hdeliver
  obtain ⟨rest, hpending, rfl⟩ := Inbox.deliver_eq_some.mp hdeliver
  by_cases hc : c = session.hostUid
  · have hturn := HostFlag.step_turn (u := user name c) (e := .snapshot shown os d) hc (h.hosted c)
      trivial ht
    exact h.perform rfl hnewest rfl hsends hturn.2 (fun _ => hturn.1) fun hne => absurd hc hne
  · have hos := hstarts hc d (by rw [hpending]; rfl)
    obtain ⟨hrecording, hflags, hcached⟩ :=
      follows_snapshot (u := user name c) hc (h.hosted c) hshown hos ht
    refine h.perform rfl hnewest rfl hsends hcached (fun heq => absurd heq hc) fun _ =>
      ⟨hflags, fun d' hd' => ?_⟩
    obtain rfl : d = d' := Option.some.inj hd'
    exact hrecording

theorem inv_step (h : Inv session s) {e : Event} (hobedient : Obedient session s e)
    (hstep : step name session.uid s e = some s') : Inv session s' := by
  cases e with
  | act c e => exact h.act hobedient hstep
  | viewDidLoad c =>
      simp only [step] at hstep
      split at hstep
      · simp at hstep
      · obtain rfl := Option.some.inj hstep
        exact h.listen
  | arrive c => exact h.arrive hstep
  | deliver c shown os => exact h.deliver hobedient hstep
  | update d =>
      simp only [step] at hstep
      split at hstep
      · rename_i hsame
        obtain rfl := Option.some.inj hstep
        refine h.notified ?_ h.guests
        rw [hsame]
        exact h.host
      · simp at hstep

end Steps

/-- Whenever nothing of the host's is on its way to the document, and no snapshot to
a guest who listens to the session, that guest records exactly if the host does. -/
theorem recording_together {name : String → String} {session : Session} {d : SessionDocument}
    {clock : String → Nat} {es : List Event} {s : System} {c : String}
    (hd : d.hostStartRecording = false)
    (hes : Meets (step name session.uid) (Obedient session) (.initial session d clock) es)
    (hrun : run (step name session.uid) (.initial session d clock) es = some s)
    (hsettled : s.register.outbox session.hostUid = [])
    (hdelivered : (s.client c).inbox.pending = []) (hlisten : (s.client c).listening) :
    s.recording c = s.recording session.hostUid := by
  have hkeep : ∀ m e m', Inv session m → Obedient session m e →
      step name session.uid m e = some m' → Inv session m' :=
    fun m e m' hm hobedient hstep => inv_step hm hobedient hstep
  have h : Inv session s := EveryStep.invariant hkeep hes hrun (inv_initial hd clock)
  by_cases hc : c = session.hostUid
  · rw [hc]
  · have hshown : (s.client c).inbox.shown = some s.document := by
      rw [← Inbox.newest_of_pending_nil hdelivered]
      exact h.told c hlisten
    have hhost := h.host
    rw [hsettled] at hhost
    rw [h.follows c hc s.document hshown, ← hhost]
    rfl

/-- The host starts a take while a guest listens. -/
def oneTake : List Event :=
  [.viewDidLoad "g", .deliver "g" none ⟨true, true⟩, .act "h" (.recordAudio ⟨true, true⟩),
    .arrive "h", .deliver "g" (some (some song)) ⟨true, true⟩]

theorem recording_together_one_take :
    ∃ s, run (step id song.uid) (.initial song song.docData fun _ => 0) oneTake = some s ∧
      s.recording "g" = s.recording song.hostUid ∧ s.recording song.hostUid = true := by
  have hrun : run (step id song.uid) (.initial song song.docData fun _ => 0) oneTake = some _ := rfl
  have hes : Meets (step id song.uid) (Obedient song) (.initial song song.docData fun _ => 0)
      oneTake := by
    have hhere : ∀ current ∈ (none : Option (Option Session)), Hosted song current := by simp
    have hbrought : ∀ current ∈ some (some song), Hosted song current := by
      rintro _ ⟨⟩
      exact ⟨song, rfl, rfl, rfl⟩
    refine (everyStep_cons rfl).mpr ⟨trivial,
      (everyStep_cons rfl).mpr ⟨⟨hhere, fun _ _ _ _ => ⟨rfl, rfl⟩⟩,
        (everyStep_cons rfl).mpr ⟨⟨trivial, fun hne => absurd rfl hne⟩,
          (everyStep_cons rfl).mpr ⟨trivial,
            (everyStep_cons rfl).mpr ⟨⟨hbrought, fun _ _ _ _ => ⟨rfl, rfl⟩⟩, trivial⟩⟩⟩⟩⟩
  exact ⟨_, hrun, recording_together rfl hes hrun rfl rfl rfl, rfl⟩

end Tootti.Together
