import Tootti.Machine.Run
import Tootti.Model.Phone
import Tootti.Model.RecordingScreen

/-!
The running app with every Recording screen it has loaded.

A join pushes another tab bar, and nothing takes a screen that was pushed
earlier off the navigation stack. So every Recording screen keeps its cached
Session, its snapshot listener and its two notification observers for as long
as the app runs. The other screens are here only for what they leave to the
Recording screens: the Session objects, and which of them is current.
-/

namespace Tootti

open Machine

structure Mounted where
  screen : RecordingScreen
  cached : Option Nat
  /-- The session whose snapshots `viewDidLoad` asked for. -/
  listensTo : Option String
  deriving DecidableEq, Repr

inductive Deed
  | sends (request : Request)
  /-- A recording starts because of a snapshot of the session. -/
  | starts (session : String)
  | raises
  deriving DecidableEq, Repr

/-- A single write has one list, of one session. -/
theorem Deed.eq_of_sends_mem {sid sid' : String} {l l' : Roster}
    (h : sends (.currentPlayerList sid l) ∈ [sends (.currentPlayerList sid' l')]) :
    sid = sid' ∧ l = l' :=
  Request.currentPlayerList.inj (sends.inj (List.mem_singleton.mp h))

structure Process where
  defaults : Defaults
  sessions : Heap
  currentSession : Option Nat
  /-- In the order in which they loaded, and so registered as observers. -/
  screens : List Mounted
  nextPlayer : Nat
  /-- The session joined last, unless the user has logged out since. -/
  inSession : Option String
  /-- The sessions left and not joined since. -/
  left : List String
  crashed : Bool
  deriving DecidableEq, Repr

namespace Process

inductive Event
  | login (u : User)
  /-- `home` is the Session the Home screen has cached. -/
  | logOutTapped (home : Option Nat)
  /-- A join of a session with another name than the current one's begins. -/
  | leaveCurrent
  /-- A join finds its session; `entered` unless it fails after that. -/
  | joined (sid : String) (d : SessionDocument) (entered : Bool)
  /-- A Recording screen loads; the ClickTrack screen may have passed it a
  click track before. -/
  | viewDidLoad (clickTrack : Option Audio)
  | viewWillAppear (k : Nat)
  | recordAudio (k : Nat) (os : Start)
  | updateUsersStatus (k : Nat) (on : Bool)
  | dismissAlert (k : Nat)
  | interrupted (k : Nat)
  /-- `appears` if another tab was selected, should the listener select this one. -/
  | snapshot (k : Nat) (appears : Bool) (os : Start) (d : SessionDocument)
  | sceneWillDeactivate
  | sceneDidActivate
  /-- The ClickTrack screen passes its click track on. -/
  | passClickTrack (k : Nat) (clickTrack : Option Audio)
  /-- A ClickTrack or a Merge screen changes its Session and makes it the
  current one. -/
  | setCurrentSession (r : Option Nat) (clickTrack : Option Audio)
      (guestPlayerList : List GuestTrack)
  /-- The Merge screen makes a Session of the document it fetched. -/
  | refreshed (uid : String) (d : SessionDocument)

def initial : Process := ⟨⟨none, none⟩, [], none, [], 0, none, [], false⟩

def session? (p : Process) (r : Option Nat) : Option Session := p.sessions.object? r

def modifyScreen (k : Nat) (f : RecordingScreen → RecordingScreen) (p : Process) : Process :=
  { p with screens := p.screens.modify k fun m => { m with screen := f m.screen } }

def answer (k : Nat) (m : Mounted) (r : RecordingScreen.Reaction) (p : Process) : Process :=
  { p with
    sessions := p.sessions.modifyObject m.cached fun s => r.cached.getD s
    currentSession := if r.setsCurrent then m.cached else p.currentSession
    screens := p.screens.set k { m with screen := r.screen } }

/-- A handler of scene notifications; `none` when it raises. -/
abbrev Handler := Defaults → Option Session → RecordingScreen → Option RecordingScreen.Reaction

/-- A notification goes to one screen after the other. An exception ends the
app. -/
def notify (handle : Handler) : List Nat → Process → Process × List Deed
  | [], p => (p, [])
  | k :: ks, p =>
      match p.screens[k]? with
      | none => notify handle ks p
      | some m =>
          match handle p.defaults (p.session? m.cached) m.screen with
          | none => ({ p with crashed := true }, [.raises])
          | some r =>
              let (p, deeds) := notify handle ks (p.answer k m r)
              (p, r.requests.map .sends ++ deeds)

def post (handle : Handler) (p : Process) : Process × List Deed :=
  p.notify handle (List.range p.screens.length)

/-- `updateCurrentPlayerListWithActivity:NO` on a Session. -/
def leave (r : Option Nat) (p : Process) : Process × List Deed :=
  match p.session? r with
  | none => (p, [])
  | some s =>
      let l := s.currentPlayerList.removePlayer p.defaults.uid
      ({ p with
          sessions := p.sessions.modifyObject r fun s => { s with currentPlayerList := l } },
        [.sends (.currentPlayerList s.uid l)])

def enter (sid : String) (p : Process) : Process :=
  { p with
    inSession := some sid
    left := (p.left ++ p.inSession.toList).filter (· ≠ sid) }

/-- The query callback of a join, for a user who is signed in. -/
def join (sid : String) (d : SessionDocument) (user : User) (p : Process) :
    Process × List Deed :=
  let cpl := Roster.join user.username user.uid d.currentPlayerList
  ({ p with
      sessions := p.sessions ++ [d.joined sid user p.nextPlayer cpl]
      currentSession := some p.sessions.length
      nextPlayer := p.nextPlayer + 2 },
    if d.currentPlayerList.contains user.uid then [] else [.sends (.currentPlayerList sid cpl)])

def viewDidLoad (clickTrack : Option Audio) (p : Process) : Process :=
  { p with
    screens := p.screens ++
      [⟨{ RecordingScreen.initial 0 with clickTrack }, p.currentSession,
        (p.session? p.currentSession).map Session.uid⟩] }

/-- `logOutTapped:`, where the Home screen and then `close` leave a Session. -/
def logOutTapped (home : Option Nat) (p : Process) : Process × List Deed :=
  let (p, first) := p.leave home
  let (p, second) := p.leave p.currentSession
  ({ p with
      defaults := ⟨none, none⟩
      currentSession := none
      inSession := none
      left := p.left ++ p.inSession.toList }, first ++ second)

/-- The Session a screen's listener works on: the current one where it brings the
screen up. -/
def followed (m : Mounted) (appears : Bool) (d : SessionDocument) (p : Process) : Option Nat :=
  if !p.defaults.isHost (p.session? m.cached) && d.hostStartRecording && appears then
    p.currentSession
  else m.cached

/-- The answer of a screen to a snapshot. -/
def heard (m : Mounted) (appears : Bool) (os : Start) (d : SessionDocument) (p : Process) :
    RecordingScreen.Reaction :=
  let shown := if appears then some (p.session? p.currentSession) else none
  m.screen.snapshotListener p.defaults (p.session? m.cached) shown os p.nextPlayer d

/-- The next process and the deeds; `none` when the event cannot happen. -/
def react (p : Process) : Event → Option (Process × List Deed)
  | .login u => some ({ p with defaults := ⟨some u.uid, some u.username⟩ }, [])
  | .logOutTapped home => some (p.logOutTapped home)
  | .leaveCurrent => some (p.leave p.currentSession)
  | .joined sid d entered => do
      let user : User := ⟨← p.defaults.uid, ← p.defaults.username⟩
      let (p, deeds) := p.join sid d user
      some (if entered then p.enter sid else p, deeds)
  | .viewDidLoad clickTrack => some (p.viewDidLoad clickTrack, [])
  | .viewWillAppear k =>
      let appear (m : Mounted) : Mounted :=
        { m with
          screen := m.screen.viewWillAppear (p.session? p.currentSession)
          cached := p.currentSession }
      some ({ p with screens := p.screens.modify k appear }, [])
  | .recordAudio k os => do
      let m ← p.screens[k]?
      let (screen, requests) := m.screen.recordAudio p.defaults (p.session? m.cached) os
      some ({ p with screens := p.screens.set k { m with screen } }, requests.map .sends)
  | .updateUsersStatus k on => do
      let m ← p.screens[k]?
      let r := m.screen.updateUsersStatus p.defaults (p.session? m.cached) on
      some (p.answer k m r, r.requests.map .sends)
  | .dismissAlert k => some (p.modifyScreen k RecordingScreen.dismissAlert, [])
  | .interrupted k =>
      let stop (x : RecordingScreen) : RecordingScreen :=
        { x with audioRecorder := x.audioRecorder.map Recorder.stop }
      some (p.modifyScreen k stop, [])
  | .snapshot k appears os d => do
      let m ← p.screens[k]?
      let sid ← m.listensTo
      let r := p.heard m appears os d
      let started := if m.screen.started r.screen then [Deed.starts sid] else []
      let m := { m with cached := p.followed m appears d }
      some ({ p.answer k m r with nextPlayer := p.nextPlayer + 1 },
        r.requests.map .sends ++ started)
  | .sceneWillDeactivate => some (p.post fun u s x => x.handleBackgroundStatus u s)
  | .sceneDidActivate => some (p.post fun u s x => x.handleForegroundStatus u s)
  | .passClickTrack k clickTrack => some (p.modifyScreen k fun x => { x with clickTrack }, [])
  | .setCurrentSession r clickTrack guestPlayerList =>
      let change (s : Session) : Session := { s with clickTrack, guestPlayerList }
      some ({ p with sessions := p.sessions.modifyObject r change, currentSession := r }, [])
  | .refreshed uid d =>
      some ({ p with
        sessions := p.sessions ++ [Phone.refreshedSession uid d]
        currentSession := some p.sessions.length }, [])

def step (p : Process) (e : Event) : Option Process :=
  if p.crashed then none else (p.react e).map Prod.fst

def deeds (p : Process) (e : Event) : List Deed := ((p.react e).map Prod.snd).getD []

/-! ### What it takes for an event to happen -/

section React

variable {p p' : Process} {ds : List Deed} {k : Nat}

theorem react_joined {sid : String} {d : SessionDocument} {entered : Bool}
    (h : p.react (.joined sid d entered) = some (p', ds)) :
    ∃ user : User, p.defaults = ⟨some user.uid, some user.username⟩ ∧
      p' = (if entered then (p.join sid d user).1.enter sid else (p.join sid d user).1) ∧
      ds = (p.join sid d user).2 := by
  simp only [react, Option.bind_eq_bind, Option.bind_eq_some_iff, Option.some.injEq,
    Prod.mk.injEq] at h
  obtain ⟨uid, huid, username, husername, rfl, rfl⟩ := h
  refine ⟨⟨uid, username⟩, ?_, rfl, rfl⟩
  rw [← huid, ← husername]

theorem react_recordAudio {os : Start} (h : p.react (.recordAudio k os) = some (p', ds)) :
    ∃ m, p.screens[k]? = some m ∧
      let r := m.screen.recordAudio p.defaults (p.session? m.cached) os
      p' = { p with screens := p.screens.set k { m with screen := r.1 } } ∧
        ds = r.2.map .sends := by
  simp only [react, Option.bind_eq_bind, Option.bind_eq_some_iff, Option.some.injEq,
    Prod.mk.injEq] at h
  obtain ⟨m, hm, rfl, rfl⟩ := h
  exact ⟨m, hm, rfl, rfl⟩

theorem react_updateUsersStatus {on : Bool}
    (h : p.react (.updateUsersStatus k on) = some (p', ds)) :
    ∃ m, p.screens[k]? = some m ∧
      let r := m.screen.updateUsersStatus p.defaults (p.session? m.cached) on
      p' = p.answer k m r ∧ ds = r.requests.map .sends := by
  simp only [react, Option.bind_eq_bind, Option.bind_eq_some_iff, Option.some.injEq,
    Prod.mk.injEq] at h
  obtain ⟨m, hm, rfl, rfl⟩ := h
  exact ⟨m, hm, rfl, rfl⟩

theorem react_snapshot {appears : Bool} {os : Start} {d : SessionDocument}
    (h : p.react (.snapshot k appears os d) = some (p', ds)) :
    ∃ m sid, p.screens[k]? = some m ∧ m.listensTo = some sid ∧
      let r := p.heard m appears os d
      let m' := { m with cached := p.followed m appears d }
      p' = { p.answer k m' r with nextPlayer := p.nextPlayer + 1 } ∧
        ds = r.requests.map .sends ++
          (if m.screen.started r.screen then [Deed.starts sid] else []) := by
  simp only [react, Option.bind_eq_bind, Option.bind_eq_some_iff, Option.some.injEq,
    Prod.mk.injEq] at h
  obtain ⟨m, hm, sid, hsid, rfl, rfl⟩ := h
  exact ⟨m, sid, hm, hsid, rfl, rfl⟩

/-- What the screen has taken when the tab was brought up is what the process says. -/
theorem cached_followHost (m : Mounted) (appears : Bool) (os : Start) (d : SessionDocument)
    (p : Process) :
    (m.screen.followHost p.defaults (p.session? m.cached)
      (if appears then some (p.session? p.currentSession) else none) os d).2.1 =
        p.session? (p.followed m appears d) := by
  rw [RecordingScreen.followHost, followed]
  cases p.defaults.isHost (p.session? m.cached) with
  | true => rfl
  | false => cases d.hostStartRecording <;> cases appears <;> rfl

end React

end Process

end Tootti
