import Tootti.Machine.Requests
import Tootti.Membership.Joinable
import Tootti.Membership.JoinedSessions
import Tootti.Sync.Tracks

/-!
The app on all phones, one call to the server at a time.

Each operation of the screens is a chain of calls. What it has read when it
sends a call, and what it goes on with when the answer comes, stands in the
request; everything else it reads when it runs, from the user defaults and the
Session objects as they are then. Between two calls of a chain anything can
happen: the user goes back and taps another button, logs out, or lets somebody
else log in on the same phone.

Queries are answered from what the server holds. A call fails or succeeds, and
one that adds a document gets its identifier.
-/

namespace Tootti.Traffic

open Machine

structure Client where
  /-- `uid` and `username` of the user defaults. -/
  user : Option User
  joinedSessions : JoinedSessions.Stored
  /-- Its user is the one who logged in last. -/
  phone : Phone
  deriving DecidableEq, Repr

inductive Request
  | createAccount (username : String)
  | login (uid : String)
  /-- The two queries of `joinSession:`. -/
  | host (user : User) (sessionName hostName : String)
  | session (user : User) (sessionName hostUid : String)
  /-- The query of `joinPastSession:`. -/
  | pastSession (user : User) (sid : String)
  /-- The roster write of a join. -/
  | enter (user : User) (sid : String) (l : Roster)
  /-- `updateData:` of the field `joinedSessions`. -/
  | joined (uid : String) (w : JoinedSessions.Write)
  /-- The query of `createNewSession:`. -/
  | duplicates (user : User) (sessionName : String)
  | addSession (user : User) (sessionName : String)
  /-- The listener of screen `k`. -/
  | listen (k : Nat) (sid : String)
  | refresh (k : Nat) (sid : String)
  /-- A file is stored or deleted, before the document is updated. -/
  | file (sid : String) (w : TrackSync.Write)
  | update (sid : String) (w : TrackSync.Write)

inductive Answer
  | failed
  | done
  | added (id : String)
  | user (u : Option UserDocument)
  | host (uid : Option String)
  | session (found : Option (String × SessionDocument))
  | document (d : Option SessionDocument)
  | duplicates (some : Bool)

inductive Action
  | createAccount (username : String)
  | login (uid : String)
  /-- `home` is the Session the Home screen has cached. -/
  | logOutTapped (home : Option Nat)
  | createNewSession (sessionName : String)
  | joinSession (sessionCode hostName : String)
  | joinPastSession (sid sessionName : String)
  | viewDidLoad (tab : Tab)
  | viewWillAppear (k : Nat)
  | updateUsersStatus (k : Nat) (status : Bool)
  | handleBackgroundStatus (k : Nat)
  /-- `status` is the position of the switch. -/
  | handleForegroundStatus (k : Nat) (status : Bool)
  /-- `library` is the Session the Library has cached. -/
  | confirmTracks (k : Nat) (library : Option Nat) (selectedRecordings : List Audio)
  | commitEditing (k i : Nat)
  | refresh (k : Nat)
  /-- The record button's, or the listener's once it has brought the screen up
  (`viewWillAppear`) with a session of the user's own. -/
  | sessionRecordingStatusUpdate (k : Nat) (status : Bool)
  /-- `uploadTypedAudioSound:` of a click track or of a merge. -/
  | uploadClickTrack (k : Nat) (url : AudioURL)
  | uploadMerge (k : Nat) (url : AudioURL)

/-! ### The server -/

/-- `updateData:` fails without a document. -/
def updateSession (db : Database) (sid : String) (f : SessionDocument → SessionDocument) :
    Database × Answer :=
  if (db.sessions.find? sid).isSome then
    ({ db with sessions := db.sessions.update sid f }, .done)
  else (db, .failed)

def updateUser (db : Database) (uid : String) (f : UserDocument → UserDocument) :
    Database × Answer :=
  if (db.users.find? uid).isSome then ({ db with users := db.users.update uid f }, .done)
  else (db, .failed)

/-- `none` for a call that fails, and otherwise the identifier that a new
document gets. -/
def serve (db : Database) (r : Request) : Option String → Option (Database × Answer)
  | none => some (db, .failed)
  | some id =>
      match r with
      | .createAccount username =>
          (Creation.createAccount id username db).map fun db => (db, .added id)
      | .login uid => some (db, .user (db.users.find? uid))
      | .host _ _ hostName => some (db, .host (db.hostNamed hostName))
      | .session _ sessionName hostUid =>
          some (db, .session (db.sessionNamed hostUid sessionName))
      | .pastSession _ sid | .listen _ sid | .refresh _ sid =>
          some (db, .document (db.sessions.find? sid))
      | .enter _ sid l => some (updateSession db sid (TrackSync.Write.currentPlayerList l).apply)
      | .joined uid w =>
          some (updateUser db uid fun u => { u with joinedSessions := w.apply u.joinedSessions })
      | .duplicates user sessionName =>
          some (db, .duplicates (db.sessionNamed user.uid sessionName).isSome)
      | .addSession user sessionName =>
          if h : db.sessions.find? id = none then
            let d := (createdSession user id sessionName).docData
            some ({ db with sessions := db.sessions.insert (· ≤ ·) id d h }, .added id)
          else none
      | .file _ _ => some (db, .done)
      | .update sid w => some (updateSession db sid w.apply)

/-- What becomes of the server, and the answer. -/
inductive Served (db : Database) : Request → Database → Answer → Prop
  | failed (r : Request) : Served db r db .failed
  | createAccount (username id : String) (db' : Database)
      (hdb : Creation.createAccount id username db = some db') :
      Served db (.createAccount username) db' (.added id)
  | login (uid : String) : Served db (.login uid) db (.user (db.users.find? uid))
  | host (user : User) (sessionName hostName : String) :
      Served db (.host user sessionName hostName) db (.host (db.hostNamed hostName))
  | session (user : User) (sessionName hostUid : String) :
      Served db (.session user sessionName hostUid) db
        (.session (db.sessionNamed hostUid sessionName))
  | pastSession (user : User) (sid : String) :
      Served db (.pastSession user sid) db (.document (db.sessions.find? sid))
  | listen (k : Nat) (sid : String) :
      Served db (.listen k sid) db (.document (db.sessions.find? sid))
  | refresh (k : Nat) (sid : String) :
      Served db (.refresh k sid) db (.document (db.sessions.find? sid))
  | enter (user : User) (sid : String) (l : Roster) (db' : Database) (a : Answer)
      (hupdate : updateSession db sid (TrackSync.Write.currentPlayerList l).apply = (db', a)) :
      Served db (.enter user sid l) db' a
  | joined (uid : String) (w : JoinedSessions.Write) (db' : Database) (a : Answer)
      (hupdate : updateUser db uid
        (fun u => { u with joinedSessions := w.apply u.joinedSessions }) = (db', a)) :
      Served db (.joined uid w) db' a
  | duplicates (user : User) (sessionName : String) :
      Served db (.duplicates user sessionName) db
        (.duplicates (db.sessionNamed user.uid sessionName).isSome)
  | addSession (user : User) (sessionName id : String) (hfree : db.sessions.find? id = none) :
      Served db (.addSession user sessionName)
        { db with
          sessions :=
            db.sessions.insert (· ≤ ·) id (createdSession user id sessionName).docData hfree }
        (.added id)
  | file (sid : String) (w : TrackSync.Write) : Served db (.file sid w) db .done
  | update (sid : String) (w : TrackSync.Write) (db' : Database) (a : Answer)
      (hupdate : updateSession db sid w.apply = (db', a)) :
      Served db (.update sid w) db' a

theorem serve_cases {db db' : Database} {r : Request} {choice : Option String} {a : Answer}
    (h : serve db r choice = some (db', a)) : Served db r db' a := by
  have hread : ∀ {b}, Served db r db b → some (db, b) = some (db', a) → Served db r db' a := by
    intro b hb heq
    obtain ⟨rfl, rfl⟩ := Prod.mk.inj (Option.some.inj heq)
    exact hb
  cases choice with
  | none => exact hread (.failed r) h
  | some id =>
      cases r with
      | login uid => exact hread (.login uid) h
      | host user sessionName hostName => exact hread (.host user sessionName hostName) h
      | session user sessionName hostUid => exact hread (.session user sessionName hostUid) h
      | pastSession user sid => exact hread (.pastSession user sid) h
      | listen k sid => exact hread (.listen k sid) h
      | refresh k sid => exact hread (.refresh k sid) h
      | duplicates user sessionName => exact hread (.duplicates user sessionName) h
      | file sid w => exact hread (.file sid w) h
      | createAccount username =>
          obtain ⟨db₁, hdb, heq⟩ := Option.map_eq_some_iff.mp h
          obtain ⟨rfl, rfl⟩ := Prod.mk.inj heq
          exact .createAccount username id db₁ hdb
      | enter user sid l => exact .enter user sid l db' a (Option.some.inj h)
      | joined uid w => exact .joined uid w db' a (Option.some.inj h)
      | update sid w => exact .update sid w db' a (Option.some.inj h)
      | addSession user sessionName =>
          obtain ⟨hfree, heq⟩ := Option.dite_none_right_eq_some.mp h
          obtain ⟨rfl, rfl⟩ := Prod.mk.inj (Option.some.inj heq)
          exact .addSession user sessionName id hfree

/-! ### The client -/

namespace Client

def initial : Client := ⟨none, none, .initial ⟨"", ""⟩⟩

/-- The user defaults survive the app. -/
def ended (c : Client) : Client := { c with phone := .initial c.phone.user }

def uid (c : Client) : Option String := c.user.map User.uid

def username (c : Client) : Option String := c.user.map User.username

def cached (c : Client) (k : Nat) : Option Nat := c.phone.screens[k]?.bind Screen.cached

/-- A message to the Session object `r` that changes its list of players and
sends it; `none` when it raises. -/
def sendRoster (c : Client) (r : Option Nat) (f : Roster → Option Roster) :
    Option (Client × List Request) :=
  match c.phone.session? r with
  | none => some (c, [])
  | some s =>
      (f s.currentPlayerList).map fun l =>
        ({ c with
            phone := c.phone.modifySession r fun s => { s with currentPlayerList := l } },
          [.update s.uid (.currentPlayerList l)])

def updateActivity (c : Client) (r : Option Nat) (isActive : Bool) :
    Option (Client × List Request) :=
  c.sendRoster r (Roster.withActivity isActive c.username c.uid)

def updateStatus (c : Client) (r : Option Nat) (status : Bool) : Option (Client × List Request) :=
  c.sendRoster r fun l => some (l.setStatus status c.uid)

def inSessionNamed (c : Client) (name : String) : Bool :=
  match c.phone.session? c.phone.currentSession with
  | none => false
  | some s => s.sessionName = name

/-- The start of a join. -/
def leaveOther (c : Client) (name : String) : Option (Client × List Request) :=
  if c.inSessionNamed name then some (c, [])
  else c.updateActivity c.phone.currentSession false

/-- `setCurrentSession:` with the Session of a document, for the user who
asked for it. -/
def install (c : Client) (user : User) (sid : String) (d : SessionDocument) : Client :=
  { c with phone := { ({ c.phone with user }).joinSession sid d with user := c.phone.user } }

/-- What the two joins do once they have found the session. -/
def found (c : Client) (user : User) (sid : String) (d : SessionDocument) :
    Client × List Request :=
  (c.install user sid d,
    if d.currentPlayerList.contains user.uid then []
    else [.enter user sid (Roster.join user.username user.uid d.currentPlayerList)])

def logOut (c : Client) : Client :=
  { user := none
    joinedSessions := none
    phone := { c.phone with currentSession := none } }

/-- An update of the document of the Session that screen `k` has cached. -/
def send (c : Client) (k : Nat) (f : Session → Request) : Option (Client × List Request) :=
  (c.phone.cachedSession k).map fun s => (c, [f s])

def act (c : Client) : Action → Option (Client × List Request)
  | .createAccount username => some (c, [.createAccount username])
  | .login uid => some (c, [.login uid])
  | .logOutTapped home => do
      let (c, first) ← c.updateActivity home false
      let (c, second) ← c.updateActivity c.phone.currentSession false
      some (c.logOut, first ++ second)
  | .createNewSession sessionName => do
      let user ← c.user
      some (c, [.duplicates user sessionName])
  | .joinSession sessionCode hostName => do
      let user ← c.user
      let (c, left) ← c.leaveOther (trimmed sessionCode)
      some (c, left ++ [.host user (trimmed sessionCode) (trimmed hostName)])
  | .joinPastSession sid sessionName => do
      let user ← c.user
      let (c, left) ← c.leaveOther sessionName
      some (c, left ++ [.pastSession user sid])
  | .viewDidLoad tab =>
      let listener := match c.phone.session? c.phone.currentSession with
        | none => []
        | some s => if tab = .merge then [] else [.listen c.phone.screens.length s.uid]
      some ({ c with phone := c.phone.viewDidLoad tab }, listener)
  | .viewWillAppear k => some ({ c with phone := c.phone.viewWillAppear k }, [])
  | .updateUsersStatus k status => c.updateStatus (c.cached k) status
  | .handleBackgroundStatus k => c.updateActivity (c.cached k) false
  | .handleForegroundStatus k status => do
      let (c, first) ← c.updateActivity (c.cached k) true
      let (c, second) ← c.updateStatus (c.cached k) status
      some (c, first ++ second)
  | .confirmTracks k library selectedRecordings => do
      let user ← c.user
      let s ← c.phone.session? library
      let entry (a : Audio) := a.uploadEntry user.uid s.uid user.username
      some ({ c with phone := c.phone.confirmTracks k selectedRecordings },
        selectedRecordings.map fun a => .file s.uid (.arrayUnion (entry a)))
  | .commitEditing k i => do
      let s ← c.phone.cachedSession k
      let (d, phone) ← c.phone.commitEditing k i
      some ({ c with phone }, [.file s.uid (.guestPlayerList k i d)])
  | .refresh k => do
      let s ← c.phone.cachedSession k
      some ({ c with phone := c.phone.refresh k }, [.refresh k s.uid])
  | .sessionRecordingStatusUpdate k status =>
      c.send k fun s => .update s.uid (.hostStartRecording status)
  | .uploadClickTrack k url => c.send k fun s => .file s.uid (.clickTrackRef url)
  | .uploadMerge k url => c.send k fun s => .file s.uid (.finalMergedResultRef url)

/-- `none` when the completion raises. `m` is what a proxy does when there is
no array under its key. -/
def receive (m : JoinedSessions.MissingKey) (c : Client) : Request → Answer →
    Option (Client × List Request)
  | .login uid, .user (some u) =>
      let user := ⟨uid, u.username⟩
      some (⟨some user, some u.joinedSessions, { c.phone with user }⟩, [])
  | .host user sessionName _, .host (some hostUid) =>
      some (c, [.session user sessionName hostUid])
  | .session user _ _, .session (some (sid, d)) => some (c.found user sid d)
  | .pastSession user sid, .document (some d) => some (c.found user sid d)
  | .enter user sid _, .done =>
      (JoinedSessions.joinWrite m sid false c.joinedSessions).map fun w =>
        (c, w.toList.map (.joined user.uid))
  | .joined _ w, .done =>
      (w.complete m c.joinedSessions).map fun joinedSessions => ({ c with joinedSessions }, [])
  | .duplicates user sessionName, .duplicates false => some (c, [.addSession user sessionName])
  | .addSession user _, .added sid =>
      some (c, [.joined user.uid (JoinedSessions.createWrite sid c.joinedSessions)])
  | .listen k sid, .document (some d) =>
      -- a listener is never removed
      some ({ c with phone := c.phone.snapshot k d }, [.listen k sid])
  | .listen k sid, _ => some (c, [.listen k sid])
  | .refresh k _, .document (some d) =>
      match c.phone.cachedSession k with
      | none => some (c, [])
      | some s => some ({ c with phone := c.phone.finishRefresh k s.uid d }, [])
  | .file sid w, .done => some (c, [.update sid w])
  | .update _ (.guestPlayerList k i _), _ =>
      -- the completion does not look at the error
      (c.phone.removeRow k i).map fun phone => ({ c with phone }, [])
  | _, _ => some (c, [])

/-! ### What an action comes to -/

section Actions

variable {c c' : Client} {l : List Request} {r : Option Nat} {k : Nat}

theorem sendRoster_eq_some {f : Roster → Option Roster} (h : c.sendRoster r f = some (c', l)) :
    c' = c ∧ l = [] ∨ ∃ s players, c.phone.session? r = some s ∧
      f s.currentPlayerList = some players ∧
      c' = { c with
        phone := c.phone.modifySession r fun s => { s with currentPlayerList := players } } ∧
      l = [.update s.uid (.currentPlayerList players)] := by
  rw [sendRoster] at h
  split at h
  · exact .inl ((Prod.mk.inj (Option.some.inj h)).imp Eq.symm Eq.symm)
  · rename_i s hs
    obtain ⟨players, hplayers, heq⟩ := Option.map_eq_some_iff.mp h
    obtain ⟨rfl, rfl⟩ := Prod.mk.inj heq
    exact .inr ⟨s, players, hs, hplayers, rfl, rfl⟩

theorem leaveOther_eq_some {name : String} (h : c.leaveOther name = some (c', l)) :
    c' = c ∧ l = [] ∨ c.updateActivity c.phone.currentSession false = some (c', l) := by
  rw [leaveOther] at h
  split at h
  · exact .inl ((Prod.mk.inj (Option.some.inj h)).imp Eq.symm Eq.symm)
  · exact .inr h

theorem send_eq_some {f : Session → Request} (h : c.send k f = some (c', l)) :
    ∃ s, c.phone.cachedSession k = some s ∧ c' = c ∧ l = [f s] := by
  obtain ⟨s, hs, heq⟩ := Option.map_eq_some_iff.mp h
  obtain ⟨rfl, rfl⟩ := Prod.mk.inj heq
  exact ⟨s, hs, rfl, rfl⟩

theorem logOutTapped_eq_some {home : Option Nat}
    (h : c.act (.logOutTapped home) = some (c', l)) :
    ∃ c₁ first c₂ second, c.updateActivity home false = some (c₁, first) ∧
      c₁.updateActivity c₁.phone.currentSession false = some (c₂, second) ∧
      c' = c₂.logOut ∧ l = first ++ second := by
  simp only [act, Option.bind_eq_bind, Option.bind_eq_some_iff, Option.some.injEq, Prod.mk.injEq,
    Prod.exists] at h
  obtain ⟨c₁, first, hfirst, c₂, second, hsecond, rfl, rfl⟩ := h
  exact ⟨c₁, first, c₂, second, hfirst, hsecond, rfl, rfl⟩

theorem handleForegroundStatus_eq_some {status : Bool}
    (h : c.act (.handleForegroundStatus k status) = some (c', l)) :
    ∃ c₁ first second, c.updateActivity (c.cached k) true = some (c₁, first) ∧
      c₁.updateStatus (c₁.cached k) status = some (c', second) ∧ l = first ++ second := by
  simp only [act, Option.bind_eq_bind, Option.bind_eq_some_iff, Option.some.injEq, Prod.mk.injEq,
    Prod.exists] at h
  obtain ⟨c₁, first, hfirst, c₂, second, hsecond, rfl, rfl⟩ := h
  exact ⟨c₁, first, second, hfirst, hsecond, rfl⟩

theorem createNewSession_eq_some {sessionName : String}
    (h : c.act (.createNewSession sessionName) = some (c', l)) :
    ∃ user, c.user = some user ∧ c' = c ∧ l = [.duplicates user sessionName] := by
  obtain ⟨user, huser, heq⟩ := Option.bind_eq_some_iff.mp h
  obtain ⟨rfl, rfl⟩ := Prod.mk.inj (Option.some.inj heq)
  exact ⟨user, huser, rfl, rfl⟩

theorem joinSession_eq_some {sessionCode hostName : String}
    (h : c.act (.joinSession sessionCode hostName) = some (c', l)) :
    ∃ user left, c.user = some user ∧ c.leaveOther (trimmed sessionCode) = some (c', left) ∧
      l = left ++ [.host user (trimmed sessionCode) (trimmed hostName)] := by
  simp only [act, Option.bind_eq_bind, Option.bind_eq_some_iff, Option.some.injEq, Prod.mk.injEq,
    Prod.exists] at h
  obtain ⟨user, huser, c₁, left, hleft, rfl, rfl⟩ := h
  exact ⟨user, left, huser, hleft, rfl⟩

theorem joinPastSession_eq_some {sid sessionName : String}
    (h : c.act (.joinPastSession sid sessionName) = some (c', l)) :
    ∃ user left, c.user = some user ∧ c.leaveOther sessionName = some (c', left) ∧
      l = left ++ [.pastSession user sid] := by
  simp only [act, Option.bind_eq_bind, Option.bind_eq_some_iff, Option.some.injEq, Prod.mk.injEq,
    Prod.exists] at h
  obtain ⟨user, huser, c₁, left, hleft, rfl, rfl⟩ := h
  exact ⟨user, left, huser, hleft, rfl⟩

theorem confirmTracks_eq_some {library : Option Nat} {selectedRecordings : List Audio}
    (h : c.act (.confirmTracks k library selectedRecordings) = some (c', l)) :
    ∃ user s, c.user = some user ∧ c.phone.session? library = some s ∧
      c' = { c with phone := c.phone.confirmTracks k selectedRecordings } ∧
      l = selectedRecordings.map fun a =>
        .file s.uid (.arrayUnion (a.uploadEntry user.uid s.uid user.username)) := by
  simp only [act, Option.bind_eq_bind, Option.bind_eq_some_iff, Option.some.injEq,
    Prod.mk.injEq] at h
  obtain ⟨user, huser, s, hs, rfl, rfl⟩ := h
  exact ⟨user, s, huser, hs, rfl, rfl⟩

theorem commitEditing_eq_some {i : Nat} (h : c.act (.commitEditing k i) = some (c', l)) :
    ∃ s d phone, c.phone.cachedSession k = some s ∧ c.phone.commitEditing k i = some (d, phone) ∧
      c' = { c with phone } ∧ l = [.file s.uid (.guestPlayerList k i d)] := by
  simp only [act, Option.bind_eq_bind, Option.bind_eq_some_iff, Option.some.injEq, Prod.mk.injEq,
    Prod.exists] at h
  obtain ⟨s, hs, d, phone, hcommit, rfl, rfl⟩ := h
  exact ⟨s, d, phone, hs, hcommit, rfl, rfl⟩

theorem refresh_eq_some (h : c.act (.refresh k) = some (c', l)) :
    ∃ s, c.phone.cachedSession k = some s ∧ c' = { c with phone := c.phone.refresh k } ∧
      l = [.refresh k s.uid] := by
  obtain ⟨s, hs, heq⟩ := Option.bind_eq_some_iff.mp h
  obtain ⟨rfl, rfl⟩ := Prod.mk.inj (Option.some.inj heq)
  exact ⟨s, hs, rfl, rfl⟩

end Actions

/-! ### What an answer comes to -/

end Client

/-- Whether the completion does anything with the answer. -/
def Request.goesOn : Request → Answer → Bool
  | .login _, .user (some _) | .host _ _ _, .host (some _) | .session _ _ _, .session (some _)
  | .pastSession _ _, .document (some _) | .enter _ _ _, .done | .joined _ _, .done
  | .duplicates _ _, .duplicates false | .addSession _ _, .added _ | .listen _ _, _
  | .refresh _ _, .document (some _) | .file _ _, .done | .update _ (.guestPlayerList _ _ _), _ =>
      true
  | _, _ => false

namespace Client

/-- The client and the requests that an answer leads to. -/
inductive Received (m : JoinedSessions.MissingKey) (c : Client) :
    Request → Answer → Client → List Request → Prop
  | login (uid : String) (u : UserDocument) :
      Received m c (.login uid) (.user (some u))
        ⟨some ⟨uid, u.username⟩, some u.joinedSessions,
          { c.phone with user := ⟨uid, u.username⟩ }⟩ []
  | host (user : User) (sessionName hostName hostUid : String) :
      Received m c (.host user sessionName hostName) (.host (some hostUid)) c
        [.session user sessionName hostUid]
  | session (user : User) (sessionName hostUid sid : String) (d : SessionDocument) :
      Received m c (.session user sessionName hostUid) (.session (some (sid, d)))
        (c.found user sid d).1 (c.found user sid d).2
  | pastSession (user : User) (sid : String) (d : SessionDocument) :
      Received m c (.pastSession user sid) (.document (some d))
        (c.found user sid d).1 (c.found user sid d).2
  | enter (user : User) (sid : String) (l : Roster) (w : Option JoinedSessions.Write)
      (hw : JoinedSessions.joinWrite m sid false c.joinedSessions = some w) :
      Received m c (.enter user sid l) .done c (w.toList.map (.joined user.uid))
  | joined (uid : String) (w : JoinedSessions.Write) (stored : JoinedSessions.Stored)
      (hstored : w.complete m c.joinedSessions = some stored) :
      Received m c (.joined uid w) .done { c with joinedSessions := stored } []
  | duplicates (user : User) (sessionName : String) :
      Received m c (.duplicates user sessionName) (.duplicates false) c
        [.addSession user sessionName]
  | added (user : User) (sessionName sid : String) :
      Received m c (.addSession user sessionName) (.added sid) c
        [.joined user.uid (JoinedSessions.createWrite sid c.joinedSessions)]
  | snapshot (k : Nat) (sid : String) (d : SessionDocument) :
      Received m c (.listen k sid) (.document (some d))
        { c with phone := c.phone.snapshot k d } [.listen k sid]
  | listen (k : Nat) (sid : String) (a : Answer) :
      Received m c (.listen k sid) a c [.listen k sid]
  /-- The screen has no Session by then. -/
  | refreshNone (k : Nat) (sid : String) (d : SessionDocument)
      (hnone : c.phone.cachedSession k = none) :
      Received m c (.refresh k sid) (.document (some d)) c []
  | refresh (k : Nat) (sid : String) (d : SessionDocument) (s : Session)
      (hs : c.phone.cachedSession k = some s) :
      Received m c (.refresh k sid) (.document (some d))
        { c with phone := c.phone.finishRefresh k s.uid d } []
  | file (sid : String) (w : TrackSync.Write) :
      Received m c (.file sid w) .done c [.update sid w]
  | deleted (sid : String) (k i : Nat) (d : Deletion) (a : Answer) (phone : Phone)
      (hphone : c.phone.removeRow k i = some phone) :
      Received m c (.update sid (.guestPlayerList k i d)) a { c with phone } []
  | ignored (q : Request) (a : Answer) (hignored : q.goesOn a = false) : Received m c q a c []

theorem receive_cases {m : JoinedSessions.MissingKey} {c c' : Client} {q : Request} {a : Answer}
    {l : List Request} (h : c.receive m q a = some (c', l)) : Received m c q a c' l := by
  unfold receive at h
  split at h
  · obtain ⟨rfl, rfl⟩ := Prod.mk.inj (Option.some.inj h)
    exact .login _ _
  · obtain ⟨rfl, rfl⟩ := Prod.mk.inj (Option.some.inj h)
    exact .host _ _ _ _
  · obtain ⟨rfl, rfl⟩ := Prod.mk.inj (Option.some.inj h)
    exact .session _ _ _ _ _
  · obtain ⟨rfl, rfl⟩ := Prod.mk.inj (Option.some.inj h)
    exact .pastSession _ _ _
  · obtain ⟨w, hw, heq⟩ := Option.map_eq_some_iff.mp h
    obtain ⟨rfl, rfl⟩ := Prod.mk.inj heq
    exact .enter _ _ _ w hw
  · obtain ⟨stored, hstored, heq⟩ := Option.map_eq_some_iff.mp h
    obtain ⟨rfl, rfl⟩ := Prod.mk.inj heq
    exact .joined _ _ stored hstored
  · obtain ⟨rfl, rfl⟩ := Prod.mk.inj (Option.some.inj h)
    exact .duplicates _ _
  · obtain ⟨rfl, rfl⟩ := Prod.mk.inj (Option.some.inj h)
    exact .added _ _ _
  · obtain ⟨rfl, rfl⟩ := Prod.mk.inj (Option.some.inj h)
    exact .snapshot _ _ _
  · obtain ⟨rfl, rfl⟩ := Prod.mk.inj (Option.some.inj h)
    exact .listen _ _ _
  · split at h
    · rename_i hnone
      obtain ⟨rfl, rfl⟩ := Prod.mk.inj (Option.some.inj h)
      exact .refreshNone _ _ _ hnone
    · rename_i s hs
      obtain ⟨rfl, rfl⟩ := Prod.mk.inj (Option.some.inj h)
      exact .refresh _ _ _ s hs
  · obtain ⟨rfl, rfl⟩ := Prod.mk.inj (Option.some.inj h)
    exact .file _ _
  · obtain ⟨phone, hphone, heq⟩ := Option.map_eq_some_iff.mp h
    obtain ⟨rfl, rfl⟩ := Prod.mk.inj heq
    exact .deleted _ _ _ _ _ phone hphone
  · obtain ⟨rfl, rfl⟩ := Prod.mk.inj (Option.some.inj h)
    refine .ignored _ _ ?_
    unfold Request.goesOn
    split <;> grind

end Client

def app (m : JoinedSessions.MissingKey) :
    Protocol Database Client Request Answer Action (Option String) where
  act := Client.act
  serve := serve
  receive := Client.receive m
  ended := Client.ended

abbrev State (P : Type*) := Protocol.System P Database Client Request Answer

/-- Nobody has an account, and nobody is logged in. -/
def initial {P : Type*} : State P := ⟨Creation.initial, fun _ => .initial, [], []⟩

end Tootti.Traffic
