import Tootti.Machine.Collection
import Tootti.Model.Session

/-!
Entering and leaving sessions: `JoinSessionDetailVC.m`,
`ViewPastSessionsVC.m`, `CreateSessionDetailVC.m` and `ApplicationState.m`.

Each operation is a chain of calls to the server, any of which can fail. What
the server answers is an argument; the operations return how they ended, the
app and the database as they are then.
-/

namespace Tootti

open Machine

structure UserDocument where
  username : String
  joinedSessions : List String
  deriving DecidableEq, Repr

structure Database where
  users : Collection String UserDocument
  sessions : Collection String SessionDocument

/-- The app of a signed-in user. Every Audio it has made got a player of its
own. -/
structure App where
  user : User
  joinedSessions : List String
  currentSession : Option Session
  nextPlayer : Nat
  fresh : ∀ s ∈ currentSession, ∀ a ∈ s.clickTrack, a.player < nextPlayer

/-- Without a Session there is no Audio whose player could be made again. -/
theorem App.fresh_none : ∀ s ∈ (none : Option Session), ∀ a ∈ s.clickTrack, a.player < 0 :=
  fun _ hs => absurd hs (Option.not_mem_none _)

structure Network where
  leaveWrite : Bool
  userQuery : Bool
  sessionQuery : Bool
  rosterWrite : Bool
  userWrite : Bool
  deriving DecidableEq, Repr

inductive Failure
  | userQuery
  | unknownHost
  | sessionQuery
  | unknownSession
  | rosterWrite
  deriving DecidableEq, Repr

inductive Outcome
  | failed (why : Failure)
  /-- The user is in the session, but the user's document was not updated, and
  the screen stays. -/
  | unlisted
  | entered (segue : String)
  deriving DecidableEq, Repr

/-! ### Trimming -/

/-- `whitespaceAndNewlineCharacterSet`: the tab and line breaks, and what
Unicode counts as a separator. -/
def isWhitespaceOrNewline (c : Char) : Bool :=
  let n := c.toNat
  9 ≤ n && n ≤ 13 || n == 0x20 || n == 0x85 || n == 0xA0 || n == 0x1680 ||
    0x2000 ≤ n && n ≤ 0x200A || n == 0x2028 || n == 0x2029 || n == 0x202F || n == 0x205F ||
    n == 0x3000

def trimmed (s : String) : String :=
  String.ofList
    ((s.toList.dropWhile isWhitespaceOrNewline).reverse.dropWhile isWhitespaceOrNewline).reverse

/-! ### Leaving -/

/-- The `NO` branch of `updateCurrentPlayerListWithActivity:` on a Session. -/
def Session.left (s : Session) (uid : String) : Session :=
  { s with currentPlayerList := s.currentPlayerList.removePlayer (some uid) }

example (s : Session) (u : User) :
    s.updateCurrentPlayerListWithActivity false (some u.username) (some u.uid) =
      some (s.left u.uid) := rfl

def Database.writeRoster (db : Database) (sid : String) (l : Roster) : Database :=
  { db with sessions := db.sessions.update sid fun d => { d with currentPlayerList := l } }

/-- Leaving the current Session: its list changes at once, and the document's
if the write succeeds. -/
def App.leave (write : Bool) (app : App) (db : Database) : App × Database :=
  match h : app.currentSession with
  | none => (app, db)
  | some s =>
      let s' := s.left app.user.uid
      ({ app with
          currentSession := some s'
          fresh := by
            rintro t ht a ha
            obtain rfl := Option.some.inj ht
            exact app.fresh s h a ha },
        if write then db.writeRoster s.uid s'.currentPlayerList else db)

def App.inSessionNamed (app : App) (name : String) : Bool :=
  match app.currentSession with
  | none => false
  | some s => s.sessionName = name

/-- The start of a join: "Remove from currentPlayerList if joining a
different session". -/
def App.leaveOther (net : Network) (name : String) (app : App) (db : Database) : App × Database :=
  if app.inSessionNamed name then (app, db) else app.leave net.leaveWrite db

/-! ### Joining -/

/-- `setCurrentSession:` with the Session built from a document, which makes
two players. -/
def App.install (app : App) (sid : String) (d : SessionDocument) : App :=
  let cpl := Roster.join app.user.username app.user.uid d.currentPlayerList
  { app with
    currentSession := some (d.joined sid app.user app.nextPlayer cpl)
    nextPlayer := app.nextPlayer + 2
    fresh := by
      rintro s hs a ha
      obtain rfl := Option.some.inj hs
      obtain rfl := Option.some.inj ha
      show app.nextPlayer < app.nextPlayer + 2
      omega }

/-- What the two joins do once they have found the session. A first join
ends with the segue `first`, any other with `again`. -/
def App.joinFound (net : Network) (first again sid : String) (d : SessionDocument) (app : App)
    (db : Database) : Outcome × App × Database :=
  let app' := app.install sid d
  if d.currentPlayerList.contains app.user.uid then (.entered again, app', db)
  else if net.rosterWrite then
    let l := Roster.join app.user.username app.user.uid d.currentPlayerList
    let db := db.writeRoster sid l
    if app.joinedSessions.contains sid then (.entered again, app', db)
    else if net.userWrite then
      let users := db.users.update app.user.uid fun u =>
        { u with joinedSessions := arrayUnion u.joinedSessions sid }
      -- the array is a live proxy of the key that is removed before it is stored
      (.entered first, { app' with joinedSessions := [] }, { db with users })
    else (.unlisted, app', db)
  else (.failed .rosterWrite, app', db)

/-- The document ids that the two queries of `joinSession:` lead to. -/
def Database.hostNamed (db : Database) (username : String) : Option String :=
  (db.users.query fun u => u.username = username).head?.map Prod.fst

def Database.sessionNamed (db : Database) (hostUid name : String) :
    Option (String × SessionDocument) :=
  (db.sessions.query fun d => d.sessionName = name && d.hostUid = hostUid).head?

def joinSession (net : Network) (sessionCode hostName : String) (app : App) (db : Database) :
    Outcome × App × Database :=
  let name := trimmed sessionCode
  let (app, db) := app.leaveOther net name db
  if net.userQuery then
    match db.hostNamed (trimmed hostName) with
    | none => (.failed .unknownHost, app, db)
    | some hostUid =>
        if net.sessionQuery then
          match db.sessionNamed hostUid name with
          | none => (.failed .unknownSession, app, db)
          | some (sid, d) =>
              app.joinFound net "joinSessionRecording" "joinSessionRecording" sid d db
        else (.failed .sessionQuery, app, db)
  else (.failed .userQuery, app, db)

def joinPastSession (net : Network) (past : Session) (app : App) (db : Database) :
    Outcome × App × Database :=
  let (app, db) := app.leaveOther net past.sessionName db
  if net.sessionQuery then
    match db.sessions.find? past.uid with
    | none => (.failed .unknownSession, app, db)
    | some d => app.joinFound net "joinSessionRecording" "joinPastSessionRecording" past.uid d db
  else (.failed .sessionQuery, app, db)

inductive Attempt
  | byName (sessionCode hostName : String)
  | past (session : Session)

namespace Attempt

def run (net : Network) (app : App) (db : Database) : Attempt → Outcome × App × Database
  | .byName sessionCode hostName => joinSession net sessionCode hostName app db
  | .past session => joinPastSession net session app db

def name : Attempt → String
  | .byName sessionCode _ => trimmed sessionCode
  | .past session => session.sessionName

/-- The session the queries lead to, when they succeed. -/
def target (net : Network) (db : Database) : Attempt → Option String
  | .byName sessionCode hostName =>
      if net.userQuery then
        (db.hostNamed (trimmed hostName)).bind fun hostUid =>
          if net.sessionQuery then
            (db.sessionNamed hostUid (trimmed sessionCode)).map Prod.fst
          else none
      else none
  | .past session =>
      if net.sessionQuery then (db.sessions.find? session.uid).map fun _ => session.uid else none

end Attempt

section Attempts

variable {net : Network} {app : App} {db : Database} {sid : String} {l : Roster}

theorem find?_writeRoster {j : String} :
    (db.writeRoster sid l).sessions.find? j =
      if j = sid then (db.sessions.find? j).map fun d => { d with currentPlayerList := l }
      else db.sessions.find? j :=
  Collection.find?_update _

theorem sessionNamed_writeRoster {hostUid name : String} :
    ((db.writeRoster sid l).sessionNamed hostUid name).map Prod.fst =
      (db.sessionNamed hostUid name).map Prod.fst := by
  let setRoster (d : SessionDocument) : SessionDocument := { d with currentPlayerList := l }
  let matching (d : SessionDocument) : Bool := d.sessionName = name && d.hostUid = hostUid
  have hkeep : ∀ d, matching (setRoster d) = matching d := fun _ => rfl
  have hquery : ((db.sessions.update sid setRoster).query matching).map Prod.fst =
      (db.sessions.query matching).map Prod.fst := Collection.map_fst_query_update hkeep
  have hhead := congrArg List.head? hquery
  rw [List.head?_map, List.head?_map] at hhead
  exact hhead

theorem leave_db (write : Bool) : (app.leave write db).2 = db ∨
    ∃ sid l, (app.leave write db).2 = db.writeRoster sid l := by
  rw [App.leave]
  split
  · exact Or.inl rfl
  · cases write
    · exact Or.inl rfl
    · exact Or.inr ⟨_, _, rfl⟩

theorem leave_app (write : Bool) (app : App) (db : Database) :
    (app.leave write db).1.user = app.user ∧
      (app.leave write db).1.nextPlayer = app.nextPlayer := by
  rw [App.leave]
  split <;> exact ⟨rfl, rfl⟩

theorem leaveOther_app (net : Network) (name : String) (app : App) (db : Database) :
    (app.leaveOther net name db).1.user = app.user ∧
      (app.leaveOther net name db).1.nextPlayer = app.nextPlayer := by
  rw [App.leaveOther]
  split
  · exact ⟨rfl, rfl⟩
  · exact leave_app net.leaveWrite app db

theorem leaveOther_db (app : App) (name : String) : (app.leaveOther net name db).2 = db ∨
    ∃ sid l, (app.leaveOther net name db).2 = db.writeRoster sid l := by
  rw [App.leaveOther]
  split
  · exact Or.inl rfl
  · exact leave_db net.leaveWrite

theorem target_leaveOther (app : App) (a : Attempt) (name : String) :
    a.target net (app.leaveOther net name db).2 = a.target net db := by
  rcases leaveOther_db app name with h | ⟨sid, l, h⟩
  · rw [h]
  · rw [h]
    cases a with
    | byName sessionCode hostName =>
        have hhost : (db.writeRoster sid l).hostNamed (trimmed hostName) =
            db.hostNamed (trimmed hostName) := rfl
        simp only [Attempt.target, hhost, sessionNamed_writeRoster]
    | past session =>
        simp only [Attempt.target, find?_writeRoster]
        split
        · split
          · simp [Option.map_map, Function.comp_def]
          · rfl
        · rfl

/-- When the queries lead nowhere, all a join has done is to leave. -/
theorem run_of_target_eq_none (app : App) {a : Attempt} (h : a.target net db = none) :
    ∃ why, a.run net app db = (.failed why, app.leaveOther net a.name db) := by
  rw [← target_leaveOther app a a.name] at h
  cases a with
  | byName sessionCode hostName =>
      simp only [Attempt.run, joinSession, Attempt.target, Attempt.name] at h ⊢
      generalize app.leaveOther net (trimmed sessionCode) db = p at h ⊢
      cases huser : net.userQuery with
      | false => exact ⟨.userQuery, by simp⟩
      | true =>
          cases hhost : p.2.hostNamed (trimmed hostName) with
          | none => exact ⟨.unknownHost, by simp⟩
          | some hostUid =>
              cases hquery : net.sessionQuery with
              | false => exact ⟨.sessionQuery, by simp⟩
              | true =>
                  cases hsession : p.2.sessionNamed hostUid (trimmed sessionCode) with
                  | none => exact ⟨.unknownSession, by simp [hsession]⟩
                  | some found => simp [huser, hhost, hquery, hsession] at h
  | past session =>
      simp only [Attempt.run, joinPastSession, Attempt.target, Attempt.name] at h ⊢
      generalize app.leaveOther net session.sessionName db = p at h ⊢
      cases hquery : net.sessionQuery with
      | false => exact ⟨.sessionQuery, by simp⟩
      | true =>
          cases hfind : p.2.sessions.find? session.uid with
          | none => exact ⟨.unknownSession, by simp⟩
          | some d => simp [hquery, hfind] at h

/-- When they lead to a session, the join goes on with its document as the
leave left it. -/
theorem run_of_target_eq_some (app : App) {a : Attempt} (h : a.target net db = some sid) :
    ∃ first again d, (app.leaveOther net a.name db).2.sessions.find? sid = some d ∧
      a.run net app db = (app.leaveOther net a.name db).1.joinFound net first again sid d
        (app.leaveOther net a.name db).2 := by
  rw [← target_leaveOther app a a.name] at h
  cases a with
  | byName sessionCode hostName =>
      simp only [Attempt.run, joinSession, Attempt.target, Attempt.name] at h ⊢
      generalize app.leaveOther net (trimmed sessionCode) db = p at h ⊢
      cases huser : net.userQuery with
      | false => simp [huser] at h
      | true =>
          simp only [huser, if_true, Option.bind_eq_some_iff] at h
          obtain ⟨hostUid, hhost, h⟩ := h
          cases hquery : net.sessionQuery with
          | false => simp [hquery] at h
          | true =>
              simp only [hquery, if_true, Option.map_eq_some_iff] at h
              obtain ⟨⟨sid', d⟩, hsession, rfl⟩ := h
              have hfound := List.mem_of_mem_head? hsession
              refine ⟨"joinSessionRecording", "joinSessionRecording", d,
                (Collection.mem_query.mp hfound).1, ?_⟩
              simp [hhost, hsession]
  | past session =>
      simp only [Attempt.run, joinPastSession, Attempt.target, Attempt.name] at h ⊢
      generalize app.leaveOther net session.sessionName db = p at h ⊢
      cases hquery : net.sessionQuery with
      | false => simp [hquery] at h
      | true =>
          simp only [hquery, if_true, Option.map_eq_some_iff] at h
          obtain ⟨d, hfind, rfl⟩ := h
          exact ⟨"joinSessionRecording", "joinPastSessionRecording", d, hfind, by simp [hfind]⟩

end Attempts

/-! ### Creating, and logging out -/

/-- The Session `createNewSession:` makes, with the players of its two empty
Audios left out. -/
def createdSession (user : User) (sid name : String) : Session where
  uid := sid
  sessionName := name
  hostUid := user.uid
  guestPlayerList := []
  clickTrack := none
  recordedAudioDict := []
  finalMergedResult := none
  hostStartRecording := false
  currentPlayerList := [⟨user.username, user.uid, false⟩]

/-- `createNewSession:` with all calls succeeding and the document stored
under `sid`; `none` when the host has a session of that name. The app's
current Session is not touched. -/
def createNewSession (sid name : String) (app : App) (db : Database) : Option (App × Database) :=
  if (db.sessionNamed app.user.uid name).isSome then none
  else if h : db.sessions.find? sid = none then
    let joined := app.joinedSessions ++ [sid]
    some ({ app with joinedSessions := joined },
      { sessions := db.sessions.add sid (createdSession app.user sid name).docData h
        users := db.users.update app.user.uid fun u => { u with joinedSessions := joined } })
  else none

/-- `logOutTapped:`, where the Home screen and then `close` leave the current
Session. -/
def logOutTapped (net : Network) (app : App) (db : Database) : App × Database :=
  let (app, db) := app.leave net.leaveWrite db
  let (app, db) := app.leave net.leaveWrite db
  ({ app with
      joinedSessions := []
      currentSession := none
      fresh := fun _ hs => absurd hs (Option.not_mem_none _) }, db)

end Tootti
