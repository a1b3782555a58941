import Tootti.Model.Join

/-!
The two ways to join a session, side by side.

`joinSession:` and `joinPastSession:` find the session in different ways. From
there on their callbacks are two copies of one text, translated here one by
one: they differ in the segues they perform, and the scenes of the storyboard
have one segue each. Both refine `App.joinFound`.
-/

namespace Tootti.SameJoin

open Machine

/-! ### Segues -/

inductive Screen
  | joinSessionDetail
  | viewPastSessions
  deriving DecidableEq, Repr

/-- The segues of the two scenes in `Main.storyboard`, both to the tab bar. -/
def Screen.segues : Screen → List String
  | .joinSessionDetail => ["joinSessionRecording"]
  | .viewPastSessions => ["joinPastSessionRecording"]

/-- `prepareForSegue:`, which selects a tab for its own identifier. -/
def Screen.prepareForSegue : Screen → String → Nat
  | .joinSessionDetail, identifier => if identifier = "joinSessionRecording" then 2 else 0
  | .viewPastSessions, identifier => if identifier = "joinPastSessionRecording" then 2 else 0

inductive Shown
  /-- The exception for a segue that the scene does not have. -/
  | raised
  | tab (index : Nat)
  deriving DecidableEq, Repr

def Screen.performSegue (screen : Screen) (identifier : String) : Shown :=
  if identifier ∈ screen.segues then .tab (screen.prepareForSegue identifier) else .raised

/-- The recording screen is the third tab. -/
def recordingScreen : Shown := .tab 2

/-! ### The callbacks -/

/-- A session document as the two find it, possibly without click track or mix. -/
structure Document where
  sessionName : String
  hostUid : String
  guestPlayerList : List GuestTrack
  clickTrackRef : Option AudioURL
  recordedAudioDict : List (String × String)
  finalMergedResultRef : Option AudioURL
  hostStartRecording : Bool
  currentPlayerList : Roster
  deriving DecidableEq, Repr

/-- What a join reads and writes: the app, and the documents of the session and
of the user. An Audio that was only allocated is `none`. -/
structure World where
  user : User
  joinedSessions : List String
  currentSession : Option Session
  nextPlayer : Nat
  document : Document
  userDocument : UserDocument
  deriving DecidableEq, Repr

/-- `initWithRemoteAudioName:` for a reference of the document, if it has one. -/
def World.remoteAudio (w : World) (audioName : String) : Option AudioURL → Option Audio × World
  | none => (none, w)
  | some url =>
    (some ⟨audioName, w.user.uid, w.user.username, some url, w.nextPlayer⟩,
      { w with nextPlayer := w.nextPlayer + 1 })

/-- `joinSession:`, from the document its query found, all writes succeeding. -/
def joinSessionFound (documentID : String) (w : World) : World × Shown :=
  let document := w.document
  let (clickTrackAudio, w) := w.remoteAudio "click-track.wav" document.clickTrackRef
  let (mergedAudio, w) := w.remoteAudio "merged-song.wav" document.finalMergedResultRef
  let checker := !document.currentPlayerList.contains w.user.uid
  let cpl :=
    if checker then document.currentPlayerList.addPlayer w.user.username w.user.uid
    else document.currentPlayerList
  let sn : Session :=
    { uid := documentID
      sessionName := document.sessionName
      hostUid := document.hostUid
      guestPlayerList := document.guestPlayerList
      clickTrack := clickTrackAudio
      recordedAudioDict := document.recordedAudioDict
      finalMergedResult := mergedAudio
      hostStartRecording := false
      currentPlayerList := cpl }
  let w := { w with currentSession := some sn }
  if checker then
    let w := { w with document := { document with currentPlayerList := cpl } }
    if !w.joinedSessions.contains documentID then
      let userDocument :=
        { w.userDocument with
          joinedSessions := arrayUnion w.userDocument.joinedSessions documentID }
      -- the array is a live proxy of the key that is removed before it is stored
      let w := { w with userDocument, joinedSessions := [] }
      (w, Screen.joinSessionDetail.performSegue "joinSessionRecording")
    else (w, Screen.joinSessionDetail.performSegue "joinSessionRecording")
  else (w, Screen.joinSessionDetail.performSegue "joinSessionRecording")

/-- `joinPastSession:`, from the document it fetched, all writes succeeding. -/
def joinPastSessionFound (documentID : String) (w : World) : World × Shown :=
  let document := w.document
  let (clickTrackAudio, w) := w.remoteAudio "click-track.wav" document.clickTrackRef
  let (mergedAudio, w) := w.remoteAudio "merged-song.wav" document.finalMergedResultRef
  let checker := !document.currentPlayerList.contains w.user.uid
  let cpl :=
    if checker then document.currentPlayerList.addPlayer w.user.username w.user.uid
    else document.currentPlayerList
  let sn : Session :=
    { uid := documentID
      sessionName := document.sessionName
      hostUid := document.hostUid
      guestPlayerList := document.guestPlayerList
      clickTrack := clickTrackAudio
      recordedAudioDict := document.recordedAudioDict
      finalMergedResult := mergedAudio
      hostStartRecording := false
      currentPlayerList := cpl }
  let w := { w with currentSession := some sn }
  if checker then
    let w := { w with document := { document with currentPlayerList := cpl } }
    if !w.joinedSessions.contains documentID then
      let userDocument :=
        { w.userDocument with
          joinedSessions := arrayUnion w.userDocument.joinedSessions documentID }
      -- the array is a live proxy of the key that is removed before it is stored
      let w := { w with userDocument, joinedSessions := [] }
      (w, Screen.viewPastSessions.performSegue "joinSessionRecording")
    else (w, Screen.viewPastSessions.performSegue "joinPastSessionRecording")
  else (w, Screen.viewPastSessions.performSegue "joinPastSessionRecording")

/-! ### What the two do -/

/-- The user is in no list yet: neither the session's nor the phone's own. -/
def World.FirstJoin (w : World) (documentID : String) : Prop :=
  w.document.currentPlayerList.contains w.user.uid = false ∧
    w.joinedSessions.contains documentID = false

instance (w : World) (documentID : String) : Decidable (w.FirstJoin documentID) :=
  inferInstanceAs (Decidable (_ ∧ _))

theorem remoteAudio_frame (w : World) (audioName : String) (url : Option AudioURL) :
    (w.remoteAudio audioName url).2.user = w.user ∧
      (w.remoteAudio audioName url).2.joinedSessions = w.joinedSessions := by
  cases url <;> exact ⟨rfl, rfl⟩

theorem shown_joinSessionFound (documentID : String) (w : World) :
    (joinSessionFound documentID w).2 = recordingScreen := by
  have hsegue : Screen.joinSessionDetail.performSegue "joinSessionRecording" =
      recordingScreen := by decide
  simp only [joinSessionFound]
  split_ifs <;> exact hsegue

/-- The first join from the list performs the other scene's segue. -/
theorem shown_joinPastSessionFound (documentID : String) (w : World) :
    (joinPastSessionFound documentID w).2 =
      if w.FirstJoin documentID then .raised else recordingScreen := by
  have hown : Screen.viewPastSessions.performSegue "joinPastSessionRecording" =
      recordingScreen := by decide
  have hother : Screen.viewPastSessions.performSegue "joinSessionRecording" = .raised := by decide
  cases hroster : w.document.currentPlayerList.contains w.user.uid <;>
    by_cases hlist : documentID ∈ w.joinedSessions <;>
      simp [joinPastSessionFound, remoteAudio_frame, World.FirstJoin, hroster, hlist, hown, hother]

theorem world_joinPastSessionFound (documentID : String) (w : World) :
    (joinPastSessionFound documentID w).1 = (joinSessionFound documentID w).1 := by
  simp only [joinSessionFound, joinPastSessionFound]
  split_ifs <;> rfl

/-- The two leave the same world and show the recording screen, exactly if the
user is in one of the lists already. -/
theorem same_join_iff (documentID : String) (w : World) :
    ((joinSessionFound documentID w).1 = (joinPastSessionFound documentID w).1 ∧
      (joinSessionFound documentID w).2 = recordingScreen ∧
      (joinPastSessionFound documentID w).2 = recordingScreen) ↔
      (∃ p ∈ w.document.currentPlayerList, p.uid = w.user.uid) ∨
        documentID ∈ w.joinedSessions := by
  rw [← Roster.contains_eq_true, world_joinPastSessionFound, shown_joinSessionFound,
    shown_joinPastSessionFound]
  have hdiffer : Shown.raised ≠ recordingScreen := by decide
  cases hroster : w.document.currentPlayerList.contains w.user.uid <;>
    by_cases hlist : documentID ∈ w.joinedSessions <;>
      simp [World.FirstJoin, hroster, hlist, hdiffer]

/-- The user is in neither list: joining by name works, from the list it raises. -/
theorem first_join_raises :
    let w : World :=
      { user := ⟨"u", "ann"⟩, joinedSessions := [], currentSession := none, nextPlayer := 0
        document := ⟨"jam", "h", [], some .empty, [], some .empty, false, [⟨"bob", "h", false⟩]⟩
        userDocument := ⟨"ann", []⟩ }
    (joinSessionFound "s" w).2 = recordingScreen ∧ (joinPastSessionFound "s" w).2 = .raised := by
  decide

/-! ### Against the model of joins -/

/-- A document with both references. -/
def Document.ofStored (d : SessionDocument) : Document where
  sessionName := d.sessionName
  hostUid := d.hostUid
  guestPlayerList := d.guestPlayerList
  clickTrackRef := some d.clickTrackRef
  recordedAudioDict := d.recordedAudioDict
  finalMergedResultRef := some d.finalMergedResultRef
  hostStartRecording := d.hostStartRecording
  currentPlayerList := d.currentPlayerList

def World.of (app : App) (d : SessionDocument) (u : UserDocument) : World where
  user := app.user
  joinedSessions := app.joinedSessions
  currentSession := app.currentSession
  nextPlayer := app.nextPlayer
  document := .ofStored d
  userDocument := u

/-- Both copies do what `App.joinFound` does when its writes succeed, with the
segue that it names. -/
theorem joinFound_refines {net : Network} (hroster : net.rosterWrite = true)
    (huser : net.userWrite = true) (first again sid : String) {app : App} {db : Database}
    {d : SessionDocument} {u : UserDocument} (hd : db.sessions.find? sid = some d)
    (hu : db.users.find? app.user.uid = some u) :
    let w := (joinSessionFound sid (World.of app d u)).1
    let (outcome, app', db') := app.joinFound net first again sid d db
    w.currentSession = app'.currentSession ∧ w.joinedSessions = app'.joinedSessions ∧
      w.nextPlayer = app'.nextPlayer ∧
      db'.sessions.find? sid = some { d with currentPlayerList := w.document.currentPlayerList } ∧
      db'.users.find? app.user.uid = some w.userDocument ∧
      outcome = .entered (if (World.of app d u).FirstJoin sid then first else again) := by
  have hwrite (l : Roster) : (db.writeRoster sid l).sessions.find? sid =
      some { d with currentPlayerList := l } := by
    rw [find?_writeRoster, if_pos rfl, hd]
    rfl
  have husers (l : Roster) : (db.writeRoster sid l).users.find? app.user.uid = some u := hu
  cases hin : d.currentPlayerList.contains app.user.uid with
  | true =>
      by_cases hlist : sid ∈ app.joinedSessions <;>
        simp [joinSessionFound, World.of, Document.ofStored, World.remoteAudio, World.FirstJoin,
          App.joinFound, App.install, SessionDocument.joined, Roster.join, hin, hlist, hd, hu]
  | false =>
      by_cases hlist : sid ∈ app.joinedSessions <;>
        simp [joinSessionFound, World.of, Document.ofStored, World.remoteAudio, World.FirstJoin,
          App.joinFound, App.install, SessionDocument.joined, Roster.join, hroster, huser, hin,
          hlist, hwrite, husers, Collection.find?_update]

end Tootti.SameJoin
