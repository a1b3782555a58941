import Tootti.Model.Join
import Tootti.Sync.Tracks

/-!
What the screens read of a session document.

`saveSessionToDatabase:` writes a document, roster writes, uploads, merges and
the host's flag change its fields, and three functions make a Session object
of it by hand. The two joins read the references `clickTrackRef` and
`finalMergedResultRef` and set the flag to `NO`. `refresh:` of the Merge
screen asks for the keys `clickTrack` and `finalMergedResult`, which no
document has, and passes the flag's object where its value is expected.
-/

namespace Tootti.Readers

open Machine

inductive Reader
  | joinSession
  | joinPastSession
  | refresh
  deriving DecidableEq, Repr

/-- The Session a reader makes of the document for the user. The Audios of a
join get the players `player` and `player + 1`. -/
def Reader.read (u : User) (player : Nat) (sid : String) (d : SessionDocument) :
    Reader → Session
  | .joinSession | .joinPastSession =>
      d.joined sid u player (Roster.join u.username u.uid d.currentPlayerList)
  | .refresh => Phone.refreshedSession sid d

inductive Field
  | uid
  | sessionName
  | hostUid
  | guestPlayerList
  | recordedAudioDict
  | currentPlayerList
  | hostStartRecording
  | clickTrack
  | finalMergedResult
  deriving DecidableEq, Repr

/-- The field of the object says what the document `d` under `sid` says, up
to the entries of the user who reads. -/
def Field.Right (f : Field) (reader : String) (sid : String) (d : SessionDocument)
    (s : Session) : Prop :=
  match f with
  | .uid => s.uid = sid
  | .sessionName => s.sessionName = d.sessionName
  | .hostUid => s.hostUid = d.hostUid
  | .guestPlayerList => s.guestPlayerList = d.guestPlayerList
  | .recordedAudioDict => s.recordedAudioDict = d.recordedAudioDict
  | .currentPlayerList => Roster.AgreeExcept reader s.currentPlayerList d.currentPlayerList
  | .hostStartRecording => s.hostStartRecording = d.hostStartRecording
  | .clickTrack => s.clickTrack.bind Audio.audioURL = some d.clickTrackRef
  | .finalMergedResult => s.finalMergedResult.bind Audio.audioURL = some d.finalMergedResultRef

/-- The field says the same in two objects. -/
def Field.Same (f : Field) (reader : String) (s t : Session) : Prop :=
  match f with
  | .uid => s.uid = t.uid
  | .sessionName => s.sessionName = t.sessionName
  | .hostUid => s.hostUid = t.hostUid
  | .guestPlayerList => s.guestPlayerList = t.guestPlayerList
  | .recordedAudioDict => s.recordedAudioDict = t.recordedAudioDict
  | .currentPlayerList => Roster.AgreeExcept reader s.currentPlayerList t.currentPlayerList
  | .hostStartRecording => s.hostStartRecording = t.hostStartRecording
  | .clickTrack => s.clickTrack.bind Audio.audioURL = t.clickTrack.bind Audio.audioURL
  | .finalMergedResult =>
      s.finalMergedResult.bind Audio.audioURL = t.finalMergedResult.bind Audio.audioURL

/-- All readers agree with the document and with each other. -/
structure Agree (u : User) (player : Nat) (sid : String) (d : SessionDocument) : Prop where
  document : ∀ (r : Reader) (f : Field), f.Right u.uid sid d (r.read u player sid d)
  others : ∀ (r q : Reader) (f : Field),
    f.Same u.uid (r.read u player sid d) (q.read u player sid d)

/-- The document after a Session was saved and the fields written. -/
def written (s : Session) (ws : List TrackSync.Write) : SessionDocument :=
  ws.foldl (fun d w => w.apply d) s.docData

/-! ### The readers in the app -/

section Operations

variable {u : User} {player : Nat} {sid : String} {d : SessionDocument}

theorem currentSession_install (app : App) :
    (app.install sid d).currentSession =
      some (Reader.joinSession.read app.user app.nextPlayer sid d) := rfl

theorem session?_joinSession (p : Phone) :
    let p' := p.joinSession sid d
    p'.session? p'.currentSession = some (Reader.joinPastSession.read p.user p.nextPlayer sid d) :=
  List.getElem?_concat_length

theorem session?_finishRefresh (p : Phone) (k : Nat) :
    let p' := p.finishRefresh k sid d
    p'.session? p'.currentSession = some (Reader.refresh.read p.user p.nextPlayer sid d) :=
  List.getElem?_concat_length

/-! ### Field by field -/

/-- Whether a reader gets a field right, of a document with the flag
`status`. -/
def Field.readBy (status : Bool) : Reader → Field → Bool
  | .joinSession, .hostStartRecording | .joinPastSession, .hostStartRecording => !status
  | .refresh, .hostStartRecording => status
  | .refresh, .clickTrack | .refresh, .finalMergedResult => false
  | _, _ => true

theorem agreeExcept_join (l : Roster) : Roster.AgreeExcept u.uid (l.join u.username u.uid) l :=
  fun _ h => Roster.entriesOf_join_of_ne h

theorem right_iff (r : Reader) (f : Field) :
    f.Right u.uid sid d (r.read u player sid d) ↔ f.readBy d.hostStartRecording r := by
  have hjoin := agreeExcept_join (u := u) d.currentPlayerList
  have hsame : Roster.AgreeExcept u.uid d.currentPlayerList d.currentPlayerList := fun _ _ => rfl
  cases r with
  | joinSession | joinPastSession =>
      cases f with
      | currentPlayerList => exact iff_of_true hjoin rfl
      | hostStartRecording =>
          show false = d.hostStartRecording ↔ !d.hostStartRecording
          cases d.hostStartRecording <;> simp
      | _ => exact iff_of_true rfl rfl
  | refresh =>
      cases f with
      | currentPlayerList => exact iff_of_true hsame rfl
      | hostStartRecording => exact eq_comm
      | clickTrack | finalMergedResult =>
          exact iff_of_false (Option.some_ne_none _).symm Bool.false_ne_true
      | _ => exact iff_of_true rfl rfl

end Operations

/-- No document is read alike. A refresh has no click track and no mix, and
takes the host to be recording where a join takes it not to be. -/
theorem readers_disagree (s : Session) (ws : List TrackSync.Write) (u : User) (player : Nat)
    (sid : String) :
    let d := written s ws
    ¬ Agree u player sid d ∧
      ¬ (∀ (r : Reader) (f : Field), f.Right u.uid sid d (r.read u player sid d)) ∧
      ¬ ∀ (r q : Reader) (f : Field),
        f.Same u.uid (r.read u player sid d) (q.read u player sid d) := by
  intro d
  have hdocument : ¬ ∀ (r : Reader) (f : Field), f.Right u.uid sid d (r.read u player sid d) := by
    intro h
    exact Bool.false_ne_true ((right_iff .refresh .clickTrack).mp (h .refresh .clickTrack))
  refine ⟨fun h => hdocument h.document, hdocument, fun h => ?_⟩
  exact Bool.false_ne_true (h .joinSession .refresh .hostStartRecording)

/-- A guest joins a session with a click track, and refreshes the tracks. -/
theorem refresh_drops_click_track :
    ¬ ∀ (s : Session) (ws : List TrackSync.Write) (u : User) (player : Nat) (sid : String),
      Agree u player sid (written s ws) := by
  intro h
  let u : User := ⟨"a", "ann"⟩
  let s : Session := createdSession ⟨"h", "host"⟩ "s" "song"
  have hagree := h s [.clickTrackRef (.download "h/s/click")] u 0 "s"
  exact Option.some_ne_none _ (hagree.document .refresh .clickTrack).symm

end Tootti.Readers
