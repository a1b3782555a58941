import Tootti.Machine.Budget
import Tootti.System.References

/-!
How many calls the app makes.

A tap begins a chain of calls: each is sent when the answer to the one before
it has come. A join makes the most of them: it leaves the session before it,
looks for the host and for the session, enters the list of players, and keeps
the session in the user's document. Listeners go on for as long as the app runs
and are not counted. The one call that a listener itself can lead to is a flag,
of a session of the user's own that it has brought up
(`RecordingScreen.requests_followHost`); it is the action
`sessionRecordingStatusUpdate`, as the record button's is, and is counted as one.

What a sign-up, a sign-in or an uploaded file asks of the services in a row, with
nothing of the app's in between, is one call here. The files that an Audio is made
from are read from their URLs at once, which is no call to the services.
-/

namespace Tootti.Traffic

open Machine

/-- The longest chain of calls that it begins, itself included. -/
def Request.calls : Request → ℕ
  | .listen _ _ => 0
  | .createAccount _ | .login _ | .joined _ _ | .refresh _ _ | .update _ _ => 1
  | .enter _ _ _ | .addSession _ _ | .file _ _ => 2
  | .session _ _ _ | .pastSession _ _ | .duplicates _ _ => 3
  | .host _ _ _ => 4

def Request.isListener : Request → Bool
  | .listen _ _ => true
  | _ => false

def Action.calls : Action → ℕ
  | .viewDidLoad _ | .viewWillAppear _ => 0
  | .createAccount _ | .login _ | .updateUsersStatus _ _ | .handleBackgroundStatus _ | .refresh _
  | .sessionRecordingStatusUpdate _ _ => 1
  | .logOutTapped _ | .handleForegroundStatus _ _ | .commitEditing _ _ | .uploadClickTrack _ _
  | .uploadMerge _ _ => 2
  | .createNewSession _ => 3
  | .joinPastSession _ _ => 4
  | .joinSession _ _ => 5
  | .confirmTracks _ _ selectedRecordings => 2 * selectedRecordings.length

/-- Listeners aside, which are not counted. -/
def calls : Protocol.Budget Request Action := ⟨Request.calls, Action.calls⟩

theorem calls_eq_zero_iff (q : Request) : q.calls = 0 ↔ q.isListener := by
  cases q <;> simp [Request.calls, Request.isListener]

/-! ### What a client sends -/

namespace Client

variable {c c' : Client} {l : List Request}

@[simp] theorem total_nil : calls.total [] = 0 := rfl

@[simp] theorem total_cons (q : Request) (l : List Request) :
    calls.total (q :: l) = q.calls + calls.total l := rfl

@[simp] theorem total_append (l m : List Request) :
    calls.total (l ++ m) = calls.total l + calls.total m := by
  simp [Protocol.Budget.total]

theorem total_sendRoster_le {r : Option Nat} {f : Roster → Option Roster}
    (h : c.sendRoster r f = some (c', l)) : calls.total l ≤ 1 := by
  obtain ⟨-, rfl⟩ | ⟨s, players, -, -, -, rfl⟩ := sendRoster_eq_some h
  · exact Nat.zero_le 1
  · exact le_rfl

theorem total_leaveOther_le {name : String} (h : c.leaveOther name = some (c', l)) :
    calls.total l ≤ 1 := by
  obtain ⟨-, rfl⟩ | hleft := leaveOther_eq_some h
  · exact Nat.zero_le 1
  · exact total_sendRoster_le hleft

theorem total_map_file (s : Session) (f : Audio → TrackSync.Write) (recordings : List Audio) :
    calls.total (recordings.map fun a => .file s.uid (f a)) = 2 * recordings.length := by
  induction recordings with
  | nil => rfl
  | cons a recordings ih =>
      rw [List.map_cons, total_cons, ih, List.length_cons, Request.calls]
      omega

theorem total_act_le {a : Action} (h : c.act a = some (c', l)) : calls.total l ≤ a.calls := by
  cases a with
  | createAccount username | login uid | viewWillAppear k =>
      obtain ⟨rfl, rfl⟩ := Prod.mk.inj (Option.some.inj h)
      exact le_rfl
  | logOutTapped home =>
      obtain ⟨c₁, first, c₂, second, hfirst, hsecond, -, rfl⟩ := logOutTapped_eq_some h
      rw [total_append]
      exact Nat.add_le_add (total_sendRoster_le hfirst) (total_sendRoster_le hsecond)
  | createNewSession sessionName =>
      obtain ⟨u, -, -, rfl⟩ := createNewSession_eq_some h
      exact le_rfl
  | joinSession sessionCode hostName =>
      obtain ⟨u, left, -, hleft, rfl⟩ := joinSession_eq_some h
      rw [total_append]
      exact Nat.add_le_add_right (total_leaveOther_le hleft) 4
  | joinPastSession sid sessionName =>
      obtain ⟨u, left, -, hleft, rfl⟩ := joinPastSession_eq_some h
      rw [total_append]
      exact Nat.add_le_add_right (total_leaveOther_le hleft) 3
  | viewDidLoad tab =>
      obtain ⟨-, rfl⟩ := Prod.mk.inj (Option.some.inj h)
      split
      · exact le_rfl
      · split <;> exact le_rfl
  | updateUsersStatus k status =>
      have hsent : c.updateStatus (c.cached k) status = some (c', l) := h
      exact total_sendRoster_le hsent
  | handleBackgroundStatus k =>
      have hsent : c.updateActivity (c.cached k) false = some (c', l) := h
      exact total_sendRoster_le hsent
  | handleForegroundStatus k status =>
      obtain ⟨c₁, first, second, hfirst, hsecond, rfl⟩ := handleForegroundStatus_eq_some h
      rw [total_append]
      exact Nat.add_le_add (total_sendRoster_le hfirst) (total_sendRoster_le hsecond)
  | confirmTracks k library selectedRecordings =>
      obtain ⟨u, s, -, -, -, rfl⟩ := confirmTracks_eq_some h
      exact (total_map_file s _ selectedRecordings).le
  | commitEditing k i =>
      obtain ⟨s, d, phone, -, -, -, rfl⟩ := commitEditing_eq_some h
      exact le_rfl
  | refresh k =>
      obtain ⟨s, -, -, rfl⟩ := refresh_eq_some h
      exact le_rfl
  | sessionRecordingStatusUpdate k status | uploadClickTrack k url | uploadMerge k url =>
      obtain ⟨s, -, -, rfl⟩ := send_eq_some h
      exact le_rfl

theorem total_found_le (user : User) (sid : String) (d : SessionDocument) :
    calls.total (c.found user sid d).2 ≤ 2 := by
  rw [found]
  split
  · exact Nat.zero_le 2
  · exact le_rfl

/-- The call that comes after an answer, if any, is nearer the end of its
chain, and a listener is followed by itself. -/
theorem total_receive_le {m : JoinedSessions.MissingKey} {q : Request} {a : Answer}
    (h : c.receive m q a = some (c', l)) : calls.total l ≤ q.calls - 1 := by
  cases receive_cases h with
  | session user sessionName hostUid sid d => exact total_found_le user sid d
  | pastSession user sid d => exact total_found_le user sid d
  | enter user sid players w hw =>
      cases w with
      | none => exact Nat.zero_le 1
      | some w => exact le_rfl
  | ignored => exact Nat.zero_le _
  | login | host | joined | duplicates | added | snapshot | listen | refreshNone | refresh | file
  | deleted => exact le_rfl

end Client

theorem keeps_calls (m : JoinedSessions.MissingKey) : calls.KeptBy (app m) where
  act := Client.total_act_le
  receive := Client.total_receive_le

/-! ### Every run -/

section Runs

variable {P : Type*} [DecidableEq P]

omit [DecidableEq P] in
theorem due_initial : calls.due (initial : State P) = 0 := rfl

end Runs

end Tootti.Traffic
