import Tootti.System.References

/-!
The lists of joined sessions, on all phones and in all accounts.

A user's list is in the user's document and on each phone on which the user has
logged in. A join adds its session to the one in the document if that lacks it. A
new session is put at the end of what the phone has stored when it is told of
the session, and the list so made is written over the one in the document.
-/

namespace Tootti.Traffic

open Machine Protocol

def DatabaseLists (v : Database) : Prop :=
  ∀ uid u, v.users.find? uid = some u → u.joinedSessions.Nodup

def ClientLists (c : Client) : Prop := ∀ l ∈ c.joinedSessions, l.Nodup

def RequestLists : Request → Prop
  | .joined _ (.list base sid) => (base ++ [sid]).Nodup
  | _ => True

def AnswerLists : Answer → Prop
  | .user (some u) => u.joinedSessions.Nodup
  | _ => True

/-- No list has a session twice, be it on a phone, in a document, or on its way to
either. -/
def lists : Reading Database Client Request Answer where
  grows _ _ := True
  server := DatabaseLists
  client _ := ClientLists
  request _ := RequestLists
  answer _ _ := AnswerLists

/-- The phone has not stored the session that it is told it has created. -/
def Unstored (c : Client) : Request → Answer → Prop
  | .addSession _ _, .added sid => ∀ l ∈ c.joinedSessions, sid ∉ l
  | _, _ => True

section Lists

variable {v w : Database} {c c' : Client} {q : Request} {a : Answer} {l : List Request}
  {r : Option Nat} {k : Nat}

/-! ### What a user does -/

theorem lists_sendRoster {f : Roster → Option Roster} (hc : ClientLists c)
    (hsent : c.sendRoster r f = some (c', l)) : Leaves ClientLists RequestLists c' l := by
  obtain ⟨rfl, rfl⟩ | ⟨s, players, -, -, rfl, rfl⟩ := Client.sendRoster_eq_some hsent
  · exact .quiet hc
  · exact .single hc trivial

theorem lists_leaveOther {name : String} (hc : ClientLists c)
    (hleft : c.leaveOther name = some (c', l)) : Leaves ClientLists RequestLists c' l := by
  obtain ⟨rfl, rfl⟩ | hleft := Client.leaveOther_eq_some hleft
  · exact .quiet hc
  · exact lists_sendRoster hc hleft

theorem lists_act {a : Action} (hc : ClientLists c) (hact : c.act a = some (c', l)) :
    Leaves ClientLists RequestLists c' l := by
  cases a with
  | createAccount username | login uid =>
      obtain ⟨rfl, rfl⟩ := Prod.mk.inj (Option.some.inj hact)
      exact .single hc trivial
  | logOutTapped home =>
      obtain ⟨c₁, first, c₂, second, hfirst, hsecond, rfl, rfl⟩ := Client.logOutTapped_eq_some hact
      obtain ⟨hc₁, hl₁⟩ := lists_sendRoster hc hfirst
      obtain ⟨-, hl₂⟩ := lists_sendRoster hc₁ hsecond
      exact .append hl₁ ⟨fun _ hl => absurd hl (Option.not_mem_none _), hl₂⟩
  | createNewSession sessionName =>
      obtain ⟨u, -, rfl, rfl⟩ := Client.createNewSession_eq_some hact
      exact .single hc trivial
  | joinSession sessionCode hostName =>
      obtain ⟨u, left, -, hleft, rfl⟩ := Client.joinSession_eq_some hact
      obtain ⟨hc', hl⟩ := lists_leaveOther hc hleft
      exact .append hl (.single hc' trivial)
  | joinPastSession sid sessionName =>
      obtain ⟨u, left, -, hleft, rfl⟩ := Client.joinPastSession_eq_some hact
      obtain ⟨hc', hl⟩ := lists_leaveOther hc hleft
      exact .append hl (.single hc' trivial)
  | viewDidLoad tab =>
      obtain ⟨rfl, rfl⟩ := Prod.mk.inj (Option.some.inj hact)
      split
      · exact .quiet hc
      · split
        · exact .quiet hc
        · exact .single hc trivial
  | viewWillAppear k =>
      obtain ⟨rfl, rfl⟩ := Prod.mk.inj (Option.some.inj hact)
      exact .quiet hc
  | updateUsersStatus k status =>
      have hsent : c.updateStatus (c.cached k) status = some (c', l) := hact
      exact lists_sendRoster hc hsent
  | handleBackgroundStatus k =>
      have hsent : c.updateActivity (c.cached k) false = some (c', l) := hact
      exact lists_sendRoster hc hsent
  | handleForegroundStatus k status =>
      obtain ⟨c₁, first, second, hfirst, hsecond, rfl⟩ :=
        Client.handleForegroundStatus_eq_some hact
      obtain ⟨hc₁, hl₁⟩ := lists_sendRoster hc hfirst
      exact .append hl₁ (lists_sendRoster hc₁ hsecond)
  | confirmTracks k library selectedRecordings =>
      obtain ⟨u, s, -, -, rfl, rfl⟩ := Client.confirmTracks_eq_some hact
      refine ⟨hc, fun q hq => ?_⟩
      obtain ⟨a, -, rfl⟩ := List.mem_map.mp hq
      trivial
  | commitEditing k i =>
      obtain ⟨s, d, phone, -, -, rfl, rfl⟩ := Client.commitEditing_eq_some hact
      exact .single hc trivial
  | refresh k =>
      obtain ⟨s, -, rfl, rfl⟩ := Client.refresh_eq_some hact
      exact .single hc trivial
  | sessionRecordingStatusUpdate k status | uploadClickTrack k url | uploadMerge k url =>
      obtain ⟨s, -, rfl, rfl⟩ := Client.send_eq_some hact
      exact .single hc trivial

/-! ### What an answer brings -/

theorem lists_found {user : User} {sid : String} {d : SessionDocument} (hc : ClientLists c) :
    Leaves ClientLists RequestLists (c.found user sid d).1 (c.found user sid d).2 := by
  rw [Client.found]
  split
  · exact .quiet hc
  · exact .single hc trivial

/-- A completed creation stores the list that was written, a completed join
nothing. -/
theorem nodup_complete {m : JoinedSessions.MissingKey} {x : JoinedSessions.Write}
    {stored stored' : JoinedSessions.Stored} {uid : String} (hx : RequestLists (.joined uid x))
    (h : x.complete m stored = some stored') : ∀ l ∈ stored', l.Nodup := by
  intro l hl
  cases x with
  | list base sid =>
      obtain rfl := Option.some.inj h
      obtain rfl := Option.some.inj hl
      exact hx
  | arrayUnion sid =>
      have hnone : ∀ x, x ∉ l := by
        intro x hmem
        obtain rfl := Option.mem_def.mp hl
        have hcompleted :
            x ∈ (((JoinedSessions.Write.arrayUnion sid).complete m stored).getD none).getD [] := by
          rwa [h]
        obtain ⟨base, added, hlist, -⟩ := Devices.mem_complete.mp hcompleted
        cases hlist
      rw [List.eq_nil_iff_forall_not_mem.mpr hnone]
      exact List.nodup_nil

theorem requestLists_createWrite {uid sid : String} (hc : ClientLists c) :
    RequestLists (.joined uid (JoinedSessions.createWrite sid c.joinedSessions)) ↔
      ∀ l ∈ c.joinedSessions, sid ∉ l := by
  show (c.joinedSessions.getD [] ++ [sid]).Nodup ↔ _
  cases hl : c.joinedSessions with
  | none => simp
  | some stored =>
      have hstored : stored.Nodup := hc stored hl
      show (stored ++ [sid]).Nodup ↔ _
      rw [← List.concat_eq_append, List.nodup_concat, and_iff_left hstored]
      exact ⟨fun h l hl => Option.some.inj hl ▸ h, fun h => h stored rfl⟩

theorem lists_receive_iff {m : JoinedSessions.MissingKey} (hc : ClientLists c)
    (hq : RequestLists q) (ha : AnswerLists a) (hreceive : c.receive m q a = some (c', l)) :
    Leaves ClientLists RequestLists c' l ↔ Unstored c q a := by
  cases Client.receive_cases hreceive with
  | login uid u =>
      refine iff_of_true (.quiet fun l hl => ?_) trivial
      obtain rfl := Option.some.inj hl
      exact ha
  | session user sessionName hostUid sid d => exact iff_of_true (lists_found hc) trivial
  | pastSession user sid d => exact iff_of_true (lists_found hc) trivial
  | enter user sid players w hw =>
      refine iff_of_true ⟨hc, fun q hq => ?_⟩ trivial
      -- a join's write is an array union
      obtain ⟨y, hy, rfl⟩ := List.mem_map.mp hq
      obtain ⟨stored, -, hsent⟩ := Option.map_eq_some_iff.mp hw
      rw [← hsent] at hy
      split at hy
      · exact absurd hy List.not_mem_nil
      · obtain rfl := List.mem_singleton.mp hy
        trivial
  | joined uid w stored hstored => exact iff_of_true (.quiet (nodup_complete hq hstored)) trivial
  | added user sessionName sid =>
      rw [Unstored, ← requestLists_createWrite hc]
      exact ⟨fun h => h.2 _ List.mem_cons_self, fun h => .single hc h⟩
  | refreshNone | refresh => exact iff_of_true (.quiet hc) trivial
  | deleted sid k i d a phone hphone => exact iff_of_true (.quiet hc) trivial
  | ignored q a hignored =>
      refine iff_of_true (.quiet hc) ?_
      unfold Unstored
      split
      · cases hignored
      · trivial
  | host | duplicates | snapshot | listen | file => exact iff_of_true (.single hc trivial) trivial

theorem unstored_of_receive_eq_none {m : JoinedSessions.MissingKey}
    (h : c.receive m q a = none) : Unstored c q a := by
  unfold Unstored
  split
  · exact absurd h (Option.some_ne_none _)
  · trivial

/-! ### What the server does -/

theorem lists_updateSession {sid : String} {f : SessionDocument → SessionDocument}
    (hv : DatabaseLists v)
    (h : updateSession v sid f = (w, a)) : DatabaseLists w ∧ AnswerLists a := by
  rw [updateSession] at h
  split at h
  · obtain ⟨rfl, rfl⟩ := Prod.mk.inj h
    exact ⟨hv, trivial⟩
  · obtain ⟨rfl, rfl⟩ := Prod.mk.inj h
    exact ⟨hv, trivial⟩

theorem lists_updateUser {f : List String → List String} {uid : String}
    (hv : DatabaseLists v) (hf : ∀ l, l.Nodup → (f l).Nodup)
    (h : updateUser v uid (fun u => { u with joinedSessions := f u.joinedSessions }) = (w, a)) :
    DatabaseLists w ∧ AnswerLists a := by
  rw [updateUser] at h
  split at h
  · obtain ⟨rfl, rfl⟩ := Prod.mk.inj h
    refine ⟨fun j u hu => ?_, trivial⟩
    rw [Collection.find?_update] at hu
    split at hu
    · obtain ⟨u', hu', rfl⟩ := Option.map_eq_some_iff.mp hu
      exact hf u'.joinedSessions (hv j u' hu')
    · exact hv j u hu
  · obtain ⟨rfl, rfl⟩ := Prod.mk.inj h
    exact ⟨hv, trivial⟩

theorem lists_serve {choice : Option String} (hv : DatabaseLists v) (hq : RequestLists q)
    (h : serve v q choice = some (w, a)) : DatabaseLists w ∧ AnswerLists a := by
  cases serve_cases h with
  | login uid =>
      refine ⟨hv, ?_⟩
      cases hu : v.users.find? uid with
      | none => trivial
      | some u => exact hv uid u hu
  | createAccount username id w hw =>
      obtain ⟨hfree, heq⟩ := Option.dite_none_right_eq_some.mp hw
      obtain rfl := Option.some.inj heq
      refine ⟨fun j u hu => ?_, trivial⟩
      rcases (Collection.find?_insert_eq_some hfree).mp hu with ⟨-, rfl⟩ | hu
      · exact List.nodup_nil
      · exact hv j u hu
  | enter user sid l w a hupdate => exact lists_updateSession hv hupdate
  | update sid k w a hupdate => exact lists_updateSession hv hupdate
  | joined uid k w a hupdate =>
      refine lists_updateUser hv (fun l hl => ?_) hupdate
      cases k with
      | list base sid => exact hq
      | arrayUnion sid => exact nodup_arrayUnion hl sid
  | failed | host | session | pastSession | listen | refresh | duplicates | addSession | file =>
      exact ⟨hv, trivial⟩

end Lists

/-! ### Every run -/

theorem keptWhen_lists (m : JoinedSessions.MissingKey) : lists.KeptWhen (app m) Unstored where
  client_grows _ hc := hc
  request_grows _ hq := hq
  answer_grows _ ha := ha
  act := lists_act
  serve hv hq h :=
    have ⟨hw, ha⟩ := lists_serve hv hq h
    ⟨hw, trivial, ha⟩
  receive_iff := lists_receive_iff
  raises := unstored_of_receive_eq_none
  ended hc := hc

theorem lists_initial {P : Type*} : lists.Holds (initial : State P) where
  server _ _ hu := by simp [initial, Creation.initial, Collection.find?] at hu
  clients _ _ hl := absurd hl (Option.not_mem_none _)
  requests _ hm := absurd hm List.not_mem_nil
  answers _ hm := absurd hm List.not_mem_nil

/-- In a run of any phones, whatever is done between the calls, fails or is never
answered, no list of joined sessions gets a session twice if and only if no phone
is told that it has created a session which is already in what it has stored. -/
theorem lists_distinct_iff {P : Type*} [DecidableEq P] (m : JoinedSessions.MissingKey)
    (es : List (Protocol.Event P Action (Option String))) :
    EveryStep (app m).step (fun _ _ t => lists.Holds t) initial es ↔
      Meets (app m).step (Reading.Given Unstored) initial es :=
  Reading.everyStep_holds_iff (keptWhen_lists m) lists_initial es

/-- Bob joins the session that Ann creates, and logs in on her phone before that
is told of the session. -/
def bobTakesPhone : List (Protocol.Event Bool Action (Option String)) :=
  .act false (.createAccount "ann") :: served "a" ++
  .act true (.createAccount "bob") :: served "b" ++
  .act false (.login "a") :: served "" ++
  .act true (.login "b") :: served "" ++
  .act false (.createNewSession "jam") :: served "" ++
  [.serve 0 (some "s"), .act true (.joinSession "jam" "ann"),
    .serve 0 (some ""), .receive 1, .serve 0 (some ""), .receive 1,
    .serve 0 (some ""), .receive 1, .serve 0 (some ""), .receive 1,
    .act false (.logOutTapped none), .act false (.login "b"), .serve 0 (some ""), .receive 1] ++
  [.receive 0, .serve 0 (some "")]

example : ((run (app .empty).step initial bobTakesPhone).bind fun s =>
    s.server.users.find? "a") = some ⟨"ann", ["s", "s"]⟩ := by decide

end Tootti.Traffic
