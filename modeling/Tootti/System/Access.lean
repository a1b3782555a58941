import Tootti.Machine.Told
import Tootti.System.References

/-!
What a phone works on.

The database lets every phone write every document. It is the app that keeps to
the sessions that were opened on the phone, by a join that found them, and to the
users who logged in there: a Session object is made of the answer to a join or
to a refresh of such an object, and the user defaults of the answer to a login.
-/

namespace Tootti.Traffic

open Machine

/-- The session whose document it reads or writes, apart from the queries that
look for one. -/
def Request.session? : Request → Option String
  | .enter _ sid _ | .listen _ sid | .refresh _ sid | .file sid _ | .update sid _ => some sid
  | _ => none

/-- The user it is made for. -/
def Request.account? : Request → Option String
  | .host u _ _ | .session u _ _ | .pastSession u _ | .enter u _ _ | .duplicates u _
  | .addSession u _ => some u.uid
  | .joined uid _ => some uid
  | _ => none

/-- The session that a join finds. -/
def opens : Request × Answer → Option String
  | (.session _ _ _, .session (some (sid, _))) => some sid
  | (.pastSession _ sid, .document (some _)) => some sid
  | _ => none

def logsIn : Request × Answer → Option String
  | (.login uid, .user (some _)) => some uid
  | _ => none

def opened (h : List (Request × Answer)) : List String := h.filterMap opens

def loggedIn (h : List (Request × Answer)) : List String := h.filterMap logsIn

structure ClientWithin (h : List (Request × Answer)) (c : Client) : Prop where
  user : ∀ u ∈ c.user, u.uid ∈ loggedIn h
  sessions : ∀ s ∈ c.phone.sessions, s.uid ∈ opened h

structure RequestWithin (h : List (Request × Answer)) (q : Request) : Prop where
  session : ∀ sid ∈ q.session?, sid ∈ opened h
  account : ∀ uid ∈ q.account?, uid ∈ loggedIn h

def access : Protocol.Grounds Client Request Answer := ⟨ClientWithin, RequestWithin⟩

section Within

variable {h : List (Request × Answer)} {c c' : Client} {q : Request} {a : Answer}
  {l : List Request} {r : Option Nat} {k : Nat}

theorem mem_opened_append {sid : String} (h' : List (Request × Answer)) (hsid : sid ∈ opened h) :
    sid ∈ opened (h ++ h') := by
  rw [opened, List.filterMap_append]
  exact List.mem_append_left _ hsid

theorem mem_loggedIn_append {uid : String} (h' : List (Request × Answer))
    (huid : uid ∈ loggedIn h) : uid ∈ loggedIn (h ++ h') := by
  rw [loggedIn, List.filterMap_append]
  exact List.mem_append_left _ huid

theorem mem_opened_concat {sid : String} {x : Request × Answer} (hx : opens x = some sid) :
    sid ∈ opened (h ++ [x]) := by
  simp [opened, hx]

theorem ClientWithin.append (hc : ClientWithin h c) (h' : List (Request × Answer)) :
    ClientWithin (h ++ h') c where
  user u hu := mem_loggedIn_append h' (hc.user u hu)
  sessions s hs := mem_opened_append h' (hc.sessions s hs)

theorem RequestWithin.append (hq : RequestWithin h q) (h' : List (Request × Answer)) :
    RequestWithin (h ++ h') q where
  session sid hsid := mem_opened_append h' (hq.session sid hsid)
  account uid huid := mem_loggedIn_append h' (hq.account uid huid)

theorem ClientWithin.phone (hc : ClientWithin h c) {p : Phone}
    (hsessions : ∀ s ∈ p.sessions, s.uid ∈ opened h) : ClientWithin h { c with phone := p } :=
  ⟨hc.user, hsessions⟩

theorem ClientWithin.session (hc : ClientWithin h c) {s : Session}
    (hs : c.phone.session? r = some s) : s.uid ∈ opened h :=
  hc.sessions s (Heap.mem_of_object? hs)

theorem ClientWithin.cachedSession (hc : ClientWithin h c) {s : Session}
    (hs : c.phone.cachedSession k = some s) : s.uid ∈ opened h := by
  obtain ⟨x, -, hx⟩ := Option.bind_eq_some_iff.mp hs
  exact hc.session hx

/-- A request for a session, which is for no user in particular. -/
theorem within_of_session {sid : String} (hsession : q.session? = some sid)
    (haccount : q.account? = none) (hsid : sid ∈ opened h) : RequestWithin h q where
  session := by simpa [hsession] using hsid
  account := by simp [haccount]

theorem within_of_account {uid : String} (hsession : q.session? = none)
    (haccount : q.account? = some uid) (huid : uid ∈ loggedIn h) : RequestWithin h q where
  session := by simp [hsession]
  account := by simpa [haccount] using huid

/-- What a client has come to, and what it sends. -/
abbrev Within (h : List (Request × Answer)) (c : Client) (l : List Request) : Prop :=
  Protocol.Leaves (ClientWithin h) (RequestWithin h) c l

/-! ### What a user does -/

theorem within_sendRoster {f : Roster → Option Roster} (hc : ClientWithin h c)
    (hsent : c.sendRoster r f = some (c', l)) : Within h c' l ∧ c'.user = c.user := by
  obtain ⟨rfl, rfl⟩ | ⟨s, players, hs, -, rfl, rfl⟩ := Client.sendRoster_eq_some hsent
  · exact ⟨.quiet hc, rfl⟩
  · refine ⟨.single (hc.phone ?_) (within_of_session rfl rfl (hc.session hs)), rfl⟩
    exact Heap.forall_mem_modifyObject (fun _ _ hs => hs) hc.sessions

theorem within_leaveOther {name : String} (hc : ClientWithin h c)
    (hleft : c.leaveOther name = some (c', l)) : Within h c' l := by
  obtain ⟨rfl, rfl⟩ | hleft := Client.leaveOther_eq_some hleft
  · exact .quiet hc
  · exact (within_sendRoster hc hleft).1

theorem within_send {f : Session → Request} (hc : ClientWithin h c)
    (hsent : c.send k f = some (c', l)) (hsession : ∀ s, (f s).session? = some s.uid)
    (haccount : ∀ s, (f s).account? = none) : Within h c' l := by
  obtain ⟨s, hs, rfl, rfl⟩ := Client.send_eq_some hsent
  exact .single hc (within_of_session (hsession s) (haccount s) (hc.cachedSession hs))

theorem within_logOutTapped {home : Option Nat} (hc : ClientWithin h c)
    (hact : c.act (.logOutTapped home) = some (c', l)) : Within h c' l := by
  obtain ⟨c₁, first, c₂, second, hfirst, hsecond, rfl, rfl⟩ := Client.logOutTapped_eq_some hact
  obtain ⟨⟨hc₁, hl₁⟩, -⟩ := within_sendRoster hc hfirst
  obtain ⟨⟨hc₂, hl₂⟩, -⟩ := within_sendRoster hc₁ hsecond
  have hnobody : ClientWithin h c₂.logOut :=
    ⟨fun _ hu => absurd hu (Option.not_mem_none _), hc₂.sessions⟩
  exact .append hl₁ ⟨hnobody, hl₂⟩

theorem within_act {a : Action} (hc : ClientWithin h c) (hact : c.act a = some (c', l)) :
    Within h c' l := by
  cases a with
  | createAccount username | login uid =>
      obtain ⟨rfl, rfl⟩ := Prod.mk.inj (Option.some.inj hact)
      refine .single hc ⟨?_, ?_⟩ <;> intro _ hnone <;> exact absurd hnone (Option.not_mem_none _)
  | logOutTapped home => exact within_logOutTapped hc hact
  | createNewSession sessionName =>
      obtain ⟨u, hu, rfl, rfl⟩ := Client.createNewSession_eq_some hact
      exact .single hc (within_of_account rfl rfl (hc.user u hu))
  | joinSession sessionCode hostName =>
      obtain ⟨u, left, hu, hleft, rfl⟩ := Client.joinSession_eq_some hact
      obtain ⟨hc', hl⟩ := within_leaveOther hc hleft
      exact .append hl (.single hc' (within_of_account rfl rfl (hc.user u hu)))
  | joinPastSession sid sessionName =>
      obtain ⟨u, left, hu, hleft, rfl⟩ := Client.joinPastSession_eq_some hact
      obtain ⟨hc', hl⟩ := within_leaveOther hc hleft
      exact .append hl (.single hc' (within_of_account rfl rfl (hc.user u hu)))
  | viewDidLoad tab =>
      obtain ⟨rfl, rfl⟩ := Prod.mk.inj (Option.some.inj hact)
      refine ⟨hc.phone hc.sessions, fun q hq => ?_⟩
      split at hq
      · exact absurd hq List.not_mem_nil
      · rename_i s hs
        split at hq
        · exact absurd hq List.not_mem_nil
        · obtain rfl := List.mem_singleton.mp hq
          exact within_of_session rfl rfl (hc.session hs)
  | viewWillAppear k =>
      obtain ⟨rfl, rfl⟩ := Prod.mk.inj (Option.some.inj hact)
      exact .quiet (hc.phone hc.sessions)
  | updateUsersStatus k status =>
      have hsent : c.updateStatus (c.cached k) status = some (c', l) := hact
      exact (within_sendRoster hc hsent).1
  | handleBackgroundStatus k =>
      have hsent : c.updateActivity (c.cached k) false = some (c', l) := hact
      exact (within_sendRoster hc hsent).1
  | handleForegroundStatus k status =>
      obtain ⟨c₁, first, second, hfirst, hsecond, rfl⟩ :=
        Client.handleForegroundStatus_eq_some hact
      obtain ⟨⟨hc₁, hl₁⟩, -⟩ := within_sendRoster hc hfirst
      exact .append hl₁ (within_sendRoster hc₁ hsecond).1
  | confirmTracks k library selectedRecordings =>
      obtain ⟨u, s, -, hs, rfl, rfl⟩ := Client.confirmTracks_eq_some hact
      refine ⟨hc.phone hc.sessions, fun q hq => ?_⟩
      obtain ⟨a, -, rfl⟩ := List.mem_map.mp hq
      exact within_of_session rfl rfl (hc.session hs)
  | commitEditing k i =>
      obtain ⟨s, d, phone, hs, hcommit, rfl, rfl⟩ := Client.commitEditing_eq_some hact
      obtain ⟨x, track, s', -, -, -, rfl, rfl⟩ := Phone.commitEditing_eq_some hcommit
      refine .single (hc.phone ?_) (within_of_session rfl rfl (hc.cachedSession hs))
      exact Heap.forall_mem_modifyObject (fun _ _ hs => hs) hc.sessions
  | refresh k =>
      obtain ⟨s, hs, rfl, rfl⟩ := Client.refresh_eq_some hact
      exact .single (hc.phone hc.sessions) (within_of_session rfl rfl (hc.cachedSession hs))
  | sessionRecordingStatusUpdate k status | uploadClickTrack k url | uploadMerge k url =>
      exact within_send hc hact (fun _ => rfl) fun _ => rfl

/-! ### What an answer brings -/

theorem within_found {user : User} {sid : String} {d : SessionDocument} (hc : ClientWithin h c)
    (huser : user.uid ∈ loggedIn h) (hsid : sid ∈ opened h) :
    Within h (c.found user sid d).1 (c.found user sid d).2 := by
  have hinstall : ClientWithin h (c.install user sid d) := by
    refine ⟨hc.user, fun s hs => ?_⟩
    rcases List.mem_append.mp hs with hs | hs
    · exact hc.sessions s hs
    · obtain rfl := List.mem_singleton.mp hs
      exact hsid
  rw [Client.found]
  split
  · exact .quiet hinstall
  · refine .single hinstall ⟨?_, ?_⟩
    · simpa [Request.session?] using hsid
    · simpa [Request.account?] using huser

theorem within_receive {m : JoinedSessions.MissingKey} (hc : ClientWithin h c)
    (hq : RequestWithin h q) (hreceive : c.receive m q a = some (c', l)) :
    Within (h ++ [(q, a)]) c' l := by
  have hc := hc.append [(q, a)]
  have hq := hq.append [(q, a)]
  cases Client.receive_cases hreceive with
  | login uid u =>
      refine .quiet ⟨fun u hu => ?_, hc.sessions⟩
      obtain rfl := Option.some.inj hu
      simp [loggedIn, logsIn]
  | session user sessionName hostUid sid d =>
      exact within_found hc (hq.account _ rfl) (mem_opened_concat rfl)
  | pastSession user sid d => exact within_found hc (hq.account _ rfl) (mem_opened_concat rfl)
  | enter user sid players w hw =>
      refine ⟨hc, fun q hsent => ?_⟩
      obtain ⟨k, -, rfl⟩ := List.mem_map.mp hsent
      exact within_of_account rfl rfl (hq.account _ rfl)
  | joined uid w stored hstored => exact .quiet ⟨hc.user, hc.sessions⟩
  | host | duplicates | added => exact .single hc (within_of_account rfl rfl (hq.account _ rfl))
  | snapshot k sid d =>
      refine .single (hc.phone ?_) hq
      exact Phone.forall_mem_snapshot (fun _ hs => hs) (fun _ _ _ hs => hs) hc.sessions
  | listen k sid => exact .single hc hq
  | refreshNone k sid d hnone => exact .quiet hc
  | refresh k sid d s hs =>
      -- the new object has the identifier of the one it replaces
      have hsid := hc.cachedSession hs
      refine .quiet (hc.phone fun o ho => ?_)
      rcases List.mem_append.mp ho with ho | ho
      · exact hc.sessions o ho
      · obtain rfl := List.mem_singleton.mp ho
        exact hsid
  | file sid w => exact .single hc (within_of_session rfl rfl (hq.session _ rfl))
  | deleted sid k i d a phone hphone =>
      obtain ⟨-, rfl⟩ := Phone.removeRow_eq_some hphone
      exact .quiet (hc.phone hc.sessions)
  | ignored => exact .quiet hc

end Within

/-! ### What the server does of it -/

section Server

variable {v w : Database} {q : Request} {a : Answer}

/-- What becomes of the documents when a request is served. -/
structure Frame (v w : Database) (q : Request) : Prop where
  sessions : ∀ sid d, v.sessions.find? sid = some d → w.sessions.find? sid ≠ some d →
    q.session? = some sid
  users : ∀ uid u, v.users.find? uid = some u → w.users.find? uid ≠ some u →
    q.account? = some uid
  created : ∀ sid d, v.sessions.find? sid = none → w.sessions.find? sid = some d →
    q.account? = some d.hostUid

theorem frame_refl (v : Database) (q : Request) : Frame v v q where
  sessions _ _ hd hchanged := absurd hd hchanged
  users _ _ hu hchanged := absurd hu hchanged
  created _ _ hnone hd := by simp [hnone] at hd

theorem frame_updateSession {sid : String} {f : SessionDocument → SessionDocument}
    (hq : q.session? = some sid) : Frame v (updateSession v sid f).1 q := by
  rw [updateSession]
  split
  · rename_i hsome
    refine ⟨fun j d hd hchanged => ?_, fun _ _ hu hchanged => absurd hu hchanged,
      fun j d hnone hd => ?_⟩
    · rw [Collection.find?_update] at hchanged
      split at hchanged
      · rename_i hj
        rw [hj, hq]
      · exact absurd hd hchanged
    · rw [Collection.find?_update, hnone] at hd
      simp at hd
  · exact frame_refl v q

theorem frame_updateUser {uid : String} {f : UserDocument → UserDocument}
    (hq : q.account? = some uid) : Frame v (updateUser v uid f).1 q := by
  rw [updateUser]
  split
  · refine ⟨fun _ _ hd hchanged => absurd hd hchanged, fun j u hu hchanged => ?_,
      fun j d hnone hd => by simp [hnone] at hd⟩
    rw [Collection.find?_update] at hchanged
    split at hchanged
    · rename_i hj
      rw [hj, hq]
    · exact absurd hu hchanged
  · exact frame_refl v q

theorem frame_serve {choice : Option String} (h : serve v q choice = some (w, a)) :
    Frame v w q := by
  cases serve_cases h with
  | createAccount username id w hw =>
      obtain ⟨hfree, heq⟩ := Option.dite_none_right_eq_some.mp hw
      obtain rfl := Option.some.inj heq
      refine ⟨fun _ _ hd hchanged => absurd hd hchanged, fun uid u hu hchanged => ?_,
        fun _ _ hnone hd => by simp [hnone] at hd⟩
      exact absurd ((Collection.find?_insert_eq_some hfree).mpr (.inr hu)) hchanged
  | enter user sid l w a hupdate =>
      obtain rfl := congrArg Prod.fst hupdate
      exact frame_updateSession rfl
  | update sid k w a hupdate =>
      obtain rfl := congrArg Prod.fst hupdate
      exact frame_updateSession rfl
  | joined uid k w a hupdate =>
      obtain rfl := congrArg Prod.fst hupdate
      exact frame_updateUser rfl
  | addSession user sessionName id hfree =>
      refine ⟨fun j d hd hchanged => ?_, fun _ _ hu hchanged => absurd hu hchanged,
        fun j d hnone hd => ?_⟩
      · exact absurd ((Collection.find?_insert_eq_some hfree).mpr (.inr hd)) hchanged
      · rcases (Collection.find?_insert_eq_some hfree).mp hd with ⟨-, rfl⟩ | hd
        · rfl
        · simp [hnone] at hd
  | failed | login | host | session | pastSession | listen | refresh | duplicates | file =>
      exact frame_refl v _

end Server

/-! ### Every run -/

theorem keeps_access (m : JoinedSessions.MissingKey) : access.KeptBy (app m) where
  client_append h' hc := hc.append h'
  request_append h' hq := hq.append h'
  act := within_act
  receive := within_receive
  ended hc := ⟨hc.user, fun _ hs => absurd hs List.not_mem_nil⟩

theorem access_initial {P : Type*} : access.Holds (fun _ => []) (initial : State P) where
  clients _ := ⟨fun _ hu => absurd hu (Option.not_mem_none _),
    fun _ hs => absurd hs List.not_mem_nil⟩
  requests _ hm := absurd hm List.not_mem_nil
  answers _ hm := absurd hm List.not_mem_nil

/-- Nothing but serving a request changes the server. -/
theorem served_or_same {P : Type*} [DecidableEq P] {m : JoinedSessions.MissingKey} {s t : State P}
    {e : Protocol.Event P Action (Option String)} (hstep : (app m).step s e = some t) :
    t.server = s.server ∨ ∃ n h q, e = .serve n h ∧ s.requests[n]? = some q ∧
      Frame s.server t.server q.2 := by
  cases e with
  | act i c =>
      obtain ⟨r, -, rfl⟩ := Option.map_eq_some_iff.mp hstep
      exact .inl rfl
  | serve n h =>
      obtain ⟨q, hq, hserved⟩ := Option.bind_eq_some_iff.mp hstep
      obtain ⟨⟨v, a⟩, hserve, rfl⟩ := Option.map_eq_some_iff.mp hserved
      exact .inr ⟨n, h, q, rfl, hq, frame_serve hserve⟩
  | receive n =>
      obtain ⟨x, -, rfl⟩ := Option.map_eq_some_iff.mp hstep
      left
      dsimp only
      split <;> rfl
  | terminate i =>
      obtain rfl := Option.some.inj hstep
      exact .inl rfl

/-- The event serves a request of phone `i`, or of one that has ended since. -/
def ServedFor {P : Type*} (s : State P) (e : Protocol.Event P Action (Option String)) (i : P) :
    Prop :=
  ∃ n h, e = .serve n h ∧ ∃ m, s.requests[n]? = some m ∧ ∀ j ∈ m.1, j = i

end Tootti.Traffic
