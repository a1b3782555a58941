import Tootti.Membership.Devices
import Tootti.Membership.PastSessions
import Tootti.System.Traffic

/-!
What the documents refer to exists.

A session document names its host by the uid, and lists players and tracks
each under a uid and a username; a user's document lists sessions by their
identifiers. Nothing on the server ties them together, and every list is
written whole by some phone, from a Session object that may be old and of
another session, or for a user who has logged out since.

Documents are only added, and a user keeps the username. So what refers to
something when it is read still does when it is written, and each part of the
app is looked at alone.
-/

namespace Tootti.Traffic

open Machine Protocol

def HasUser (db : Database) (uid : String) : Prop := (db.users.find? uid).isSome

def HasSession (db : Database) (sid : String) : Prop := (db.sessions.find? sid).isSome

/-- There is a session of that identifier, and these are its name and host. -/
def Names (db : Database) (sid sessionName hostUid : String) : Prop :=
  ∃ d, db.sessions.find? sid = some d ∧ d.sessionName = sessionName ∧ d.hostUid = hostUid

/-- There is a user of that uid, and this is the username. -/
def Known (db : Database) (uid username : String) : Prop :=
  ∃ u, db.users.find? uid = some u ∧ u.username = username

def PlayersKnown (db : Database) (l : Roster) : Prop := ∀ p ∈ l, Known db p.uid p.username

def TracksKnown (db : Database) (l : List GuestTrack) : Prop := ∀ e ∈ l, Known db e.uid e.username

structure DocumentRefers (db : Database) (d : SessionDocument) : Prop where
  host : HasUser db d.hostUid
  players : PlayersKnown db d.currentPlayerList
  tracks : TracksKnown db d.guestPlayerList

structure Consistent (db : Database) : Prop where
  sessions : ∀ sid d, db.sessions.find? sid = some d → DocumentRefers db d
  joined : ∀ uid u, db.users.find? uid = some u → ∀ sid ∈ u.joinedSessions, HasSession db sid

structure SessionRefers (db : Database) (s : Session) : Prop where
  uid : HasSession db s.uid
  host : HasUser db s.hostUid
  players : PlayersKnown db s.currentPlayerList
  tracks : TracksKnown db s.guestPlayerList

structure ClientRefers (db : Database) (c : Client) : Prop where
  user : ∀ u ∈ c.user, Known db u.uid u.username
  joined : ∀ l ∈ c.joinedSessions, ∀ sid ∈ l, HasSession db sid
  sessions : ∀ s ∈ c.phone.sessions, SessionRefers db s

def WriteRefers (db : Database) : TrackSync.Write → Prop
  | .arrayUnion e => Known db e.uid e.username
  | .guestPlayerList _ _ d => TracksKnown db d.list
  | .currentPlayerList l => PlayersKnown db l
  | .clickTrackRef _ | .finalMergedResultRef _ | .hostStartRecording _ => True

def RequestRefers (db : Database) : Request → Prop
  | .createAccount _ | .login _ => True
  | .host u _ _ | .session u _ _ | .pastSession u _ | .duplicates u _ | .addSession u _ =>
      Known db u.uid u.username
  | .enter u sid l => Known db u.uid u.username ∧ HasSession db sid ∧ PlayersKnown db l
  | .joined uid w => HasUser db uid ∧ ∀ sid ∈ w.apply [], HasSession db sid
  | .listen _ sid | .refresh _ sid => HasSession db sid
  | .file sid w | .update sid w => HasSession db sid ∧ WriteRefers db w

def AnswerRefers (db : Database) : Request → Answer → Prop
  | .login uid, .user (some u) =>
      Known db uid u.username ∧ ∀ sid ∈ u.joinedSessions, HasSession db sid
  | .session _ _ _, .session (some (sid, d)) | .pastSession _ sid, .document (some d)
  | .listen _ sid, .document (some d) | .refresh _ sid, .document (some d) =>
      Names db sid d.sessionName d.hostUid ∧ DocumentRefers db d
  | .addSession _ _, .added sid => HasSession db sid
  | _, _ => True

/-- Users and sessions stay. Users keep their names, and sessions their names
and hosts. -/
structure Grows (v w : Database) : Prop where
  users : ∀ {uid u}, v.users.find? uid = some u →
    ∃ u', w.users.find? uid = some u' ∧ u'.username = u.username
  sessions : ∀ {sid d}, v.sessions.find? sid = some d → Names w sid d.sessionName d.hostUid

def reading : Reading Database Client Request Answer where
  grows := Grows
  server := Consistent
  client := ClientRefers
  request := RequestRefers
  answer := AnswerRefers

/-! ### What grows with the database -/

section Grows

variable {v w : Database} {uid username sid : String}

theorem Known.hasUser (h : Known v uid username) : HasUser v uid := by
  obtain ⟨u, hu, -⟩ := h
  exact Option.isSome_of_eq_some hu

theorem Known.grows (h : Grows v w) (hk : Known v uid username) : Known w uid username := by
  obtain ⟨u, hu, rfl⟩ := hk
  exact h.users hu

theorem HasUser.grows (h : Grows v w) (hu : HasUser v uid) : HasUser w uid := by
  obtain ⟨u, hu⟩ := Option.isSome_iff_exists.mp hu
  obtain ⟨u', hu', -⟩ := h.users hu
  exact Option.isSome_of_eq_some hu'

theorem Names.hasSession {sessionName hostUid : String} (h : Names v sid sessionName hostUid) :
    HasSession v sid := by
  obtain ⟨d, hd, -⟩ := h
  exact Option.isSome_of_eq_some hd

theorem Names.grows {sessionName hostUid : String} (h : Grows v w)
    (hn : Names v sid sessionName hostUid) : Names w sid sessionName hostUid := by
  obtain ⟨d, hd, rfl, rfl⟩ := hn
  exact h.sessions hd

theorem HasSession.grows (h : Grows v w) (hs : HasSession v sid) : HasSession w sid := by
  obtain ⟨d, hd⟩ := Option.isSome_iff_exists.mp hs
  exact (h.sessions hd).hasSession

theorem PlayersKnown.grows {l : Roster} (h : Grows v w) (hl : PlayersKnown v l) :
    PlayersKnown w l :=
  fun p hp => (hl p hp).grows h

theorem TracksKnown.grows {l : List GuestTrack} (h : Grows v w) (hl : TracksKnown v l) :
    TracksKnown w l :=
  fun e he => (hl e he).grows h

theorem DocumentRefers.grows {d : SessionDocument} (h : Grows v w) (hd : DocumentRefers v d) :
    DocumentRefers w d :=
  ⟨hd.host.grows h, hd.players.grows h, hd.tracks.grows h⟩

theorem SessionRefers.grows {s : Session} (h : Grows v w) (hs : SessionRefers v s) :
    SessionRefers w s :=
  ⟨hs.uid.grows h, hs.host.grows h, hs.players.grows h, hs.tracks.grows h⟩

theorem ClientRefers.grows {c : Client} (h : Grows v w) (hc : ClientRefers v c) :
    ClientRefers w c where
  user u hu := (hc.user u hu).grows h
  joined l hl sid hsid := (hc.joined l hl sid hsid).grows h
  sessions s hs := (hc.sessions s hs).grows h

theorem WriteRefers.grows {k : TrackSync.Write} (h : Grows v w) (hk : WriteRefers v k) :
    WriteRefers w k := by
  cases k with
  | arrayUnion e => exact Known.grows h hk
  | guestPlayerList i j d => exact TracksKnown.grows h hk
  | currentPlayerList l => exact PlayersKnown.grows h hk
  | clickTrackRef url => trivial
  | finalMergedResultRef url => trivial
  | hostStartRecording status => trivial

theorem RequestRefers.grows {r : Request} (h : Grows v w) (hr : RequestRefers v r) :
    RequestRefers w r := by
  cases r with
  | createAccount username => trivial
  | login uid => trivial
  | host u sessionName hostName => exact Known.grows h hr
  | session u sessionName hostUid => exact Known.grows h hr
  | pastSession u sid => exact Known.grows h hr
  | duplicates u sessionName => exact Known.grows h hr
  | addSession u sessionName => exact Known.grows h hr
  | enter u sid l => exact ⟨hr.1.grows h, hr.2.1.grows h, hr.2.2.grows h⟩
  | joined uid k => exact ⟨hr.1.grows h, fun sid hsid => (hr.2 sid hsid).grows h⟩
  | listen k sid => exact HasSession.grows h hr
  | refresh k sid => exact HasSession.grows h hr
  | file sid k => exact ⟨hr.1.grows h, hr.2.grows h⟩
  | update sid k => exact ⟨hr.1.grows h, hr.2.grows h⟩

theorem AnswerRefers.grows {r : Request} {a : Answer} (h : Grows v w) (ha : AnswerRefers v r a) :
    AnswerRefers w r a := by
  unfold AnswerRefers at ha ⊢
  split
  · exact ⟨ha.1.grows h, fun sid hsid => (ha.2 sid hsid).grows h⟩
  · exact ⟨ha.1.grows h, ha.2.grows h⟩
  · exact ⟨ha.1.grows h, ha.2.grows h⟩
  · exact ⟨ha.1.grows h, ha.2.grows h⟩
  · exact ⟨ha.1.grows h, ha.2.grows h⟩
  · exact HasSession.grows h ha
  · trivial

end Grows

/-! ### The server -/

section Server

variable {v w : Database} {uid username sid : String}

theorem Grows.refl (v : Database) : Grows v v :=
  ⟨fun {_ u} hu => ⟨u, hu, rfl⟩, fun {_ d} hd => ⟨d, hd, rfl, rfl⟩⟩

/-- All the documents of the larger database refer to what it has if the new
and the changed ones do. -/
theorem Consistent.of_grows (hv : Consistent v) (h : Grows v w)
    (hsessions : ∀ sid d, w.sessions.find? sid = some d →
      v.sessions.find? sid = some d ∨ DocumentRefers w d)
    (hjoined : ∀ uid u, w.users.find? uid = some u →
      v.users.find? uid = some u ∨ ∀ sid ∈ u.joinedSessions, HasSession w sid) :
    Consistent w where
  sessions sid d hd := by
    rcases hsessions sid d hd with hd | hd
    · exact (hv.sessions sid d hd).grows h
    · exact hd
  joined uid u hu sid hsid := by
    rcases hjoined uid u hu with hu | hu
    · exact (hv.joined uid u hu sid hsid).grows h
    · exact hu sid hsid

theorem consistent_createAccount (hv : Consistent v)
    (h : Creation.createAccount uid username v = some w) : Consistent w ∧ Grows v w := by
  rw [Creation.createAccount] at h
  split at h <;> simp only [Option.some.injEq, reduceCtorEq] at h
  rename_i hfree
  subst w
  have hgrows : Grows v { v with users := v.users.insert (· ≤ ·) uid ⟨username, []⟩ hfree } := by
    constructor
    case users =>
      intro _ u hu
      exact ⟨u, (Collection.find?_insert_eq_some hfree).mpr (.inr hu), rfl⟩
    case sessions => exact fun {_ d} hd => ⟨d, hd, rfl, rfl⟩
  refine ⟨hv.of_grows hgrows (fun _ _ hd => .inl hd) fun j u hu => ?_, hgrows⟩
  rcases (Collection.find?_insert_eq_some hfree).mp hu with ⟨-, rfl⟩ | hu
  · exact .inr fun _ hsid => absurd hsid List.not_mem_nil
  · exact .inl hu

theorem consistent_addSession {user : User} {sessionName : String} (hv : Consistent v)
    (huser : Known v user.uid user.username) (hfree : v.sessions.find? sid = none) :
    let d := (createdSession user sid sessionName).docData
    let w : Database := { v with sessions := v.sessions.insert (· ≤ ·) sid d hfree }
    Consistent w ∧ Grows v w ∧ HasSession w sid := by
  intro d w
  have hnew : ∀ {j d'}, w.sessions.find? j = some d' ↔
      j = sid ∧ d' = d ∨ v.sessions.find? j = some d' := Collection.find?_insert_eq_some hfree
  have hgrows : Grows v w := by
    constructor
    case users => exact fun {_ u} hu => ⟨u, hu, rfl⟩
    case sessions => exact fun {_ d'} hd' => ⟨d', hnew.mpr (.inr hd'), rfl, rfl⟩
  refine ⟨hv.of_grows hgrows (fun j d' hd' => ?_) fun _ _ hu => .inl hu, hgrows,
    Option.isSome_of_eq_some (hnew.mpr (.inl ⟨rfl, rfl⟩))⟩
  rcases hnew.mp hd' with ⟨-, rfl⟩ | hd'
  · have hknown : Known w user.uid user.username := huser.grows hgrows
    right
    constructor
    case host => exact hknown.hasUser
    case players =>
      intro p hp
      obtain rfl := List.mem_singleton.mp hp
      exact hknown
    case tracks => exact fun e he => absurd he List.not_mem_nil
  · exact .inl hd'

theorem consistent_updateSession {f : SessionDocument → SessionDocument} (sid : String)
    (hv : Consistent v)
    (hnames : ∀ d, (f d).sessionName = d.sessionName ∧ (f d).hostUid = d.hostUid)
    (hf : ∀ d, DocumentRefers v d → DocumentRefers v (f d)) :
    Consistent (updateSession v sid f).1 ∧ Grows v (updateSession v sid f).1 := by
  rw [updateSession]
  split
  · have hfind : ∀ j, (v.sessions.update sid f).find? j =
        if j = sid then (v.sessions.find? j).map f else v.sessions.find? j :=
      fun _ => Collection.find?_update f
    have hgrows : Grows v { v with sessions := v.sessions.update sid f } := by
      constructor
      case users => exact fun {_ u} hu => ⟨u, hu, rfl⟩
      case sessions =>
        intro j d hd
        show ∃ d', (v.sessions.update sid f).find? j = some d' ∧ _
        rw [hfind, hd]
        split
        · exact ⟨f d, rfl, hnames d⟩
        · exact ⟨d, rfl, rfl, rfl⟩
    refine ⟨hv.of_grows hgrows (fun j d hd => ?_) fun _ _ hu => .inl hu, hgrows⟩
    rw [hfind] at hd
    split at hd
    · obtain ⟨d', hd', rfl⟩ := Option.map_eq_some_iff.mp hd
      exact .inr ((hf d' (hv.sessions j d' hd')).grows hgrows)
    · exact .inl hd
  · exact ⟨hv, .refl v⟩

theorem consistent_updateUser {f : List String → List String} (uid : String) (hv : Consistent v)
    (hf : ∀ l, (∀ sid ∈ l, HasSession v sid) → ∀ sid ∈ f l, HasSession v sid) :
    let update u : UserDocument := { u with joinedSessions := f u.joinedSessions }
    Consistent (updateUser v uid update).1 ∧ Grows v (updateUser v uid update).1 := by
  intro update
  rw [updateUser]
  split
  · have hfind : ∀ j, (v.users.update uid update).find? j =
        if j = uid then (v.users.find? j).map update else v.users.find? j :=
      fun _ => Collection.find?_update update
    have hgrows : Grows v { v with users := v.users.update uid update } := by
      constructor
      case users =>
        intro j u hu
        show ∃ u', (v.users.update uid update).find? j = some u' ∧ u'.username = u.username
        rw [hfind, hu]
        split
        · exact ⟨update u, rfl, rfl⟩
        · exact ⟨u, rfl, rfl⟩
      case sessions => exact fun {_ d} hd => ⟨d, hd, rfl, rfl⟩
    refine ⟨hv.of_grows hgrows (fun _ _ hd => .inl hd) fun j u hu => ?_, hgrows⟩
    rw [hfind] at hu
    split at hu
    · obtain ⟨u', hu', rfl⟩ := Option.map_eq_some_iff.mp hu
      exact .inr (hf u'.joinedSessions (hv.joined j u' hu'))
    · exact .inl hu
  · exact ⟨hv, .refl v⟩

/-- No write changes the name or the host. -/
theorem names_apply (k : TrackSync.Write) (d : SessionDocument) :
    (k.apply d).sessionName = d.sessionName ∧ (k.apply d).hostUid = d.hostUid := by
  cases k <;> exact ⟨rfl, rfl⟩

/-- What a write leaves of a document refers to what it did before, or to
what the write does. -/
theorem DocumentRefers.apply {k : TrackSync.Write} {d : SessionDocument}
    (hk : WriteRefers v k) (hd : DocumentRefers v d) : DocumentRefers v (k.apply d) := by
  cases k with
  | arrayUnion e =>
      refine ⟨hd.host, hd.players, fun e' he' => ?_⟩
      rcases mem_arrayUnion.mp he' with he' | rfl
      · exact hd.tracks e' he'
      · exact hk
  | guestPlayerList i j del => exact ⟨hd.host, hd.players, hk⟩
  | currentPlayerList l => exact ⟨hd.host, hk, hd.tracks⟩
  | clickTrackRef url => exact ⟨hd.host, hd.players, hd.tracks⟩
  | finalMergedResultRef url => exact ⟨hd.host, hd.players, hd.tracks⟩
  | hostStartRecording status => exact ⟨hd.host, hd.players, hd.tracks⟩

/-- An update of a list of joined sessions adds the sessions of its own. -/
theorem mem_joined_apply {k : JoinedSessions.Write} {l : List String} (h : sid ∈ k.apply l) :
    sid ∈ l ∨ sid ∈ k.apply [] := by
  cases k with
  | list base new => exact .inr h
  | arrayUnion new => simpa [JoinedSessions.Write.apply, mem_arrayUnion] using h

theorem serve_refers {r : Request} {choice : Option String} {a : Answer} (hv : Consistent v)
    (hr : RequestRefers v r) (h : serve v r choice = some (w, a)) :
    Consistent w ∧ Grows v w ∧ AnswerRefers w r a := by
  cases serve_cases h with
  | failed => exact ⟨hv, .refl v, by cases r <;> trivial⟩
  | createAccount username id w hw =>
      obtain ⟨hconsistent, hgrows⟩ := consistent_createAccount hv hw
      exact ⟨hconsistent, hgrows, trivial⟩
  | login uid =>
      refine ⟨hv, .refl v, ?_⟩
      cases hu : v.users.find? uid with
      | none => trivial
      | some u => exact ⟨⟨u, hu, rfl⟩, hv.joined uid u hu⟩
  | host | duplicates | file => exact ⟨hv, .refl v, trivial⟩
  | session user sessionName hostUid =>
      refine ⟨hv, .refl v, ?_⟩
      cases hd : v.sessionNamed hostUid sessionName with
      | none => trivial
      | some found =>
          have hfind := (Collection.mem_query.mp (List.mem_of_mem_head? hd)).1
          exact ⟨⟨found.2, hfind, rfl, rfl⟩, hv.sessions _ _ hfind⟩
  | pastSession user sid | listen k sid | refresh k sid =>
      refine ⟨hv, .refl v, ?_⟩
      cases hd : v.sessions.find? sid with
      | none => trivial
      | some d => exact ⟨⟨d, hd, rfl, rfl⟩, hv.sessions sid d hd⟩
  | enter user sid l w a hupdate =>
      have hconsistent := consistent_updateSession sid hv (names_apply (.currentPlayerList l))
        fun d hd => hd.apply (k := .currentPlayerList l) hr.2.2
      rw [hupdate] at hconsistent
      exact ⟨hconsistent.1, hconsistent.2, trivial⟩
  | update sid k w a hupdate =>
      have hconsistent := consistent_updateSession sid hv (names_apply k) fun d hd => hd.apply hr.2
      rw [hupdate] at hconsistent
      exact ⟨hconsistent.1, hconsistent.2, trivial⟩
  | joined uid k w a hupdate =>
      have hconsistent := consistent_updateUser (f := k.apply) uid hv
        fun l hl sid hsid => (mem_joined_apply hsid).elim (hl sid) (hr.2 sid)
      dsimp only at hconsistent
      rw [hupdate] at hconsistent
      exact ⟨hconsistent.1, hconsistent.2, trivial⟩
  | addSession user sessionName id hfree => exact consistent_addSession hv hr hfree

end Server

/-! ### The client -/

section Client

variable {db : Database} {c c' : Client} {u : User} {r : Option Nat} {k : Nat} {sid : String}
  {l : List Request}

theorem PlayersKnown.withActivity {isActive : Bool} {players players' : Roster}
    (hc : ClientRefers db c) (h : PlayersKnown db players)
    (hmade : players.withActivity isActive c.username c.uid = some players') :
    PlayersKnown db players' := by
  cases isActive with
  | false =>
      obtain rfl := Option.some.inj hmade
      intro p hp
      rw [Roster.removePlayer_eq_filter] at hp
      exact h p (List.mem_of_mem_filter hp)
  | true =>
      cases huser : c.user with
      | none => simp [Roster.withActivity, Client.username, Client.uid, huser] at hmade
      | some u =>
          have hadd : players.addPlayer u.username u.uid = players' := by
            simpa [Roster.withActivity, Client.username, Client.uid, huser] using hmade
          intro p hp
          rw [← hadd] at hp
          rcases List.mem_append.mp hp with hp | hp
          · exact h p hp
          · obtain rfl := List.mem_singleton.mp hp
            exact hc.user u huser

theorem PlayersKnown.setStatus {status : Bool} {uid : Option String} {players : Roster}
    (h : PlayersKnown db players) : PlayersKnown db (players.setStatus status uid) := by
  intro p hp
  obtain ⟨q, hq, rfl⟩ := List.mem_map.mp hp
  show Known db (if some q.uid = uid then { q with status } else q).uid _
  split <;> exact h q hq

theorem PlayersKnown.join {players : Roster} (h : PlayersKnown db players)
    (hu : Known db u.uid u.username) : PlayersKnown db (Roster.join u.username u.uid players) := by
  intro p hp
  rw [Roster.join] at hp
  split at hp
  · exact h p hp
  · rcases List.mem_append.mp hp with hp | hp
    · exact h p hp
    · obtain rfl := List.mem_singleton.mp hp
      exact hu

theorem ClientRefers.session (hc : ClientRefers db c) {s : Session}
    (hs : c.phone.session? r = some s) : SessionRefers db s :=
  hc.sessions s (Heap.mem_of_object? hs)

theorem ClientRefers.cachedSession (hc : ClientRefers db c) {s : Session}
    (hs : c.phone.cachedSession k = some s) : SessionRefers db s := by
  obtain ⟨x, -, hs⟩ := Option.bind_eq_some_iff.mp hs
  exact hc.session hs

/-- A change of the screens is none of what a client refers to. -/
theorem ClientRefers.phone (hc : ClientRefers db c) {phone : Phone}
    (h : ∀ s ∈ phone.sessions, SessionRefers db s) : ClientRefers db { c with phone } :=
  ⟨hc.user, hc.joined, h⟩

/-- What a client has come to, and what it sends. -/
def Refers (db : Database) (c : Client) (l : List Request) : Prop :=
  ClientRefers db c ∧ ∀ q ∈ l, RequestRefers db q

theorem Refers.quiet (hc : ClientRefers db c) : Refers db c [] := Protocol.Leaves.quiet hc

theorem Refers.single {q : Request} (hc : ClientRefers db c) (hq : RequestRefers db q) :
    Refers db c [q] :=
  Protocol.Leaves.single hc hq

theorem Refers.append {l₁ l₂ : List Request} (h₁ : ∀ q ∈ l₁, RequestRefers db q)
    (h₂ : Refers db c l₂) : Refers db c (l₁ ++ l₂) :=
  Protocol.Leaves.append h₁ h₂

theorem refers_sendRoster {f : Roster → Option Roster} (hc : ClientRefers db c)
    (hf : ∀ l l', PlayersKnown db l → f l = some l' → PlayersKnown db l')
    (h : c.sendRoster r f = some (c', l)) : Refers db c' l ∧ c'.user = c.user := by
  obtain ⟨rfl, rfl⟩ | ⟨s, players, hs, hplayers, rfl, rfl⟩ := Client.sendRoster_eq_some h
  · exact ⟨.quiet hc, rfl⟩
  · have hsession := hc.session hs
    have hknown := hf s.currentPlayerList players hsession.players hplayers
    refine ⟨.single (hc.phone ?_) ⟨hsession.uid, hknown⟩, rfl⟩
    refine Heap.forall_mem_modifyObject (fun s _ hs => ?_) hc.sessions
    exact ⟨hs.uid, hs.host, hknown, hs.tracks⟩

theorem refers_updateActivity {isActive : Bool} (hc : ClientRefers db c)
    (h : c.updateActivity r isActive = some (c', l)) : Refers db c' l ∧ c'.user = c.user :=
  refers_sendRoster hc (fun _ _ hl hmade => hl.withActivity hc hmade) h

theorem refers_updateStatus {status : Bool} (hc : ClientRefers db c)
    (h : c.updateStatus r status = some (c', l)) : Refers db c' l ∧ c'.user = c.user :=
  refers_sendRoster hc (fun _ _ hl hmade => Option.some.inj hmade ▸ hl.setStatus) h

theorem refers_leaveOther {name : String} (hc : ClientRefers db c)
    (h : c.leaveOther name = some (c', l)) : Refers db c' l := by
  obtain ⟨rfl, rfl⟩ | hleft := Client.leaveOther_eq_some h
  · exact .quiet hc
  · exact (refers_updateActivity hc hleft).1

theorem refers_found {d : SessionDocument} (hc : ClientRefers db c)
    (hu : Known db u.uid u.username) (hsid : HasSession db sid) (hd : DocumentRefers db d) :
    Refers db (c.found u sid d).1 (c.found u sid d).2 := by
  have hjoin := hd.players.join hu
  have hsessions : ∀ s ∈ (c.install u sid d).phone.sessions, SessionRefers db s := by
    intro s hs
    rcases List.mem_append.mp hs with hs | hs
    · exact hc.sessions s hs
    · obtain rfl := List.mem_singleton.mp hs
      exact ⟨hsid, hd.host, hjoin, hd.tracks⟩
  have hclient : ClientRefers db (c.install u sid d) := ⟨hc.user, hc.joined, hsessions⟩
  rw [Client.found]
  split
  · exact .quiet hclient
  · exact .single hclient ⟨hu, hsid, hjoin⟩

theorem refers_send {f : Session → Request} (hc : ClientRefers db c)
    (h : c.send k f = some (c', l)) (hf : ∀ s, SessionRefers db s → RequestRefers db (f s)) :
    Refers db c' l := by
  obtain ⟨s, hs, rfl, rfl⟩ := Client.send_eq_some h
  exact .single hc (hf s (hc.cachedSession hs))

theorem refers_logOutTapped {home : Option Nat} (hc : ClientRefers db c)
    (h : c.act (.logOutTapped home) = some (c', l)) : Refers db c' l := by
  obtain ⟨c₁, first, c₂, second, hfirst, hsecond, rfl, rfl⟩ := Client.logOutTapped_eq_some h
  obtain ⟨⟨hc₁, hl₁⟩, -⟩ := refers_updateActivity hc hfirst
  obtain ⟨⟨hc₂, hl₂⟩, -⟩ := refers_updateActivity hc₁ hsecond
  have hnobody : ClientRefers db c₂.logOut :=
    ⟨fun _ hu => absurd hu (Option.not_mem_none _), fun _ hj => absurd hj (Option.not_mem_none _),
      hc₂.sessions⟩
  exact .append hl₁ ⟨hnobody, hl₂⟩

theorem refers_commitEditing {i : Nat} (hc : ClientRefers db c)
    (h : c.act (.commitEditing k i) = some (c', l)) : Refers db c' l := by
  obtain ⟨s, d, phone, hs, hcommit, rfl, rfl⟩ := Client.commitEditing_eq_some h
  obtain ⟨x, track, s', -, -, hs', rfl, rfl⟩ := Phone.commitEditing_eq_some hcommit
  have hsession := hc.cachedSession hs
  have htracks : TracksKnown db (Deletion.list ⟨track.playerDict, s'.guestPlayerList⟩) :=
    fun e he => (hc.session hs').tracks e (mem_removeObject.mp he).1
  refine .single (hc.phone ?_) ⟨hsession.uid, htracks⟩
  refine Heap.forall_mem_modifyObject (fun s _ hs => ?_) hc.sessions
  exact ⟨hs.uid, hs.host, hs.players, htracks⟩

theorem refers_confirmTracks {library : Option Nat} {selectedRecordings : List Audio}
    (hc : ClientRefers db c)
    (h : c.act (.confirmTracks k library selectedRecordings) = some (c', l)) :
    Refers db c' l := by
  obtain ⟨u, s, hu, hs, rfl, rfl⟩ := Client.confirmTracks_eq_some h
  refine ⟨hc.phone hc.sessions, fun q hq => ?_⟩
  obtain ⟨a, -, rfl⟩ := List.mem_map.mp hq
  exact ⟨(hc.session hs).uid, hc.user u hu⟩

theorem refers_viewDidLoad {tab : Tab} (hc : ClientRefers db c)
    (h : c.act (.viewDidLoad tab) = some (c', l)) : Refers db c' l := by
  simp only [Client.act, Option.some.injEq, Prod.mk.injEq] at h
  obtain ⟨rfl, rfl⟩ := h
  refine ⟨hc.phone hc.sessions, fun q hq => ?_⟩
  split at hq
  · exact absurd hq List.not_mem_nil
  · rename_i s hs
    split at hq
    · exact absurd hq List.not_mem_nil
    · obtain rfl := List.mem_singleton.mp hq
      exact (hc.session hs).uid

theorem refers_act {a : Action} (hc : ClientRefers db c) (h : c.act a = some (c', l)) :
    Refers db c' l := by
  cases a with
  | createAccount username =>
      obtain ⟨rfl, rfl⟩ := Prod.mk.inj (Option.some.inj h)
      exact .single hc trivial
  | login uid =>
      obtain ⟨rfl, rfl⟩ := Prod.mk.inj (Option.some.inj h)
      exact .single hc trivial
  | logOutTapped home => exact refers_logOutTapped hc h
  | createNewSession sessionName =>
      obtain ⟨u, hu, rfl, rfl⟩ := Client.createNewSession_eq_some h
      exact .single hc (hc.user u hu)
  | joinSession sessionCode hostName =>
      obtain ⟨u, left, hu, hleft, rfl⟩ := Client.joinSession_eq_some h
      obtain ⟨hc', hl⟩ := refers_leaveOther hc hleft
      exact .append hl (.single hc' (hc.user u hu))
  | joinPastSession sid sessionName =>
      obtain ⟨u, left, hu, hleft, rfl⟩ := Client.joinPastSession_eq_some h
      obtain ⟨hc', hl⟩ := refers_leaveOther hc hleft
      exact .append hl (.single hc' (hc.user u hu))
  | viewDidLoad tab => exact refers_viewDidLoad hc h
  | viewWillAppear k =>
      obtain ⟨rfl, rfl⟩ := Prod.mk.inj (Option.some.inj h)
      exact .quiet (hc.phone hc.sessions)
  | updateUsersStatus k status => exact (refers_updateStatus hc h).1
  | handleBackgroundStatus k => exact (refers_updateActivity hc h).1
  | handleForegroundStatus k status =>
      obtain ⟨c₁, first, second, hfirst, hsecond, rfl⟩ := Client.handleForegroundStatus_eq_some h
      obtain ⟨⟨hc₁, hl₁⟩, -⟩ := refers_updateActivity hc hfirst
      exact .append hl₁ (refers_updateStatus hc₁ hsecond).1
  | confirmTracks k library selectedRecordings => exact refers_confirmTracks hc h
  | commitEditing k i => exact refers_commitEditing hc h
  | refresh k =>
      obtain ⟨s, hs, rfl, rfl⟩ := Client.refresh_eq_some h
      exact .single (hc.phone hc.sessions) (hc.cachedSession hs).uid
  | sessionRecordingStatusUpdate k status =>
      exact refers_send hc h fun s hs => ⟨hs.uid, trivial⟩
  | uploadClickTrack k url => exact refers_send hc h fun s hs => ⟨hs.uid, trivial⟩
  | uploadMerge k url => exact refers_send hc h fun s hs => ⟨hs.uid, trivial⟩

theorem refers_entered {m : JoinedSessions.MissingKey} {uid : String}
    {w : Option JoinedSessions.Write} (hc : ClientRefers db c) (huid : HasUser db uid)
    (hsid : HasSession db sid)
    (h : JoinedSessions.joinWrite m sid false c.joinedSessions = some w) :
    Refers db c (w.toList.map (.joined uid)) := by
  refine ⟨hc, fun q hq => ?_⟩
  obtain ⟨k, hk, rfl⟩ := List.mem_map.mp hq
  obtain ⟨stored, -, hsent⟩ := Option.map_eq_some_iff.mp h
  rw [← hsent] at hk
  split at hk
  · exact absurd hk List.not_mem_nil
  · obtain rfl := List.mem_singleton.mp hk
    refine ⟨huid, fun j hj => ?_⟩
    obtain rfl : j = sid := by simpa [JoinedSessions.Write.apply, arrayUnion] using hj
    exact hsid

theorem joined_complete {m : JoinedSessions.MissingKey} {w : JoinedSessions.Write}
    {stored stored' : JoinedSessions.Stored} (hw : ∀ sid ∈ w.apply [], HasSession db sid)
    (h : w.complete m stored = some stored') : ∀ l ∈ stored', ∀ sid ∈ l, HasSession db sid := by
  rintro l hl sid hsid
  obtain rfl := Option.mem_def.mp hl
  have hcompleted : sid ∈ ((w.complete m stored).getD none).getD [] := by rwa [h]
  obtain ⟨base, added, rfl, hbase⟩ := Devices.mem_complete.mp hcompleted
  refine hw sid ?_
  rcases hbase with rfl | hbase
  · exact List.mem_append_right _ List.mem_cons_self
  · exact List.mem_append_left _ hbase

theorem joined_createWrite (hc : ClientRefers db c) (hsid : HasSession db sid) :
    ∀ j ∈ (JoinedSessions.createWrite sid c.joinedSessions).apply [], HasSession db j := by
  intro j hj
  rcases List.mem_append.mp hj with hj | hj
  · cases hstored : c.joinedSessions with
    | none => simp [hstored] at hj
    | some l => exact hc.joined l hstored j (by simpa [hstored] using hj)
  · exact List.mem_singleton.mp hj ▸ hsid

theorem sessions_snapshot {d : SessionDocument} (hc : ClientRefers db c)
    (hd : DocumentRefers db d) : ∀ s ∈ (c.phone.snapshot k d).sessions, SessionRefers db s := by
  refine Phone.forall_mem_snapshot (fun s hs => ?_) (fun s performer player hs => ?_) hc.sessions
  · exact ⟨hs.uid, hs.host, hd.players, hs.tracks⟩
  · exact ⟨hs.uid, hs.host, hs.players, hd.tracks⟩

theorem sessions_finishRefresh {d : SessionDocument} (hc : ClientRefers db c)
    (hsid : HasSession db sid) (hd : DocumentRefers db d) :
    ∀ s ∈ (c.phone.finishRefresh k sid d).sessions, SessionRefers db s := by
  intro s hs
  rcases List.mem_append.mp hs with hs | hs
  · exact hc.sessions s hs
  · obtain rfl := List.mem_singleton.mp hs
    exact ⟨hsid, hd.host, hd.players, hd.tracks⟩

theorem refers_receive {m : JoinedSessions.MissingKey} {q : Request} {a : Answer}
    (hc : ClientRefers db c) (hq : RequestRefers db q) (ha : AnswerRefers db q a)
    (h : c.receive m q a = some (c', l)) : Refers db c' l := by
  cases Client.receive_cases h with
  | login uid u =>
      refine .quiet ⟨fun u hu => ?_, fun l hl => ?_, hc.sessions⟩
      · obtain rfl := Option.some.inj hu
        exact ha.1
      · obtain rfl := Option.some.inj hl
        exact ha.2
  | host user sessionName hostName hostUid => exact .single hc hq
  | session user sessionName hostUid sid d => exact refers_found hc hq ha.1.hasSession ha.2
  | pastSession user sid d => exact refers_found hc hq ha.1.hasSession ha.2
  | enter user sid players w hw => exact refers_entered hc hq.1.hasUser hq.2.1 hw
  | joined uid w stored hstored =>
      exact .quiet ⟨hc.user, joined_complete hq.2 hstored, hc.sessions⟩
  | duplicates user sessionName => exact .single hc hq
  | added user sessionName sid => exact .single hc ⟨hq.hasUser, joined_createWrite hc ha⟩
  | snapshot k sid d => exact .single (hc.phone (sessions_snapshot hc ha.2)) hq
  | listen k sid => exact .single hc hq
  | refreshNone k sid d => exact .quiet hc
  | refresh k sid d s hs =>
      exact .quiet (hc.phone (sessions_finishRefresh hc (hc.cachedSession hs).uid ha.2))
  | file sid w => exact .single hc hq
  | deleted sid k i d a phone hphone =>
      obtain ⟨-, rfl⟩ := Phone.removeRow_eq_some hphone
      exact .quiet (hc.phone hc.sessions)
  | ignored => exact .quiet hc

end Client

/-! ### The whole system -/

theorem kept (m : JoinedSessions.MissingKey) : reading.KeptBy (app m) where
  client_grows := ClientRefers.grows
  request_grows := RequestRefers.grows
  answer_grows := AnswerRefers.grows
  act := refers_act
  serve := serve_refers
  receive := refers_receive
  ended h := ⟨h.user, h.joined, fun _ hs => absurd hs List.not_mem_nil⟩

theorem holds_initial {P : Type*} : reading.Holds (initial : State P) where
  server := ⟨fun _ _ hd => by simp [initial, Creation.initial, Collection.find?] at hd,
    fun _ _ hu => by simp [initial, Creation.initial, Collection.find?] at hu⟩
  clients _ := ⟨fun _ hu => absurd hu (Option.not_mem_none _),
    fun _ hl => absurd hl (Option.not_mem_none _), fun _ hs => absurd hs List.not_mem_nil⟩
  requests _ hm := absurd hm List.not_mem_nil
  answers _ hm := absurd hm List.not_mem_nil

/-- The document that a request updates is there. -/
def Addressed (db : Database) : Request → Prop
  | .enter _ sid _ | .update sid _ | .file sid _ => HasSession db sid
  | .joined uid _ => HasUser db uid
  | _ => True

theorem RequestRefers.addressed {db : Database} {q : Request} (h : RequestRefers db q) :
    Addressed db q := by
  cases q with
  | enter u sid l => exact h.2.1
  | update sid w => exact h.1
  | file sid w => exact h.1
  | joined uid w => exact h.1
  | _ => trivial

/-- In every run of any phones, whatever is done between the calls, fails or
is never answered, the documents refer to documents that exist, users by the
names they have. No update is sent for a document that does not exist, and
what a phone has kept of users and sessions refers to some that exist. -/
theorem references_exist {P : Type*} [DecidableEq P] (m : JoinedSessions.MissingKey)
    {es : List (Protocol.Event P Action (Option String))} {s : State P}
    (hrun : run (app m).step initial es = some s) :
    Consistent s.server ∧ (∀ q ∈ s.requests, Addressed s.server q.2) ∧
      ∀ i, ClientRefers s.server (s.client i) := by
  have hholds := holds_initial.run (kept m) hrun
  exact ⟨hholds.server, fun q hq => (hholds.requests q hq).addressed, hholds.clients⟩

/-- The call at the head of the queue succeeds, and is answered. -/
def served (id : String) : List (Protocol.Event Bool Action (Option String)) :=
  [.serve 0 (some id), .receive 0]

/-- Ann and Bob log in on a phone each, and Ann creates a session. -/
def annHosts : List (Protocol.Event Bool Action (Option String)) :=
  .act false (.createAccount "ann") :: served "a" ++
  .act true (.createAccount "bob") :: served "b" ++
  .act false (.login "a") :: served "" ++
  .act true (.login "b") :: served "" ++
  .act false (.createNewSession "jam") :: served "" ++ served "s" ++ served ""

/-- Bob begins to join it. -/
def bobJoins : List (Protocol.Event Bool Action (Option String)) :=
  annHosts ++ .act true (.joinSession " jam " "ann") :: served "" ++ served ""

theorem references_exist_bob_joins :
    ∃ s : State Bool, run (app .empty).step initial bobJoins = some s ∧
      s.requests.map Prod.fst = [some true] ∧ (∀ q ∈ s.requests, Addressed s.server q.2) ∧
      Consistent s.server := by
  have hrun := Option.eq_some_of_isSome (o := run (app .empty).step initial bobJoins) (by decide)
  obtain ⟨hconsistent, haddressed, -⟩ := references_exist .empty hrun
  exact ⟨_, hrun, by decide, haddressed, hconsistent⟩

/-! ### The list of past sessions -/

section PastSessions

variable {P : Type*} [DecidableEq P] {s : State P} {i : P} {l : List String}
  {es : List (Protocol.Event P Action (Option String))} {reads : List PastSessions.Event}
  {t : PastSessions.State}

/-- In every state of every such run, the screen that lists a phone's past
sessions has each session of the stored list as often as it appeared, less the
reads of it that failed, and no other. Each row has the name of its host, which
exists, unless the read of the host failed. -/
theorem past_sessions_complete (m : JoinedSessions.MissingKey)
    (hrun : run (app m).step initial es = some s) (hl : (s.client i).joinedSessions = some l)
    (hreads : run (PastSessions.step l s.server) .loaded reads = some t)
    (hsessions : t.sessionReads = []) (hhosts : t.hostReads = []) :
    (∀ sid ∈ l, t.listed.count sid + reads.count (.sessionRead sid true) =
      reads.count .viewWillAppear * l.count sid) ∧
      (∀ row ∈ t.pastSessions, row.uid ∈ l) ∧
      ∀ n row, t.pastSessions[n]? = some row → ∃ host,
        s.server.users.find? row.hostUid = some host ∧
          (row.hostUsername = some host.username ∨ .hostRead n row.hostUid true ∈ reads) := by
  have hholds := holds_initial.run (kept m) hrun
  have hinv : PastSessions.Inv s.server reads t := PastSessions.inv_run hreads
  refine ⟨fun sid hsid => ?_, fun row hrow => ?_, fun n row hrow => ?_⟩
  · exact PastSessions.count_listed ((hholds.clients i).joined l hl sid hsid) hreads hsessions
  · obtain ⟨d, hd, -⟩ := hinv.of_document row hrow
    have hcount := PastSessions.count_listed (Option.isSome_of_eq_some hd) hreads hsessions
    have hpos : 0 < t.listed.count row.uid := List.count_pos_iff.mpr (List.mem_map_of_mem hrow)
    refine List.count_pos_iff.mp (Nat.pos_of_ne_zero fun hzero => ?_)
    rw [hzero, Nat.mul_zero] at hcount
    omega
  · obtain ⟨d, hd, hread⟩ := hinv.of_document row (List.mem_of_getElem? hrow)
    have hhost : row.hostUid = d.hostUid := congrArg Session.hostUid hread
    have hexists := (hholds.server.sessions row.uid d hd).host
    rw [← hhost] at hexists
    obtain ⟨host, hfind⟩ := Option.isSome_iff_exists.mp hexists
    have hdone : n ∉ t.hostReads.map Prod.fst := by
      rw [hhosts]
      exact List.not_mem_nil
    refine ⟨host, hfind, (hinv.hosts n row hrow hdone).symm.imp_left fun hnamed => ?_⟩
    exact hnamed host hfind

end PastSessions

/-- Ann opens the list twice when her session is stored; the first time it cannot
be read. -/
theorem past_sessions_complete_ann :
    let reads : List PastSessions.Event := [.viewWillAppear, .sessionRead "s" true,
      .viewWillAppear, .sessionRead "s" false, .hostRead 0 "a" false]
    ∃ s : State Bool, run (app .empty).step initial annHosts = some s ∧
      ∃ t, run (PastSessions.step ["s"] s.server) .loaded reads = some t ∧
        t.listed.count "s" = 1 := by
  intro reads
  let s := (run (app .empty).step initial annHosts).get (by decide)
  have hrun : run (app .empty).step initial annHosts = some s := (Option.some_get _).symm
  have hreads := Option.eq_some_of_isSome
    (o := run (PastSessions.step ["s"] s.server) .loaded reads) (by decide)
  refine ⟨s, hrun, _, hreads, ?_⟩
  have hcount := (past_sessions_complete (i := false) .empty hrun (by decide) hreads
    (by decide) (by decide)).1 "s" (by decide)
  have hfailed : reads.count (.sessionRead "s" true) = 1 := by decide
  have happeared : reads.count .viewWillAppear * ["s"].count "s" = 2 := by decide
  omega

end Tootti.Traffic
