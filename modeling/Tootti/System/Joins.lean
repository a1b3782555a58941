import Tootti.System.References

/-!
A join that nothing interrupts.

`joinSession:` and `joinPastSession:` are also modelled as one step each, with
what fails on the way as an argument. Here such a step is found again among
the runs in which every call stands for itself: it is what the phone comes to
when each of its calls is served at once, and nobody else does anything.
-/

namespace Tootti.Traffic

open Machine Protocol

/-- The client is the app of its signed-in user. -/
structure Runs (app : App) (c : Client) : Prop where
  user : c.user = some app.user
  joinedSessions : c.joinedSessions = some app.joinedSessions
  currentSession : c.phone.session? c.phone.currentSession = app.currentSession
  nextPlayer : c.phone.nextPlayer = app.nextPlayer

/-- The button that is tapped. -/
def action : Attempt → Action
  | .byName sessionCode hostName => .joinSession sessionCode hostName
  | .past session => .joinPastSession session.uid session.sessionName

/-- Its first query, which is sent when the other session has been left. -/
def query (user : User) : Attempt → Request
  | .byName sessionCode hostName => .host user (trimmed sessionCode) (trimmed hostName)
  | .past session => .pastSession user session.uid

section Alone

variable {net : Network} {app : App} {c c' : Client} {db : Database} {sid : String}
  {d : SessionDocument}

/-- The protocol where the proxy of a missing array is an empty one. -/
abbrev online : Protocol Database Client Request Answer Action (Option String) :=
  Traffic.app .empty

/-- The end of a chain of calls. -/
theorem alone_last {q : Request} {a : Answer} {x : Option String} {v : Database}
    (hserve : serve db q x = some (v, a)) (hreceive : c.receive .empty q a = some (c', [])) :
    Alone online db c [q] v c' :=
  .next hserve hreceive (.done v c')

theorem updateSession_eq_writeRoster (l : Roster) :
    (updateSession db sid (TrackSync.Write.currentPlayerList l).apply).1 =
      db.writeRoster sid l := by
  rw [updateSession]
  split
  · rfl
  · rename_i hmissing
    have hsame : db.sessions.update sid (TrackSync.Write.currentPlayerList l).apply =
        db.sessions :=
      Collection.update_eq_self_iff.mpr fun d hd =>
        absurd (Option.isSome_of_eq_some hd) hmissing
    exact (congrArg (fun sessions => { db with sessions }) hsame).symm

theorem leave_of_none (h : app.currentSession = none) (write : Bool) :
    app.leave write db = (app, db) := by
  rw [App.leave]
  split
  · rfl
  · rename_i s hs
    exact absurd (hs.symm.trans h) (Option.some_ne_none s)

theorem leave_of_some {s : Session} (h : app.currentSession = some s) (write : Bool)
    (db : Database) :
    (app.leave write db).1.currentSession = some (s.left app.user.uid) ∧
      (app.leave write db).1.joinedSessions = app.joinedSessions ∧
      (app.leave write db).2 =
        if write then db.writeRoster s.uid (s.left app.user.uid).currentPlayerList else db := by
  rw [App.leave]
  split
  · rename_i hs
    exact absurd (h.symm.trans hs) (Option.some_ne_none s)
  · rename_i s' hs
    obtain rfl := Option.some.inj (h.symm.trans hs)
    exact ⟨rfl, rfl, rfl⟩

/-- Leaving, and what comes after it. -/
theorem alone_leave (h : Runs app c) (write : Bool) :
    ∃ c' l, c.updateActivity c.phone.currentSession false = some (c', l) ∧
      Runs (app.leave write db).1 c' ∧
      ∀ {rest v k}, Alone online (app.leave write db).2 c' rest v k →
        Alone online db c' (l ++ rest) v k := by
  have huid : c.uid = some app.user.uid := congrArg (Option.map User.uid) h.user
  cases hs : app.currentSession with
  | none =>
      have hnobody : c.phone.session? c.phone.currentSession = none := h.currentSession.trans hs
      rw [leave_of_none hs]
      refine ⟨c, [], ?_, h, fun hrest => hrest⟩
      rw [Client.updateActivity, Client.sendRoster, hnobody]
  | some s =>
      have hsession : c.phone.session? c.phone.currentSession = some s :=
        h.currentSession.trans hs
      obtain ⟨hcurrent, hjoined, hdb⟩ := leave_of_some hs write db
      obtain ⟨huser, hplayer⟩ := leave_app write app db
      let l := (s.left app.user.uid).currentPlayerList
      let setRoster (s : Session) : Session := { s with currentPlayerList := l }
      refine ⟨{ c with phone := c.phone.modifySession c.phone.currentSession setRoster },
        [.update s.uid (.currentPlayerList l)], ?_, ?_, fun {rest v k} hrest => ?_⟩
      · simp only [Client.updateActivity, Client.sendRoster, hsession, huid]
        rfl
      · constructor
        case user => exact huser ▸ h.user
        case joinedSessions => exact hjoined ▸ h.joinedSessions
        case currentSession =>
          have hchanged := Heap.object?_modifyObject (h := c.phone.sessions)
            (r := c.phone.currentSession) (q := c.phone.currentSession) (f := setRoster)
          rw [if_pos rfl] at hchanged
          rw [hcurrent]
          exact hchanged.trans (congrArg (Option.map setRoster) hsession)
        case nextPlayer => exact hplayer ▸ h.nextPlayer
      · rw [hdb, ← List.append_nil rest] at hrest
        cases write with
        | false => exact .next (h := none) rfl rfl hrest
        | true =>
            rw [if_pos rfl, ← updateSession_eq_writeRoster] at hrest
            exact .next (h := some "") rfl rfl hrest

theorem alone_leaveOther (h : Runs app c) (net : Network) (name : String) (db : Database) :
    ∃ c' l, c.leaveOther name = some (c', l) ∧ Runs (app.leaveOther net name db).1 c' ∧
      ∀ {rest v k}, Alone online (app.leaveOther net name db).2 c' rest v k →
        Alone online db c' (l ++ rest) v k := by
  have hnamed : c.inSessionNamed name = app.inSessionNamed name := by
    have hcurrent := h.currentSession
    cases hs : app.currentSession with
    | none => simp only [Client.inSessionNamed, App.inSessionNamed, hcurrent, hs]
    | some s => simp only [Client.inSessionNamed, App.inSessionNamed, hcurrent, hs]
  rw [Client.leaveOther, App.leaveOther, hnamed]
  split
  · exact ⟨c, [], rfl, h, fun hrest => hrest⟩
  · exact alone_leave h net.leaveWrite

/-- The Session of a join, in the app and in the phone. -/
theorem runs_install (h : Runs app c) : Runs (app.install sid d) (c.install app.user sid d) where
  user := h.user
  joinedSessions := h.joinedSessions
  currentSession := by
    have hplayer : c.phone.nextPlayer = app.nextPlayer := h.nextPlayer
    show (c.phone.sessions ++ [_])[c.phone.sessions.length]? = _
    rw [List.getElem?_concat_length, App.install, hplayer]
  nextPlayer := congrArg (· + 2) h.nextPlayer

/-- What is sent when the roster is written. -/
theorem receive_entered {u : User} {l : Roster} {joined : List String}
    (h : c.joinedSessions = some joined) :
    c.receive .empty (.enter u sid l) .done =
      some (c, if joined.contains sid then [] else [.joined u.uid (.arrayUnion sid)]) := by
  rw [Client.receive, h]
  show (some (if joined.contains sid then none else some _)).map _ = _
  split <;> rfl

/-- The last call of a first join, whose completion stores the empty proxy. -/
theorem alone_list (h : Runs app c) (huser : HasUser db app.user.uid) (sid : String) :
    Alone online db c [.joined app.user.uid (.arrayUnion sid)]
      { db with
        users := db.users.update app.user.uid fun u =>
          { u with joinedSessions := arrayUnion u.joinedSessions sid } }
      { c with joinedSessions := some [] } := by
  have hserve : serve db (.joined app.user.uid (.arrayUnion sid)) (some "") =
      some ({ db with
        users := db.users.update app.user.uid fun u =>
          { u with joinedSessions := arrayUnion u.joinedSessions sid } }, .done) := by
    have hsome : (db.users.find? app.user.uid).isSome := huser
    simp only [serve, updateUser, hsome, if_true]
    rfl
  refine alone_last hserve ?_
  show (JoinedSessions.Write.complete .empty (.arrayUnion sid) c.joinedSessions).map _ = _
  rw [h.joinedSessions]
  rfl

/-- What a join does once it has found the session. -/
theorem alone_found (h : Runs app c) (hd : db.sessions.find? sid = some d)
    (huser : HasUser db app.user.uid) (net : Network) (first again : String) :
    ∃ k, Alone online db (c.found app.user sid d).1 (c.found app.user sid d).2
        (app.joinFound net first again sid d db).2.2 k ∧
      Runs (app.joinFound net first again sid d db).2.1 k := by
  have hinstall : Runs (app.install sid d) (c.install app.user sid d) := runs_install h
  rw [Client.found, App.joinFound]
  dsimp only
  split
  · exact ⟨_, .done db _, hinstall⟩
  · rename_i hout
    generalize Roster.join app.user.username app.user.uid d.currentPlayerList = l
    cases net.rosterWrite with
    | false => exact ⟨_, alone_last (x := none) rfl rfl, hinstall⟩
    | true =>
        have hserve : serve db (.enter app.user sid l) (some "") =
            some (db.writeRoster sid l, .done) := by
          simp only [serve, updateSession, hd, Option.isSome_some, if_true]
          rfl
        have hreceive : (c.install app.user sid d).receive .empty (.enter app.user sid l) .done =
            some (c.install app.user sid d, if app.joinedSessions.contains sid then []
              else [.joined app.user.uid (.arrayUnion sid)]) :=
          receive_entered hinstall.joinedSessions
        by_cases hlisted : app.joinedSessions.contains sid
        · rw [if_pos hlisted] at hreceive ⊢
          exact ⟨_, .next (h := some "") hserve hreceive (.done _ _), hinstall⟩
        · rw [if_neg hlisted] at hreceive ⊢
          cases net.userWrite with
          | false =>
              have hlast : Alone online (db.writeRoster sid l) (c.install app.user sid d)
                  [.joined app.user.uid (.arrayUnion sid)] (db.writeRoster sid l)
                  (c.install app.user sid d) := alone_last (x := none) rfl rfl
              exact ⟨_, .next (h := some "") hserve hreceive hlast, hinstall⟩
          | true =>
              have huser' : HasUser (db.writeRoster sid l) app.user.uid := huser
              have hlast := alone_list hinstall huser' sid
              exact ⟨_, .next (h := some "") hserve hreceive hlast,
                ⟨hinstall.user, rfl, hinstall.currentSession, hinstall.nextPlayer⟩⟩

/-- Queries that lead nowhere end the join. -/
theorem alone_query_of_none {a : Attempt} (h : a.target net db = none) (user : User) :
    Alone online db c [query user a] db c := by
  cases a with
  | byName sessionCode hostName =>
      simp only [Attempt.target] at h
      cases huser : net.userQuery with
      | false => exact alone_last (x := none) rfl rfl
      | true =>
          have hserve : serve db (query user (.byName sessionCode hostName)) (some "") =
              some (db, .host (db.hostNamed (trimmed hostName))) := rfl
          cases hhost : db.hostNamed (trimmed hostName) with
          | none =>
              rw [hhost] at hserve
              exact alone_last hserve rfl
          | some hostUid =>
              rw [hhost] at hserve
              refine .next (h := some "") hserve rfl ?_
              cases hquery : net.sessionQuery with
              | false => exact alone_last (x := none) rfl rfl
              | true =>
                  have hnone : db.sessionNamed hostUid (trimmed sessionCode) = none := by
                    simpa [huser, hhost, hquery] using h
                  have hserve' : serve db (.session user (trimmed sessionCode) hostUid) (some "") =
                      some (db, .session none) := by rw [serve, hnone]
                  exact alone_last hserve' rfl
  | past session =>
      simp only [Attempt.target] at h
      cases hquery : net.sessionQuery with
      | false => exact alone_last (x := none) rfl rfl
      | true =>
          have hnone : db.sessions.find? session.uid = none := by simpa [hquery] using h
          have hserve : serve db (query user (.past session)) (some "") =
              some (db, .document none) := by rw [query, serve, hnone]
          exact alone_last hserve rfl

/-- Queries that lead to a session go on with its document. -/
theorem alone_query_of_some {a : Attempt} {v : Database} {user : User} {k : Client}
    (h : a.target net db = some sid) (hd : db.sessions.find? sid = some d)
    (hfound : Alone online db (c.found user sid d).1 (c.found user sid d).2 v k) :
    Alone online db c [query user a] v k := by
  cases a with
  | byName sessionCode hostName =>
      obtain ⟨-, h⟩ := Option.ite_none_right_eq_some.mp h
      obtain ⟨hostUid, hhost, h⟩ := Option.bind_eq_some_iff.mp h
      obtain ⟨-, h⟩ := Option.ite_none_right_eq_some.mp h
      obtain ⟨⟨sid', d'⟩, hsession, rfl⟩ := Option.map_eq_some_iff.mp h
      have hfind := (Collection.mem_query.mp (List.mem_of_mem_head? hsession)).1
      obtain rfl : d' = d := Option.some.inj (hfind.symm.trans hd)
      have hserve : serve db (query user (.byName sessionCode hostName)) (some "") =
          some (db, .host (some hostUid)) := by rw [query, serve, hhost]
      have hserve' : serve db (.session user (trimmed sessionCode) hostUid) (some "") =
          some (db, .session (some (sid', d'))) := by rw [serve, hsession]
      exact .next (h := some "") hserve rfl (.next (h := some "") hserve' rfl hfound)
  | past session =>
      obtain ⟨-, h⟩ := Option.ite_none_right_eq_some.mp h
      obtain ⟨d', hfind, rfl⟩ := Option.map_eq_some_iff.mp h
      obtain rfl : d' = d := Option.some.inj (hfind.symm.trans hd)
      have hserve : serve db (query user (.past session)) (some "") =
          some (db, .document (some d')) := by rw [query, serve, hfind]
      exact .next (h := some "") hserve rfl hfound

theorem act_action {a : Attempt} {u : User} {l : List Request} (hu : c.user = some u)
    (h : c.leaveOther a.name = some (c', l)) :
    c.act (action a) = some (c', l ++ [query u a]) := by
  cases a with
  | byName sessionCode hostName =>
      show (c.user.bind fun user => (c.leaveOther (trimmed sessionCode)).bind _) = _
      rw [hu]
      exact congrArg (Option.bind · _) h
  | past session =>
      show (c.user.bind fun user => (c.leaveOther session.sessionName).bind _) = _
      rw [hu]
      exact congrArg (Option.bind · _) h

/-- A join made in one step is what the phone comes to alone. -/
theorem alone_run (h : Runs app c) (huser : HasUser db app.user.uid) (net : Network)
    (a : Attempt) :
    ∃ c' l k, c.act (action a) = some (c', l) ∧
      Alone online db c' l (a.run net app db).2.2 k ∧ Runs (a.run net app db).2.1 k := by
  obtain ⟨c', left, hleave, hleft, hafter⟩ := alone_leaveOther h net a.name db
  have hsame : (app.leaveOther net a.name db).1.user = app.user :=
    (leaveOther_app net a.name app db).1
  refine ⟨c', left ++ [query app.user a], ?_⟩
  have hact := act_action h.user hleave
  cases htarget : a.target net db with
  | none =>
      obtain ⟨why, hrun⟩ := run_of_target_eq_none app htarget
      rw [hrun]
      rw [← target_leaveOther app a a.name] at htarget
      exact ⟨c', hact, hafter (alone_query_of_none htarget app.user), hleft⟩
  | some sid =>
      obtain ⟨first, again, d, hd, hrun⟩ := run_of_target_eq_some app htarget
      rw [hrun]
      rw [← target_leaveOther app a a.name] at htarget
      have huser' : HasUser (app.leaveOther net a.name db).2
          (app.leaveOther net a.name db).1.user.uid := by
        rw [hsame]
        rcases @leaveOther_db net db app a.name with hdb | ⟨sid, l, hdb⟩
        · rwa [hdb]
        · rw [hdb]
          exact huser
      obtain ⟨k, hfound, hk⟩ := alone_found hleft hd huser' net first again
      rw [hsame] at hfound
      exact ⟨k, hact, hafter (alone_query_of_some htarget hd hfound), hk⟩

end Alone

/-! ### Among the runs -/

section Joins

variable {P : Type*} [DecidableEq P] {s : State P} {i : P} {app : App}
  {es : List (Protocol.Event P Action (Option String))}

theorem hasUser_of_runs (hrun : run online.step initial es = some s)
    (h : Runs app (s.client i)) : HasUser s.server app.user.uid :=
  (((holds_initial.run (kept .empty) hrun).clients i).user app.user h.user).hasUser

/-- In every reachable state in which no call is under way, and for whatever
fails, the tap on a join button can be followed by events after which the
database and the phone are as the join in one step leaves them, and no call is
under way. The array of a proxy that is missing reads as empty, as it does in the
one step. -/
theorem join_is_run (hrun : run online.step initial es = some s) (hrequests : s.requests = [])
    (hanswers : s.answers = []) (h : Runs app (s.client i)) (net : Network) (a : Attempt) :
    ∃ es' t, run online.step s (.act i (action a) :: es') = some t ∧
      t.server = (a.run net app s.server).2.2 ∧
      Runs (a.run net app s.server).2.1 (t.client i) ∧ (∀ j ≠ i, t.client j = s.client j) ∧
      t.requests = [] ∧ t.answers = [] := by
  obtain ⟨c', l, k, hact, halone, hk⟩ := alone_run h (hasUser_of_runs hrun h) net a
  obtain ⟨es', hes'⟩ := halone.run (i := i) (f := Function.update s.client i c')
    (Function.update_self ..)
  have htapped : online.step s (.act i (action a)) =
      some ⟨s.server, Function.update s.client i c', l.map fun r => (some i, r), []⟩ := by
    have hact' : online.act (s.client i) (action a) = some (c', l) := hact
    simp [Protocol.step, System.put, hact', hrequests, hanswers]
  refine ⟨es', _, run_cons_eq_some.mpr ⟨_, htapped, hes'⟩, rfl, ?_, fun j hj => ?_, rfl, rfl⟩
  · simpa using hk
  · simp [Function.update_of_ne hj]

/-- Bob's app, before he joins anything. -/
def bob : App where
  user := ⟨"b", "bob"⟩
  joinedSessions := []
  currentSession := none
  nextPlayer := 0
  fresh := App.fresh_none

theorem join_is_run_bob :
    ∃ s : State Bool, run online.step initial annHosts = some s ∧
      ∃ es' t, run online.step s (.act true (.joinSession "jam" "ann") :: es') = some t ∧
        (t.server.sessions.find? "s").map (fun d => d.currentPlayerList.map Player.username) =
          some ["ann", "bob"] := by
  let s := (run online.step initial annHosts).get (by decide)
  have hrun : run online.step initial annHosts = some s := (Option.some_get _).symm
  have hbob : Runs bob (s.client true) := ⟨by decide, by decide, by decide, by decide⟩
  obtain ⟨es', t, hjoined, hserver, -⟩ := join_is_run hrun (by decide) (by decide) hbob
    ⟨true, true, true, true, true⟩ (.byName "jam" "ann")
  refine ⟨s, hrun, es', t, hjoined, ?_⟩
  rw [hserver]
  decide

end Joins

end Tootti.Traffic
