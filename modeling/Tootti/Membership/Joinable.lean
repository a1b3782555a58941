import Mathlib.Data.String.Basic
import Tootti.Membership.Current

/-!
Which of the created sessions can be joined.

An account keeps the username as it was typed, and so does a session its
name; nothing keeps two accounts from having one username. A join trims what
is typed into it, and takes the first account that has the host's name, in
the order of the documents' identifiers.
-/

namespace Tootti.Creation

open Machine Tootti.Membership

/-- `createAccount:`, with the document stored under `id`. -/
def createAccount (id username : String) (db : Database) : Option Database :=
  if h : db.users.find? id = none then
    some { db with users := db.users.insert (· ≤ ·) id ⟨username, []⟩ h }
  else none

/-- The app is signed in to one of the accounts. -/
def signedIn (app : App) (db : Database) : Bool :=
  (db.users.find? app.user.uid).any fun u => u.username = app.user.username

inductive Event
  | createAccount (id username : String)
  | createNewSession (app : App) (sid name : String)

def step (db : Database) : Event → Option Database
  | .createAccount id username => createAccount id username db
  | .createNewSession app sid name =>
      if signedIn app db then (createNewSession sid name app db).map Prod.snd else none

def initial : Database := ⟨⟨[], List.nodup_nil⟩, ⟨[], List.nodup_nil⟩⟩

/-- The join leads into this session and into no other. -/
def Enters (sid : String) (a : Attempt) (app : App) (db : Database) : Prop :=
  ∃ segue app' db', a.run up app db = (.entered segue, app', db') ∧
    app'.currentSession.map Session.uid = some sid ∧ Member db' app.user.uid sid ∧
    ∀ j, Member db' app.user.uid j → j = sid ∨ Member db app.user.uid j

/-- Everybody but the host gets into the session by typing its name and its
host's. -/
def Joinable (db : Database) (sid : String) (d : SessionDocument) (host : UserDocument) : Prop :=
  ∀ app : App, app.user.uid ≠ d.hostUid →
    Enters sid (.byName d.sessionName host.username) app db

/-- Neither name begins or ends with white space, and the host's account is
the first with its username. -/
structure Findable (db : Database) (d : SessionDocument) (host : UserDocument) : Prop where
  sessionName : trimmed d.sessionName = d.sessionName
  username : trimmed host.username = host.username
  first : db.hostNamed host.username = some d.hostUid

/-! ### What a join leads to -/

section Attempts

variable {db : Database} {app : App} {sid : String} {a : Attempt}

theorem exists_joinFound_entered (first again sid : String) (d : SessionDocument) (app : App)
    (db : Database) :
    ∃ segue app' db', app.joinFound up first again sid d db = (.entered segue, app', db') := by
  rw [App.joinFound]
  dsimp only
  split
  · exact ⟨_, _, _, rfl⟩
  · have hnet : up.rosterWrite = true := rfl
    rw [if_pos hnet]
    split
    · exact ⟨_, _, _, rfl⟩
    · exact ⟨_, _, _, rfl⟩

theorem member_of_member_leaveOther {name j : String}
    (h : Member (app.leaveOther up name db).2 app.user.uid j) : Member db app.user.uid j := by
  rw [App.leaveOther] at h
  split at h
  · exact h
  · exact (member_leave h).1

/-- Which session a join enters is decided by its queries. -/
theorem enters_iff_target : Enters sid a app db ↔ a.target up db = some sid := by
  constructor
  · rintro ⟨segue, app', db', hrun, hcurrent, -⟩
    cases htarget : a.target up db with
    | none =>
        obtain ⟨why, hfailed⟩ := run_of_target_eq_none app htarget
        simp [hrun] at hfailed
    | some sid' =>
        obtain ⟨first, again, d, hd, hfound⟩ := run_of_target_eq_some app htarget
        rw [hrun] at hfound
        exact (joinFound_entered hd hfound.symm).2.1.symm.trans hcurrent
  · intro htarget
    obtain ⟨first, again, d, hd, hfound⟩ := run_of_target_eq_some app htarget
    obtain ⟨segue, app', db', hentered⟩ := exists_joinFound_entered first again sid d
      (app.leaveOther up a.name db).1 (app.leaveOther up a.name db).2
    obtain ⟨-, hcurrent, hmember⟩ := joinFound_entered hd hentered
    rw [(leaveOther_app up a.name app db).1] at hmember
    refine ⟨segue, app', db', hfound.trans hentered, hcurrent, (hmember sid).mpr (Or.inl rfl), ?_⟩
    exact fun j hj => ((hmember j).mp hj).imp_right member_of_member_leaveOther

end Attempts

/-! ### What the database keeps -/

structure Created (db : Database) : Prop where
  /-- Every session has a host with an account. -/
  hosted : ∀ sid d, db.sessions.find? sid = some d → ∃ host, db.users.find? d.hostUid = some host
  /-- No host has two sessions of one name. -/
  named : ∀ sid d sid' d', db.sessions.find? sid = some d → db.sessions.find? sid' = some d' →
    d.hostUid = d'.hostUid → d.sessionName = d'.sessionName → sid = sid'

section Database

variable {db : Database} {sid : String} {d : SessionDocument}

theorem sessionNamed_eq_none {hostUid name : String} :
    db.sessionNamed hostUid name = none ↔
      ∀ sid d, db.sessions.find? sid = some d → ¬ (d.hostUid = hostUid ∧ d.sessionName = name) := by
  rw [Database.sessionNamed, List.head?_eq_none_iff, List.eq_nil_iff_forall_not_mem]
  constructor
  · rintro h sid d hd ⟨rfl, rfl⟩
    exact h (sid, d) (Collection.mem_query.mpr ⟨hd, by simp⟩)
  · intro h x hx
    obtain ⟨hfind, hmatch⟩ := Collection.mem_query.mp hx
    simp only [Bool.and_eq_true, decide_eq_true_eq] at hmatch
    exact h x.1 x.2 hfind hmatch.symm

/-- A session is found by its own host and name. -/
theorem sessionNamed_self (h : Created db) (hd : db.sessions.find? sid = some d) :
    (db.sessionNamed d.hostUid d.sessionName).map Prod.fst = some sid := by
  cases hfound : db.sessionNamed d.hostUid d.sessionName with
  | none => exact absurd ⟨rfl, rfl⟩ (sessionNamed_eq_none.mp hfound sid d hd)
  | some x =>
      obtain ⟨hfind, hmatch⟩ := Collection.mem_query.mp (List.mem_of_mem_head? hfound)
      simp only [Bool.and_eq_true, decide_eq_true_eq] at hmatch
      exact congrArg some (h.named x.1 x.2 sid d hfind hd hmatch.2 hmatch.1)

theorem find?_of_sessionNamed {hostUid name : String}
    (h : (db.sessionNamed hostUid name).map Prod.fst = some sid) :
    ∃ d, db.sessions.find? sid = some d ∧ d.hostUid = hostUid ∧ d.sessionName = name := by
  obtain ⟨⟨j, d⟩, hfound, rfl⟩ := Option.map_eq_some_iff.mp h
  obtain ⟨hfind, hmatch⟩ := Collection.mem_query.mp (List.mem_of_mem_head? hfound)
  simp only [Bool.and_eq_true, decide_eq_true_eq] at hmatch
  exact ⟨d, hfind, hmatch.2, hmatch.1⟩

theorem find?_of_hostNamed {username hostUid : String}
    (h : db.hostNamed username = some hostUid) :
    ∃ host, db.users.find? hostUid = some host ∧ host.username = username := by
  obtain ⟨⟨j, host⟩, hfound, rfl⟩ := Option.map_eq_some_iff.mp h
  obtain ⟨hfind, hmatch⟩ := Collection.mem_query.mp (List.mem_of_mem_head? hfound)
  exact ⟨host, hfind, by simpa using hmatch⟩

theorem Created.createAccount {db' : Database} {id username : String} (h : Created db)
    (hstep : createAccount id username db = some db') : Created db' := by
  rw [Creation.createAccount] at hstep
  split at hstep <;> simp only [Option.some.injEq, reduceCtorEq] at hstep
  rename_i hfree
  subst db'
  refine ⟨fun sid d hd => ?_, h.named⟩
  obtain ⟨host, hhost⟩ := h.hosted sid d hd
  exact ⟨host, (Collection.find?_insert_eq_some hfree).mpr (Or.inr hhost)⟩

theorem Created.createNewSession {db' : Database} {app : App} {name : String} (h : Created db)
    (hin : signedIn app db)
    (hstep : (Tootti.createNewSession sid name app db).map Prod.snd = some db') :
    Created db' := by
  obtain ⟨⟨app', db₁⟩, hmade, rfl⟩ := Option.map_eq_some_iff.mp hstep
  obtain ⟨u, hu⟩ : ∃ u, db.users.find? app.user.uid = some u := by
    rw [signedIn] at hin
    cases hfind : db.users.find? app.user.uid with
    | none => simp [hfind] at hin
    | some u => exact ⟨u, rfl⟩
  rw [Tootti.createNewSession] at hmade
  split at hmade
  · simp at hmade
  · rename_i hunnamed
    rw [Option.not_isSome_iff_eq_none, sessionNamed_eq_none] at hunnamed
    split at hmade <;> simp only [Option.some.injEq, Prod.mk.injEq, reduceCtorEq] at hmade
    rename_i hfree
    obtain ⟨-, rfl⟩ := hmade
    constructor
    · intro j d hd
      have hold : ∃ host, db.users.find? d.hostUid = some host := by
        rcases (Collection.find?_add_eq_some hfree).mp hd with ⟨-, rfl⟩ | hd
        · exact ⟨u, hu⟩
        · exact h.hosted j d hd
      obtain ⟨host, hhost⟩ := hold
      simp only [Collection.find?_update, hhost]
      split
      · exact ⟨_, rfl⟩
      · exact ⟨host, rfl⟩
    · intro j d j' d' hd hd' hhost hname
      replace hd := (Collection.find?_add_eq_some hfree).mp hd
      replace hd' := (Collection.find?_add_eq_some hfree).mp hd'
      rcases hd with ⟨rfl, rfl⟩ | hd <;> rcases hd' with ⟨rfl, rfl⟩ | hd'
      · rfl
      · exact absurd ⟨hhost.symm, hname.symm⟩ (hunnamed j' d' hd')
      · exact absurd ⟨hhost, hname⟩ (hunnamed j d hd)
      · exact h.named j d j' d' hd hd' hhost hname

theorem created_initial : Created initial :=
  ⟨fun _ _ hd => by simp [initial, Collection.find?] at hd,
    fun _ _ _ _ hd => by simp [initial, Collection.find?] at hd⟩

theorem created_step {db' : Database} {e : Event} (h : Created db) (hstep : step db e = some db') :
    Created db' := by
  cases e with
  | createAccount id username => exact h.createAccount hstep
  | createNewSession app sid name =>
      simp only [step] at hstep
      split at hstep
      · rename_i hin
        exact h.createNewSession hin hstep
      · simp at hstep

/-- The queries for a session's name and its host's lead to it exactly if
both are stored trimmed and the host is the first of that name. -/
theorem target_iff_findable {host : UserDocument} (h : Created db)
    (hd : db.sessions.find? sid = some d) (hhost : db.users.find? d.hostUid = some host) :
    (Attempt.byName d.sessionName host.username).target up db = some sid ↔
      Findable db d host := by
  have htarget : (Attempt.byName d.sessionName host.username).target up db =
      (db.hostNamed (trimmed host.username)).bind fun hostUid =>
        (db.sessionNamed hostUid (trimmed d.sessionName)).map Prod.fst := rfl
  rw [htarget, Option.bind_eq_some_iff]
  constructor
  · rintro ⟨hostUid, hfirst, hfound⟩
    obtain ⟨d', hd', huid, hname⟩ := find?_of_sessionNamed hfound
    obtain rfl := Option.some.inj (hd.symm.trans hd')
    obtain ⟨host', hhost', husername⟩ := find?_of_hostNamed hfirst
    subst huid
    obtain rfl := Option.some.inj (hhost.symm.trans hhost')
    exact ⟨hname.symm, husername.symm, husername.symm ▸ hfirst⟩
  · rintro ⟨hname, husername, hfirst⟩
    refine ⟨d.hostUid, husername.symm ▸ hfirst, ?_⟩
    rw [hname]
    exact sessionNamed_self h hd

end Database

theorem joinable_iff_target {db : Database} {sid : String} {d : SessionDocument}
    {host : UserDocument} :
    Joinable db sid d host ↔
      (Attempt.byName d.sessionName host.username).target up db = some sid := by
  refine ⟨fun h => ?_, fun h app _ => enters_iff_target.mpr h⟩
  let guest : App :=
    ⟨⟨d.hostUid ++ "x", ""⟩, [], none, 0, App.fresh_none⟩
  have hother : guest.user.uid ≠ d.hostUid := by
    intro heq
    have hlength := congrArg String.length heq
    simp [guest] at hlength
  exact enters_iff_target.mp (h guest hother)

/-- Of the sessions created in any run, those can be joined whose name and
whose host's name are stored trimmed and whose host is the first account of
that name. -/
theorem joinable_iff_findable {es : List Event} {db : Database}
    (hrun : run step initial es = some db) {sid : String} {d : SessionDocument}
    (hd : db.sessions.find? sid = some d) :
    ∃ host, db.users.find? d.hostUid = some host ∧
      (Joinable db sid d host ↔ Findable db d host) := by
  have hcreated : Created db :=
    run_invariant (fun _ _ _ h hs => created_step h hs) hrun created_initial
  obtain ⟨host, hhost⟩ := hcreated.hosted sid d hd
  exact ⟨host, hhost, joinable_iff_target.trans (target_iff_findable hcreated hd hhost)⟩

/-- The database after a host has made an account and a session. -/
def hosted (username name : String) : Database where
  users := ⟨[("h", ⟨username, ["s"]⟩)], List.nodup_singleton _⟩
  sessions :=
    ⟨[("s", (createdSession ⟨"h", username⟩ "s" name).docData)], List.nodup_singleton _⟩

def hostApp (username : String) : App :=
  ⟨⟨"h", username⟩, [], none, 0, App.fresh_none⟩

theorem run_hosted (username name : String) :
    run step initial [.createAccount "h" username,
        .createNewSession (hostApp username) "s" name] = some (hosted username name) := by
  have hin : signedIn (hostApp username) ⟨⟨[("h", ⟨username, []⟩)], List.nodup_singleton _⟩,
      ⟨[], List.nodup_nil⟩⟩ := by simp [signedIn, hostApp, Collection.find?]
  have haccount : step initial (.createAccount "h" username) =
      some ⟨⟨[("h", ⟨username, []⟩)], List.nodup_singleton _⟩, ⟨[], List.nodup_nil⟩⟩ := rfl
  rw [run_cons_eq_some]
  refine ⟨_, haccount, run_cons_eq_some.mpr ⟨_, ?_, rfl⟩⟩
  rw [step, if_pos hin]
  rfl

theorem joinable_first_session :
    ∃ host, (hosted "host" "song").users.find? "h" = some host ∧
      Joinable (hosted "host" "song") "s" (createdSession ⟨"h", "host"⟩ "s" "song").docData
        host := by
  have hd : (hosted "host" "song").sessions.find? "s" =
      some (createdSession ⟨"h", "host"⟩ "s" "song").docData := rfl
  obtain ⟨host, hhost, hiff⟩ := joinable_iff_findable (run_hosted "host" "song") hd
  obtain rfl : (⟨"host", ["s"]⟩ : UserDocument) = host := Option.some.inj hhost
  exact ⟨_, hhost, hiff.mpr ⟨by decide +kernel, by decide +kernel, rfl⟩⟩

/-- The host's keyboard put a space after the session's name. -/
theorem session_not_joinable_by_its_name :
    ¬ ∀ (es : List Event) (db : Database), run step initial es = some db →
      ∀ sid d host, db.sessions.find? sid = some d → db.users.find? d.hostUid = some host →
        Joinable db sid d host := by
  intro h
  have hjoin := h _ _ (run_hosted "host" "song ") "s" _ _ rfl rfl
  exact absurd (joinable_iff_target.mp hjoin) (by decide +kernel)

end Tootti.Creation
