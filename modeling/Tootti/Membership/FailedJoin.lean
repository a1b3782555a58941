import Tootti.Model.Join

/-!
Joins that fail.

A join leaves the current session before it asks the server anything, and
makes the session it found the current one before it has stored the user in
its roster. A failure undoes neither.
-/

namespace Tootti.Membership

open Machine

structure Unchanged (app app' : App) (db db' : Database) : Prop where
  current : app'.currentSession = app.currentSession
  rosters : db'.sessions = db.sessions

/-- Leaving has no effect: the user is not in the Session's own list, and
writing that list changes nothing or fails. -/
def LeavesNoTrace (write : Bool) (app : App) (db : Database) : Prop :=
  ∀ s ∈ app.currentSession, s.currentPlayerList.contains app.user.uid = false ∧
    (write → ∀ d ∈ db.sessions.find? s.uid, d.currentPlayerList = s.currentPlayerList)

/-- The join does not leave the current session, or leaving has no effect. -/
def Stays (net : Network) (a : Attempt) (app : App) (db : Database) : Prop :=
  app.inSessionNamed a.name ∨ LeavesNoTrace net.leaveWrite app db

section Leave

variable {app : App} {db : Database} {net : Network}

theorem left_eq_self_iff {s : Session} {uid : String} :
    s.left uid = s ↔ s.currentPlayerList.contains uid = false := by
  rw [← Roster.removePlayer_eq_self_iff]
  refine ⟨fun h => congrArg Session.currentPlayerList h, fun h => ?_⟩
  rw [Session.left, h]

theorem writeRoster_eq_self_iff {sid : String} {l : Roster} :
    (db.writeRoster sid l).sessions = db.sessions ↔
      ∀ d ∈ db.sessions.find? sid, d.currentPlayerList = l := by
  let setRoster (d : SessionDocument) : SessionDocument := { d with currentPlayerList := l }
  have hupdate : (db.writeRoster sid l).sessions = db.sessions.update sid setRoster := rfl
  rw [hupdate, Collection.update_eq_self_iff]
  refine forall₂_congr fun d _ => ⟨fun h => ?_, fun h => ?_⟩
  · exact (congrArg SessionDocument.currentPlayerList h).symm
  · show { d with currentPlayerList := l } = d
    rw [← h]

theorem unchanged_leave_iff (write : Bool) :
    Unchanged app (app.leave write db).1 db (app.leave write db).2 ↔
      LeavesNoTrace write app db := by
  unfold App.leave LeavesNoTrace
  split
  · rename_i hnone
    simp only [hnone]
    exact iff_of_true ⟨hnone.symm ▸ rfl, rfl⟩ (by simp)
  · rename_i s hs
    simp only [hs, Option.mem_some_iff, forall_eq']
    constructor
    · rintro ⟨hcurrent, hrosters⟩
      have hleft : s.left app.user.uid = s := Option.some.inj (hcurrent.trans hs)
      refine ⟨left_eq_self_iff.mp hleft, fun hwrite => ?_⟩
      rw [if_pos hwrite, writeRoster_eq_self_iff, hleft] at hrosters
      exact hrosters
    · rintro ⟨hout, hrosters⟩
      have hleft : s.left app.user.uid = s := left_eq_self_iff.mpr hout
      refine ⟨(congrArg some hleft).trans hs.symm, ?_⟩
      split
      · rename_i hwrite
        rw [writeRoster_eq_self_iff, hleft]
        exact hrosters hwrite
      · rfl

theorem unchanged_leaveOther_iff (a : Attempt) :
    Unchanged app (app.leaveOther net a.name db).1 db (app.leaveOther net a.name db).2 ↔
      Stays net a app db := by
  unfold App.leaveOther Stays
  split
  · rename_i hsame
    exact iff_of_true ⟨rfl, rfl⟩ (Or.inl hsame)
  · rename_i hother
    rw [unchanged_leave_iff, or_iff_right hother]

end Leave

/-- A failed join that got to the roster has put a new Session in place. -/
theorem install_ne_current {app app₀ : App} {sid : String} {d : SessionDocument}
    (h : app.nextPlayer = app₀.nextPlayer) :
    (app.install sid d).currentSession ≠ app₀.currentSession := by
  intro hsame
  let cpl := Roster.join app.user.username app.user.uid d.currentPlayerList
  have hcurrent : app₀.currentSession = some (d.joined sid app.user app.nextPlayer cpl) :=
    hsame.symm
  have hlt : app.nextPlayer < app₀.nextPlayer := app₀.fresh _ hcurrent _ rfl
  omega

theorem joinFound_failed {net : Network} {first again sid : String} {d : SessionDocument}
    {app app' : App} {db db' : Database} {why : Failure}
    (h : app.joinFound net first again sid d db = (.failed why, app', db')) :
    app' = app.install sid d := by
  rw [App.joinFound] at h
  dsimp only at h
  split at h
  · simp at h
  · split at h
    · split at h
      · simp at h
      · split at h <;> simp at h
    · exact (Prod.mk.inj (Prod.mk.inj h).2).1.symm

/-- A failed join leaves everything as it was exactly if it fails before it
has found a session, and had no effect in leaving the current one. -/
theorem failed_join_unchanged_iff {net : Network} {a : Attempt} {app app' : App}
    {db db' : Database} {why : Failure} (h : a.run net app db = (.failed why, app', db')) :
    Unchanged app app' db db' ↔ a.target net db = none ∧ Stays net a app db := by
  cases htarget : a.target net db with
  | none =>
      obtain ⟨why', hrun⟩ := run_of_target_eq_none _ htarget
      rw [h] at hrun
      have hleft := (Prod.mk.inj hrun).2
      rw [← unchanged_leaveOther_iff, ← hleft]
      simp
  | some sid =>
      obtain ⟨first, again, d, -, hrun⟩ := run_of_target_eq_some _ htarget
      rw [h] at hrun
      have happ := joinFound_failed hrun.symm
      refine iff_of_false (fun hsame => ?_) (by simp)
      have hcurrent := hsame.current
      rw [happ] at hcurrent
      exact install_ne_current (leaveOther_app net a.name app db).2 hcurrent

def sessionDocument (name hostUid : String) (l : Roster) : SessionDocument :=
  ⟨name, hostUid, [], .empty, [], .empty, false, l⟩

def smallDatabase : Database where
  users := ⟨[("h", ⟨"host", ["s"]⟩), ("a", ⟨"ann", ["s"]⟩)], by decide⟩
  sessions :=
    ⟨[("s", sessionDocument "song" "h" [⟨"host", "h", false⟩, ⟨"ann", "a", false⟩])], by decide⟩

def ann : User := ⟨"a", "ann"⟩

def annInSession : App :=
  App.install ⟨ann, ["s"], none, 0, App.fresh_none⟩ "s"
    (sessionDocument "song" "h" [⟨"host", "h", false⟩, ⟨"ann", "a", false⟩])

def online : Network := ⟨true, true, true, true, true⟩

/-- A guest types the name of the session it is in, and a host's name that
nobody has. -/
theorem failed_join_unchanged_same_name :
    ∃ app db, (Attempt.byName "song" "nobody").run online annInSession smallDatabase =
        (.failed .unknownHost, app, db) ∧ Unchanged annInSession app smallDatabase db := by
  let a : Attempt := .byName "song" "nobody"
  have hrun : a.run online annInSession smallDatabase =
      (.failed .unknownHost, annInSession, smallDatabase) := rfl
  have htarget : a.target online smallDatabase = none := by decide +kernel
  have hstays : Stays online a annInSession smallDatabase := Or.inl (by decide +kernel)
  exact ⟨_, _, hrun, (failed_join_unchanged_iff hrun).mpr ⟨htarget, hstays⟩⟩

/-- A guest mistypes the host's name and is out of the session it was in. -/
theorem out_of_session_by_mistyped_host :
    ¬ ∀ (net : Network) (a : Attempt) (app app' : App) (db db' : Database) (why : Failure),
      a.run net app db = (.failed why, app', db') → Unchanged app app' db db' := by
  intro h
  let a : Attempt := .byName "other song" "hots"
  have hrun : a.run online annInSession smallDatabase = (.failed .unknownHost, _, _) := rfl
  have hsame := (h _ _ _ _ _ _ _ hrun).rosters
  have hdocs := congrArg Collection.docs hsame
  exact absurd hdocs (by decide +kernel)

end Tootti.Membership
