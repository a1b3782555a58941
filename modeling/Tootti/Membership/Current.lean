import Tootti.Machine.Run
import Tootti.Model.Join

/-!
The session a user is in, and the session the app says.

One user creates, joins and leaves sessions on one device while nobody else
acts and every call succeeds. Whether the old session is left when a new one
is joined is decided by its name, and creating a session does not make it
the current one.
-/

namespace Tootti.Membership

open Machine

structure State where
  app : App
  db : Database
  signedIn : Bool

inductive Event
  | login
  | createNewSession (sid name : String)
  | join (a : Attempt)
  | logOutTapped

def up : Network := ⟨true, true, true, true, true⟩

def step (s : State) : Event → Option State
  | .login =>
      if s.signedIn then none
      else
        let joined := (s.db.users.find? s.app.user.uid).elim [] UserDocument.joinedSessions
        some { s with app := { s.app with joinedSessions := joined }, signedIn := true }
  | .createNewSession sid name =>
      if s.signedIn then
        (createNewSession sid name s.app s.db).map fun (app, db) => { s with app, db }
      else none
  | .join a =>
      if s.signedIn then
        match a.run up s.app s.db with
        | (.entered _, app, db) => some { s with app, db }
        | _ => none
      else none
  | .logOutTapped =>
      if s.signedIn then
        let (app, db) := logOutTapped up s.app s.db
        some { app, db, signedIn := false }
      else none

def Member (db : Database) (uid sid : String) : Prop :=
  ∃ d ∈ db.sessions.find? sid, d.currentPlayerList.contains uid

/-- The user is in the roster of this session, if it is one, and of no
other. -/
def OnlyIn (db : Database) (uid : String) (session : Option String) : Prop :=
  ∀ sid, Member db uid sid ↔ session = some sid

def State.current (s : State) : Option String := s.app.currentSession.map Session.uid

def Located (s : State) : Prop := OnlyIn s.db s.app.user.uid s.current

/-- After an operation the user is in exactly the session the app says, and
that is the one the operation was about. -/
def Arrived (s : State) (e : Event) (s' : State) : Prop :=
  Located s' ∧
    match e with
    | .login => True
    | .createNewSession sid _ => s'.current = some sid
    | .join a => s'.current = a.target up s.db
    | .logOutTapped => s'.current = none

/-- The operation creates no session, and a session it joins by the name of
the current one is the current one. -/
def Unambiguous (s : State) : Event → Prop
  | .createNewSession _ _ => False
  | .join a => s.app.inSessionNamed a.name → a.target up s.db = s.current
  | _ => True

instance (s : State) : (e : Event) → Decidable (Unambiguous s e)
  | .createNewSession _ _ => .isFalse id
  | .join a => inferInstanceAs
      (Decidable (s.app.inSessionNamed a.name → a.target up s.db = s.current))
  | .login | .logOutTapped => .isTrue trivial

section Members

variable {db : Database} {app : App} {uid sid j : String} {l : Roster}

theorem member_writeRoster :
    Member (db.writeRoster sid l) uid j ↔
      if j = sid then (db.sessions.find? sid).isSome ∧ l.contains uid else Member db uid j := by
  rw [Member]
  rw [find?_writeRoster]
  split
  · rename_i hj
    subst j
    cases db.sessions.find? sid <;> simp
  · exact Iff.rfl

theorem not_member_of_docs
    (h : ∀ x ∈ db.sessions.docs, x.2.currentPlayerList.contains uid = false) :
    ¬ Member db uid sid := by
  rintro ⟨d, hd, hin⟩
  have hout := h _ (Collection.find?_eq_some.mp hd)
  simp [hout] at hin

/-- Whoever is still in a roster after leaving was in it before, and it is
not the current session's. -/
theorem member_leave (h : Member (app.leave true db).2 app.user.uid j) :
    Member db app.user.uid j ∧ app.currentSession.map Session.uid ≠ some j := by
  rw [App.leave] at h
  split at h
  · rename_i hnone
    exact ⟨h, by simp [hnone]⟩
  · rename_i s hs
    replace h : Member (db.writeRoster s.uid (s.left app.user.uid).currentPlayerList)
      app.user.uid j := h
    rw [member_writeRoster] at h
    split at h
    · have hout : (s.left app.user.uid).currentPlayerList.contains app.user.uid = false :=
        Roster.contains_removePlayer _ _
      simp [hout] at h
    · rename_i hj
      exact ⟨h, by simpa [hs] using Ne.symm hj⟩

theorem joinFound_entered {net : Network} {first again segue : String} {d : SessionDocument}
    {app' : App} {db' : Database} (hd : db.sessions.find? sid = some d)
    (h : app.joinFound net first again sid d db = (.entered segue, app', db')) :
    app'.user = app.user ∧ app'.currentSession.map Session.uid = some sid ∧
      ∀ j, Member db' app.user.uid j ↔ j = sid ∨ Member db app.user.uid j := by
  let l := Roster.join app.user.username app.user.uid d.currentPlayerList
  have hwritten : ∀ users j, Member { db.writeRoster sid l with users } app.user.uid j ↔
      j = sid ∨ Member db app.user.uid j := by
    intro users j
    have hsame : Member { db.writeRoster sid l with users } app.user.uid j ↔
        Member (db.writeRoster sid l) app.user.uid j := Iff.rfl
    rw [hsame, member_writeRoster]
    by_cases hj : j = sid
    · simp [hj, hd, l, Roster.contains_join]
    · simp [hj]
  rw [App.joinFound] at h
  dsimp only at h
  split at h
  · rename_i hin
    simp only [Prod.mk.injEq, Outcome.entered.injEq] at h
    obtain ⟨-, rfl, rfl⟩ := h
    refine ⟨rfl, rfl, fun j => ⟨Or.inr, ?_⟩⟩
    rintro (rfl | hj)
    · exact ⟨d, hd, hin⟩
    · exact hj
  · split at h
    · split at h
      · simp only [Prod.mk.injEq, Outcome.entered.injEq] at h
        obtain ⟨-, rfl, rfl⟩ := h
        exact ⟨rfl, rfl, hwritten db.users⟩
      · split at h
        · simp only [Prod.mk.injEq, Outcome.entered.injEq] at h
          obtain ⟨-, rfl, rfl⟩ := h
          exact ⟨rfl, rfl, hwritten _⟩
        · simp at h
    · simp at h

end Members

section Steps

variable {s s' : State} {e : Event}

theorem onlyIn_leave {app : App} {db : Database}
    (h : OnlyIn db app.user.uid (app.currentSession.map Session.uid)) :
    OnlyIn (app.leave true db).2 app.user.uid none := by
  refine fun j => iff_of_false (fun hj => ?_) (Option.some_ne_none j).symm
  obtain ⟨hold, hne⟩ := member_leave hj
  exact hne ((h j).mp hold)

theorem onlyIn_leave_none {app : App} {db : Database} (h : OnlyIn db app.user.uid none) :
    OnlyIn (app.leave true db).2 app.user.uid none := by
  refine fun j => iff_of_false (fun hj => ?_) (Option.some_ne_none j).symm
  exact absurd ((h j).mp (member_leave hj).1) (Option.some_ne_none j).symm

theorem arrived_logOutTapped (h : Located s) (hstep : step s .logOutTapped = some s') :
    Arrived s .logOutTapped s' := by
  simp only [step] at hstep
  split at hstep <;> simp only [Option.some.injEq, reduceCtorEq] at hstep
  subst s'
  obtain ⟨huser, -⟩ := leave_app true s.app s.db
  have hfirst := onlyIn_leave h
  rw [← huser] at hfirst
  have hsecond := onlyIn_leave_none hfirst
  obtain ⟨huser', -⟩ := leave_app true (s.app.leave true s.db).1 (s.app.leave true s.db).2
  rw [← huser'] at hsecond
  exact ⟨hsecond, rfl⟩

theorem not_arrived_createNewSession {sid name : String} (h : Located s)
    (hstep : step s (.createNewSession sid name) = some s') :
    ¬ Arrived s (.createNewSession sid name) s' := by
  simp only [step] at hstep
  split at hstep <;> simp only [Option.map_eq_some_iff, reduceCtorEq] at hstep
  obtain ⟨⟨app, db⟩, hcreate, rfl⟩ := hstep
  rw [createNewSession] at hcreate
  split at hcreate
  · simp at hcreate
  · split at hcreate <;> simp only [Option.some.injEq, Prod.mk.injEq, reduceCtorEq] at hcreate
    rename_i hfree
    obtain ⟨rfl, rfl⟩ := hcreate
    rintro ⟨-, hcurrent⟩
    obtain ⟨d, hd, -⟩ := (h sid).mpr hcurrent
    rw [hfree] at hd
    exact Option.not_mem_none d hd

/-- A join arrives exactly if the user is in no other session by then. -/
theorem arrived_join_iff {a : Attempt} (h : Located s) (hstep : step s (.join a) = some s') :
    Arrived s (.join a) s' ↔ Unambiguous s (.join a) := by
  simp only [step] at hstep
  split at hstep
  · split at hstep <;> simp only [Option.some.injEq, reduceCtorEq] at hstep
    rename_i segue app db hrun
    subst s'
    cases htarget : a.target up s.db with
    | none =>
        obtain ⟨why, hfailed⟩ := run_of_target_eq_none s.app htarget
        simp [hrun] at hfailed
    | some sid =>
        obtain ⟨first, again, d, hd, hfound⟩ := run_of_target_eq_some s.app htarget
        rw [hrun] at hfound
        obtain ⟨huser, hcurrent, hmember⟩ := joinFound_entered hd hfound.symm
        rw [(leaveOther_app up a.name s.app s.db).1] at huser hmember
        have harrived : Arrived s (.join a) { s with app, db } ↔
            ∀ j, Member (s.app.leaveOther up a.name s.db).2 s.app.user.uid j → j = sid := by
          simp only [Arrived, Located, State.current, OnlyIn, huser, hcurrent, htarget, and_true,
            hmember, Option.some.injEq]
          refine forall_congr' fun j => ⟨fun hj hold => (hj.mp (Or.inr hold)).symm, fun hj => ?_⟩
          exact ⟨fun hnew => (hnew.elim id hj).symm, fun hj => Or.inl hj.symm⟩
        rw [harrived]
        simp only [Unambiguous, htarget]
        rw [App.leaveOther]
        split
        · -- the current session has the name, and is not left
          rename_i hsame
          simp only [hsame, forall_const]
          obtain ⟨c, hc⟩ : ∃ c, s.app.currentSession = some c := by
            rw [App.inSessionNamed] at hsame
            cases hc : s.app.currentSession with
            | none => simp [hc] at hsame
            | some c => exact ⟨c, rfl⟩
          have hcur : s.current = some c.uid := by rw [State.current, hc]; rfl
          have hmem : ∀ j, Member s.db s.app.user.uid j ↔ some c.uid = some j := hcur ▸ h
          rw [hcur]
          refine ⟨fun honly => congrArg some (honly c.uid ((hmem c.uid).mpr rfl)).symm, ?_⟩
          intro heq j hj
          exact Option.some.inj (((hmem j).mp hj).symm.trans heq.symm)
        · -- the user is in no session any more
          rename_i hother
          refine iff_of_true (fun j hj => ?_) fun hsame => absurd hsame hother
          exact absurd ((onlyIn_leave h j).mp hj) (Option.some_ne_none j).symm
  · simp at hstep

theorem arrived_iff_unambiguous (h : Located s) (hstep : step s e = some s') :
    Arrived s e s' ↔ Unambiguous s e := by
  cases e with
  | login =>
      simp only [step] at hstep
      split at hstep <;> simp only [Option.some.injEq, reduceCtorEq] at hstep
      subst s'
      exact iff_of_true ⟨h, trivial⟩ trivial
  | createNewSession sid name =>
      exact iff_of_false (not_arrived_createNewSession h hstep) id
  | join a => exact arrived_join_iff h hstep
  | logOutTapped => exact iff_of_true (arrived_logOutTapped h hstep) trivial

end Steps

/-- From any state in which a user is in exactly the session the app says, a
run keeps it so after each operation, and arrives at the session that was
meant, exactly if it creates no session and joins no other one that has the
current one's name. -/
theorem arrived_iff_run_unambiguous {s : State} (h : Located s) (es : List Event) :
    EveryStep step Arrived s es ↔ Meets step Unambiguous s es := by
  have hagree : ∀ s e s', Located s → step s e = some s' → (Arrived s e s' ↔ Unambiguous s e) :=
    fun s e s' h hs => arrived_iff_unambiguous h hs
  exact everyStep_iff_of_invariant hagree (fun s e s' _ _ h => h.1) h es

theorem located_of_no_member {s : State} (hout : s.app.currentSession = none)
    (hnone : ∀ sid, ¬ Member s.db s.app.user.uid sid) : Located s := by
  have hcur : s.current = none := by rw [State.current, hout]; rfl
  rw [Located, hcur]
  exact fun sid => iff_of_false (hnone sid) (Option.some_ne_none sid).symm

def outside : State where
  app := ⟨⟨"a", "ann"⟩, [], none, 0, App.fresh_none⟩
  db :=
    { users := ⟨[("h", ⟨"host", ["s", "t"]⟩), ("a", ⟨"ann", []⟩)], by decide⟩
      sessions := ⟨[("s", ⟨"song", "h", [], .empty, [], .empty, false, [⟨"host", "h", false⟩]⟩),
        ("t", ⟨"tune", "h", [], .empty, [], .empty, false, []⟩)], by decide⟩ }
  signedIn := true

theorem located_outside : Located outside :=
  located_of_no_member rfl fun _ => not_member_of_docs (by decide)

/-- One session after the other, and logging out. -/
theorem arrived_two_sessions :
    (run step outside [.join (.byName "song " "host"), .join (.byName "song" "host"),
        .join (.byName " tune" "host"), .logOutTapped, .login]).isSome ∧
      EveryStep step Arrived outside [.join (.byName "song " "host"),
        .join (.byName "song" "host"), .join (.byName " tune" "host"), .logOutTapped, .login] :=
  ⟨by decide +kernel,
    (arrived_iff_run_unambiguous located_outside _).mpr (by decide +kernel)⟩

/-- Creating a session leaves the app without a current session. -/
theorem created_session_not_current :
    ¬ ∀ s : State, Located s → ∀ es, EveryStep step Arrived s es := by
  intro h
  have hrun : step outside (.createNewSession "n" "new song") = some _ := rfl
  have hevery := h outside located_outside [.createNewSession "n" "new song"]
  exact absurd ((everyStep_cons hrun).mp hevery).1.2 (by decide +kernel)

end Tootti.Membership
