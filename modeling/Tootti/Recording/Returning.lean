import Mathlib.Data.List.Perm.Basic
import Tootti.Recording.Screen

/-!
Leaving the app and coming back to it.

When the scene deactivates the user is taken out of the list of players, and
when it activates the user is appended to it, with the status the ready switch
shows. Both change the same cached Session, so that without a snapshot in
between a return builds on what the leaving left.
-/

namespace Tootti.Returning

open Machine Recording

/-- The list without the user's entries, and the user's entry at its end. -/
def returned (u : User) (on : Bool) (l : Roster) : Roster :=
  (l.filter fun p => p.uid ≠ u.uid) ++ [⟨u.username, u.uid, on⟩]

/-- The scene deactivates and activates, `n` times. -/
def cycles (n : Nat) : List Recording.Event :=
  (List.replicate n [.handleBackgroundStatus, .handleForegroundStatus]).flatten

/-- The list `l'` is `l` with the user's entry moved to the end. -/
structure Restored (u : User) (on : Bool) (l l' : Roster) : Prop where
  list : l' = (l.filter fun p => p.uid ≠ u.uid) ++ [⟨u.username, u.uid, on⟩]
  entry : ∀ p, (l.filter fun p => p.uid = u.uid) = [p] →
    l'.Perm (l.map fun p => if p.uid = u.uid then ⟨u.username, u.uid, on⟩ else p)
  status : ∀ status, (l.filter fun p => p.uid = u.uid) = [⟨u.username, u.uid, status⟩] →
    l'.Perm (l.map fun p => if p.uid = u.uid then { p with status := on } else p)

section Lists

variable {u : User} {on : Bool} {l : Roster}

/-- What the three operations of a deactivation and an activation come to. -/
theorem setStatus_addPlayer_removePlayer (u : User) (on : Bool) (l : Roster) :
    Roster.setStatus on (some u.uid)
        (Roster.addPlayer u.username u.uid (Roster.removePlayer (some u.uid) l)) =
      returned u on l := by
  have hold : Roster.setStatus on (some u.uid) (dropKey Player.uid u.uid l) =
      dropKey Player.uid u.uid l := by
    rw [Roster.setStatus_some, updateKey_dropKey]
  have hnew : Roster.setStatus on (some u.uid) [⟨u.username, u.uid, false⟩] =
      [⟨u.username, u.uid, on⟩] := by
    simp [Roster.setStatus]
  rw [Roster.removePlayer_some, Roster.addPlayer, Roster.setStatus, List.map_append,
    ← Roster.setStatus, ← Roster.setStatus, hold, hnew]
  rfl

/-- A second time changes nothing. -/
theorem returned_returned : returned u on (returned u on l) = returned u on l := by
  rw [returned, returned, List.filter_append, List.filter_filter]
  simp

theorem perm_returned {p : Player} (hp : (l.filter fun p => p.uid = u.uid) = [p]) :
    (returned u on l).Perm
      (l.map fun p => if p.uid = u.uid then ⟨u.username, u.uid, on⟩ else p) := by
  let f (p : Player) : Player := { p with username := u.username, status := on }
  have hkey : ∀ p, (f p).uid = p.uid := fun _ => rfl
  have hmap : (l.map fun p => if p.uid = u.uid then ⟨u.username, u.uid, on⟩ else p) =
      updateKey Player.uid u.uid f l := by
    refine List.map_congr_left fun q _ => ?_
    by_cases hq : q.uid = u.uid <;> simp [hq, f]
  have hown : own Player.uid u.uid (updateKey Player.uid u.uid f l) =
      [⟨u.username, u.uid, on⟩] := by
    have hfound : own Player.uid u.uid l = [p] := hp
    have huid : p.uid = u.uid := (mem_own.mp (hfound ▸ List.mem_singleton_self p)).2
    rw [own_updateKey_self hkey, hfound, ← huid]
    rfl
  -- the list is made of the others' entries and the user's
  have hsplit := List.filter_append_perm (fun p : Player => decide (p.uid ≠ u.uid))
    (updateKey Player.uid u.uid f l)
  have hothers : ((updateKey Player.uid u.uid f l).filter fun p => p.uid ≠ u.uid) =
      l.filter fun p => p.uid ≠ u.uid := dropKey_updateKey hkey
  have hrest : ((updateKey Player.uid u.uid f l).filter fun p => !decide (p.uid ≠ u.uid)) =
      [⟨u.username, u.uid, on⟩] := by
    rw [← hown, own]
    refine List.filter_congr fun q _ => ?_
    simp
  rw [hothers, hrest] at hsplit
  rw [hmap]
  exact hsplit

theorem restored_returned : Restored u on l (returned u on l) where
  list := rfl
  entry _ hp := perm_returned hp
  status status hp := by
    have hmap : (l.map fun p => if p.uid = u.uid then { p with status := on } else p) =
        l.map fun p => if p.uid = u.uid then ⟨u.username, u.uid, on⟩ else p := by
      refine List.map_congr_left fun q hq => ?_
      by_cases hquid : q.uid = u.uid
      · have hin : q ∈ l.filter fun p => p.uid = u.uid :=
          List.mem_filter.mpr ⟨hq, decide_eq_true hquid⟩
        rw [hp, List.mem_singleton] at hin
        simp [hin]
      · simp [hquid]
    rw [hmap]
    exact perm_returned hp

end Lists

/-! ### The screen's handlers -/

/-- The state after at least one return, with what was sent last. -/
structure Back (u : User) (session : Session) (s t : State) : Prop where
  screen : t.screen = s.screen
  cached : t.cached = some { session with
    currentPlayerList := returned u s.screen.statusSwitch session.currentPlayerList }
  sent : t.sent.getLast? = some (.currentPlayerList session.uid
    (returned u s.screen.statusSwitch session.currentPlayerList))

theorem run_cycle {u : User} {session : Session} {s : State} (hcached : s.cached = some session) :
    ∃ t, run (step u) s (cycles 1) = some t ∧ Back u session s t := by
  obtain ⟨screen, cached, lastFlag, audioRecordings, sent, nextPlayer⟩ := s
  obtain rfl : cached = some session := hcached
  have hlist :=
    setStatus_addPlayer_removePlayer u screen.statusSwitch session.currentPlayerList
  refine ⟨_, rfl, rfl, ?_, ?_⟩
  · rw [← hlist]
    rfl
  · rw [← hlist]
    -- the last of three lists is sent by the status update
    exact List.getLast?_append_cons (sent ++ [_]) _ [_]

theorem cycles_succ (n : Nat) : cycles (n + 1) = cycles n ++ cycles 1 := by
  simp [cycles, List.replicate_succ']

theorem run_cycles {u : User} {session : Session} {s : State} (hcached : s.cached = some session)
    (n : Nat) : ∃ t, run (step u) s (cycles (n + 1)) = some t ∧ Back u session s t := by
  induction n with
  | zero => exact run_cycle hcached
  | succ n ih =>
      obtain ⟨m, hm, hback⟩ := ih
      obtain ⟨t, ht, hagain⟩ := run_cycle (u := u) hback.cached
      refine ⟨t, ?_, hagain.screen.trans hback.screen, ?_, ?_⟩
      · rw [cycles_succ, run_append_eq_some]
        exact ⟨m, hm, ht⟩
      · rw [hagain.cached, hback.screen]
        simp only [returned_returned]
      · rw [hagain.sent, hback.screen]
        simp only [returned_returned]

/-- From every state with a Session, any number of returns restores the list
of players, cached and sent. -/
theorem roster_restored (u : User) (s : State) (session : Session) (n : Nat) :
    ∃ t l, run (step u) { s with cached := some session } (cycles (n + 1)) = some t ∧
      t.cached = some { session with currentPlayerList := l } ∧
      t.sent.getLast? = some (.currentPlayerList session.uid l) ∧
      Restored u s.screen.statusSwitch session.currentPlayerList l := by
  obtain ⟨t, hrun, hback⟩ :=
    run_cycles (u := u) (s := { s with cached := some session }) rfl n
  exact ⟨t, _, hrun, hback.cached, hback.sent, restored_returned⟩

end Tootti.Returning
