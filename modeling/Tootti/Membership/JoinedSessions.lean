import Tootti.Machine.Run
import Tootti.Model.Join

/-!
The sessions an account has joined, as the account's document lists them and
as the device has them stored.

`createNewSession:` sends the stored list with the new session at its end. A
join sends an array union, and only if the stored list lacks the session. It
reads and changes the stored list through `mutableArrayValueForKey:`, a proxy
for whatever array is under the key; at its end it removes the key and stores
the proxy, which then stands for no array at all.
-/

namespace Tootti.JoinedSessions

open Machine

/-- An `updateData:` of the field `joinedSessions`. -/
inductive Write
  | list (base : List String) (sid : String)
  | arrayUnion (sid : String)
  deriving DecidableEq, Repr

def Write.sid : Write → String
  | .list _ sid | .arrayUnion sid => sid

def Write.apply : Write → List String → List String
  | .list base sid, _ => base ++ [sid]
  | .arrayUnion sid, l => Machine.arrayUnion l sid

/-- What a proxy does when there is no array under its key. -/
inductive MissingKey
  | raises
  | empty
  deriving DecidableEq, Repr

/-- The array under `joinedSessions` in the user defaults. -/
abbrev Stored := Option (List String)

/-- Reading the proxy; `none` when it raises. -/
def MissingKey.read : MissingKey → Stored → Option (List String)
  | _, some l => some l
  | .raises, none => none
  | .empty, none => some []

/-- `addObject:` on the proxy. -/
def MissingKey.addObject (k : MissingKey) (sid : String) (stored : Stored) : Option Stored :=
  (k.read stored).map fun l => some (l ++ [sid])

/-- What a join stores when its update was written: it adds the session
through the proxy, removes the key, and stores what the proxy reads. -/
def MissingKey.storeProxy (k : MissingKey) (sid : String) (stored : Stored) : Option Stored := do
  let _ ← k.addObject sid stored
  let removed : Stored := none
  let l ← k.read removed
  some (some l)

/-- `joinedSessionList` of `createNewSession:`. -/
def createWrite (sid : String) (stored : Stored) : Write := .list (stored.getD []) sid

/-- What a join sends once it is in the roster; `none` when it raises. -/
def joinWrite (k : MissingKey) (sid : String) (inRoster : Bool) (stored : Stored) :
    Option (Option Write) :=
  if inRoster then some none
  else (k.read stored).map fun l => if l.contains sid then none else some (.arrayUnion sid)

/-- The stored list after the completion of an update; `none` when it
raises. -/
def Write.complete (k : MissingKey) : Write → Stored → Option Stored
  | .list base sid, _ => some (some (base ++ [sid]))
  | .arrayUnion sid, stored => k.storeProxy sid stored

theorem storeProxy_some (k : MissingKey) (sid : String) (l : List String) :
    k.storeProxy sid (some l) = (k.read none).map some := by
  cases k <;> rfl

theorem mem_apply {w : Write} {l : List String} {x : String} :
    x ∈ w.apply l ↔ x = w.sid ∨ match w with
      | .list base _ => x ∈ base
      | .arrayUnion _ => x ∈ l := by
  cases w with
  | list base sid => simp [Write.apply, Write.sid, or_comm]
  | arrayUnion sid => rw [Write.apply, mem_arrayUnion, or_comm, Write.sid]

/-! ### One device

The device is the only one that uses the account; other users do what they
like to the sessions, so a join finds its user in the roster or does not. -/

structure State where
  /-- `joinedSessions` of the user's document. -/
  account : List String
  stored : Stored
  raised : Bool
  deriving DecidableEq, Repr

inductive Event
  | login
  | createNewSession (sid : String)
  /-- `joinSession:` or `joinPastSession:`. -/
  | join (sid : String) (inRoster : Bool)

/-- The account as `createAccount:` makes it, and nobody signed in. -/
def initial : State := ⟨[], none, false⟩

/-- An update is written and its completion is called. -/
def State.write (k : MissingKey) (w : Write) (s : State) : State :=
  match w.complete k s.stored with
  | none => { s with account := w.apply s.account, raised := true }
  | some stored => { s with account := w.apply s.account, stored }

def step (k : MissingKey) (s : State) : Event → Option State
  | .login => if s.raised then none else some { s with stored := some s.account }
  | .createNewSession sid =>
      -- the identifier of a new document is in no list
      if s.raised || s.stored.isNone || s.account.contains sid then none
      else some (s.write k (createWrite sid s.stored))
  | .join sid inRoster =>
      if s.raised || s.stored.isNone then none
      else
        match joinWrite k sid inRoster s.stored with
        | none => some { s with raised := true }
        | some none => some s
        | some (some w) => some (s.write k w)

/-- The stored list has no duplicates and the elements of the account's, and
nothing has raised. -/
def Mirrors (s : State) : Prop :=
  s.raised = false ∧ ∃ l, s.stored = some l ∧ l.Nodup ∧ ∀ x, x ∈ l ↔ x ∈ s.account

/-- The operation is not the user's first join of the session: it finds the
user in the roster, or the session in the stored list. -/
def JoinedBefore (s : State) : Event → Prop
  | .join sid inRoster => inRoster ∨ ∃ l ∈ s.stored, sid ∈ l
  | _ => True

instance (s : State) : (e : Event) → Decidable (JoinedBefore s e)
  | .join sid inRoster => inferInstanceAs (Decidable (inRoster ∨ ∃ l ∈ s.stored, sid ∈ l))
  | .login | .createNewSession _ => .isTrue trivial

/-- What operations build on: nothing has raised, and a stored list is the
account's up to order. -/
structure Sound (s : State) : Prop where
  raised : s.raised = false
  account : s.account.Nodup
  stored : ∀ l, s.stored = some l → l.Nodup ∧ ∀ x, x ∈ l ↔ x ∈ s.account

section Steps

variable {k : MissingKey} {s s' : State} {e : Event}

theorem write_createWrite {l : List String} {sid : String} (hl : s.stored = some l) :
    s.write k (createWrite sid s.stored) =
      { s with account := l ++ [sid], stored := some (l ++ [sid]) } := by
  rw [State.write, createWrite, hl]
  rfl

theorem write_arrayUnion {l : List String} {sid : String} (hl : s.stored = some l) :
    s.write k (.arrayUnion sid) =
      match k with
      | .raises => { s with account := arrayUnion s.account sid, raised := true }
      | .empty => { s with account := arrayUnion s.account sid, stored := some [] } := by
  rw [State.write, Write.complete, hl, storeProxy_some]
  cases k <;> rfl

theorem not_mirrors_arrayUnion {l : List String} {sid : String} (hl : s.stored = some l) :
    ¬ Mirrors (s.write k (.arrayUnion sid)) := by
  rw [write_arrayUnion hl]
  cases k with
  | raises => exact fun h => Bool.noConfusion h.1
  | empty =>
      rintro ⟨-, l', hl', -, hmem⟩
      obtain rfl := Option.some.inj hl'
      exact List.not_mem_nil ((hmem sid).mpr (mem_arrayUnion.mpr (Or.inr rfl)))

theorem joinWrite_of_stored {l : List String} {sid : String} {inRoster : Bool} :
    joinWrite k sid inRoster (some l) =
      some (if inRoster ∨ sid ∈ l then none else some (.arrayUnion sid)) := by
  rw [joinWrite]
  cases inRoster with
  | true => simp
  | false => by_cases hmem : sid ∈ l <;> simp [MissingKey.read, hmem]

theorem step_join {l : List String} {sid : String} {inRoster : Bool} (hr : s.raised = false)
    (hl : s.stored = some l) :
    step k s (.join sid inRoster) =
      some (if inRoster ∨ sid ∈ l then s else s.write k (.arrayUnion sid)) := by
  simp only [step, hr, hl, joinWrite_of_stored]
  by_cases hcond : inRoster ∨ sid ∈ l <;> simp [hcond]

/-- What an operation does, by whether it is a first join. -/
inductive Turn (k : MissingKey) (s : State) (e : Event) (s' : State) : Prop
  | login (he : JoinedBefore s e) (hs : s' = { s with stored := some s.account })
  | created (l : List String) (sid : String) (he : JoinedBefore s e) (hl : s.stored = some l)
      (hnew : sid ∉ s.account)
      (hs : s' = { s with account := l ++ [sid], stored := some (l ++ [sid]) })
  | known (l : List String) (he : JoinedBefore s e) (hl : s.stored = some l) (hs : s' = s)
  | first (l : List String) (sid : String) (he : ¬ JoinedBefore s e) (hl : s.stored = some l)
      (hs : s' = s.write k (.arrayUnion sid))

theorem step_turn (hr : s.raised = false) (hstep : step k s e = some s') : Turn k s e s' := by
  cases e with
  | login =>
      simp only [step] at hstep
      split at hstep <;> simp only [Option.some.injEq, reduceCtorEq] at hstep
      exact .login trivial hstep.symm
  | createNewSession sid =>
      simp only [step] at hstep
      cases hl : s.stored with
      | none => simp [hl] at hstep
      | some l =>
          split at hstep <;> simp only [Option.some.injEq, reduceCtorEq] at hstep
          rename_i hguard
          rw [write_createWrite hl] at hstep
          have hnew : sid ∉ s.account := fun hmem => hguard (by simp [hmem])
          exact .created l sid trivial hl hnew hstep.symm
  | join sid inRoster =>
      cases hl : s.stored with
      | none => simp [step, hl] at hstep
      | some l =>
          have hbefore : JoinedBefore s (.join sid inRoster) ↔ inRoster ∨ sid ∈ l := by
            simp [JoinedBefore, hl]
          rw [step_join hr hl, Option.some.injEq] at hstep
          split at hstep
          · rename_i hcond
            exact .known l (hbefore.mpr hcond) hl hstep.symm
          · rename_i hcond
            exact .first l sid (fun h => hcond (hbefore.mp h)) hl hstep.symm

theorem sound_initial : Sound initial :=
  ⟨rfl, List.nodup_nil, fun _ hl => absurd hl (Option.some_ne_none _).symm⟩

/-- An operation that is not a first join keeps the lists alike. -/
theorem Sound.step (h : Sound s) (hstep : step k s e = some s') (he : JoinedBefore s e) :
    Sound s' ∧ s'.stored.isSome := by
  cases step_turn h.raised hstep with
  | login _ hs =>
      subst s'
      refine ⟨⟨h.raised, h.account, fun l hl => ?_⟩, rfl⟩
      obtain rfl := Option.some.inj hl
      exact ⟨h.account, fun _ => Iff.rfl⟩
  | created l sid _ hl hnew hs =>
      subst s'
      have hnew' : sid ∉ l := fun hmem => hnew (((h.stored l hl).2 sid).mp hmem)
      have hnodup := List.Nodup.concat hnew' (h.stored l hl).1
      rw [List.concat_eq_append] at hnodup
      refine ⟨⟨h.raised, hnodup, fun l' hl' => ?_⟩, rfl⟩
      obtain rfl := Option.some.inj hl'
      exact ⟨hnodup, fun _ => Iff.rfl⟩
  | known l _ hl hs =>
      subst s'
      exact ⟨h, by rw [hl]; rfl⟩
  | first _ _ hfirst => exact absurd he hfirst

theorem mirrors_iff_joinedBefore (h : Sound s) (hstep : JoinedSessions.step k s e = some s') :
    Mirrors s' ↔ JoinedBefore s e := by
  constructor
  · intro hmirrors
    by_contra he
    cases step_turn h.raised hstep with
    | first l sid _ hl hs => exact not_mirrors_arrayUnion hl (hs ▸ hmirrors)
    | login hbefore | created _ _ hbefore | known _ hbefore => exact he hbefore
  · intro he
    obtain ⟨hsound, hsome⟩ := h.step hstep he
    obtain ⟨l, hl⟩ := Option.isSome_iff_exists.mp hsome
    exact ⟨hsound.raised, l, hl, hsound.stored l hl⟩

end Steps

/-! ### The lists in the app -/

section Operations

variable {app app' : App} {db db' : Database} {sid : String}

/-- The two lists of a signed-in app. -/
def lists (app : App) (db : Database) : State where
  account := (db.users.find? app.user.uid).elim [] UserDocument.joinedSessions
  stored := some app.joinedSessions
  raised := false

theorem account_update {u : UserDocument} {users : Collection String UserDocument}
    {f : List String → List String} (hu : users.find? app.user.uid = some u) :
    ((users.update app.user.uid fun u => { u with joinedSessions := f u.joinedSessions }).find?
      app.user.uid).elim [] UserDocument.joinedSessions = f u.joinedSessions := by
  rw [Collection.find?_update, if_pos rfl, hu]
  rfl

/-- A join does to the two lists what `join` says, where a proxy without an
array reads as an empty one. -/
theorem step_lists_joinFound {net : Network} {first again segue : String} {d : SessionDocument}
    {u : UserDocument} (hu : db.users.find? app.user.uid = some u)
    (h : app.joinFound net first again sid d db = (.entered segue, app', db')) :
    step .empty (lists app db) (.join sid (d.currentPlayerList.contains app.user.uid)) =
      some (lists app' db') := by
  rw [step_join rfl rfl]
  rw [App.joinFound] at h
  dsimp only at h
  split at h
  · rename_i hin
    simp only [Prod.mk.injEq] at h
    obtain ⟨-, rfl, rfl⟩ := h
    rw [if_pos (Or.inl hin)]
    rfl
  · rename_i hout
    split at h
    · split at h
      · rename_i hlisted
        simp only [Prod.mk.injEq] at h
        obtain ⟨-, rfl, rfl⟩ := h
        rw [if_pos (Or.inr (by simpa using hlisted))]
        rfl
      · rename_i hunlisted
        split at h <;> simp only [Prod.mk.injEq, reduceCtorEq, false_and] at h
        obtain ⟨-, rfl, rfl⟩ := h
        rw [if_neg (by simpa [hout] using hunlisted), write_arrayUnion rfl]
        have haccount : (lists app db).account = u.joinedSessions := by rw [lists, hu]; rfl
        refine congrArg some (congrArg (State.mk · (some []) false) ?_)
        exact (congrArg (arrayUnion · sid) haccount).trans
          (account_update (f := fun l => arrayUnion l sid) hu).symm
    · simp at h

theorem step_lists_createNewSession {name : String} {u : UserDocument}
    (hu : db.users.find? app.user.uid = some u) (hnew : sid ∉ u.joinedSessions)
    (h : createNewSession sid name app db = some (app', db')) :
    step .empty (lists app db) (.createNewSession sid) = some (lists app' db') := by
  have haccount : (lists app db).account = u.joinedSessions := by rw [lists, hu]; rfl
  have hstep : step .empty (lists app db) (.createNewSession sid) =
      some ((lists app db).write .empty (createWrite sid (lists app db).stored)) := by
    rw [step, haccount]
    simp [lists, hnew]
  rw [hstep, write_createWrite rfl]
  rw [createNewSession] at h
  split at h
  · simp at h
  · split at h <;> simp only [Option.some.injEq, Prod.mk.injEq, reduceCtorEq] at h
    obtain ⟨rfl, rfl⟩ := h
    refine congrArg some (congrArg (State.mk · (some (app.joinedSessions ++ [sid])) false) ?_)
    exact (account_update (f := fun _ => app.joinedSessions ++ [sid]) hu).symm

end Operations

/-- On the only device of an account the stored list mirrors the account's
after each operation exactly if no session is joined for the first time. -/
theorem mirrors_iff_run_joinedBefore (k : MissingKey) (es : List Event) :
    EveryStep (step k) (fun _ _ s' => Mirrors s') initial es ↔
      Meets (step k) JoinedBefore initial es := by
  have hagree : ∀ s e s', Sound s → step k s e = some s' → (Mirrors s' ↔ JoinedBefore s e) :=
    fun s e s' h hstep => mirrors_iff_joinedBefore h hstep
  have hkeep : ∀ s e s', Sound s → step k s e = some s' → Mirrors s' → Sound s' :=
    fun s e s' h hstep hm => (h.step hstep ((hagree s e s' h hstep).mp hm)).1
  exact everyStep_iff_of_invariant hagree hkeep sound_initial es

/-- The first join. -/
theorem stored_list_lost_by_join :
    ¬ ∃ k, ∀ es, EveryStep (step k) (fun _ _ s' => Mirrors s') initial es := by
  rintro ⟨k, h⟩
  have hmeets := (mirrors_iff_run_joinedBefore k _).mp (h [.login, .join "s" false])
  cases k <;> exact absurd hmeets (by decide)

end Tootti.JoinedSessions
