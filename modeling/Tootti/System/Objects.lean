import Tootti.System.References

/-!
The name and the host of a Session object.

Whether a user is the host is decided by comparing the uid with the `hostUid`
of some Session object, and whether a join leaves a session by comparing names.
The joins make their object of one document and its identifier. `refresh:` of
the Merge screen asks for the document of the Session that is cached when the
button is tapped, and when the answer comes takes the identifier of the Session
that is cached by then.
-/

namespace Tootti.Traffic

open Machine Protocol

/-- Every Session object has the name and the host of the session whose
identifier it has. -/
def WellNamed (db : Database) (c : Client) : Prop :=
  ∀ o ∈ c.phone.sessions, Names db o.uid o.sessionName o.hostUid

/-- The answer is about a session of the name and host of the one that the
screen has cached by now. -/
def Fits (c : Client) : Request → Answer → Prop
  | .refresh k _, .document (some d) =>
      ∀ o ∈ c.phone.cachedSession k, o.sessionName = d.sessionName ∧ o.hostUid = d.hostUid
  | _, _ => True

section Client

variable {db : Database} {c c' : Client} {l : List Request} {r : Option Nat}

theorem Names.unique {sid sessionName hostUid : String} {d : SessionDocument}
    (h : Names db sid sessionName hostUid) (hd : db.sessions.find? sid = some d) :
    sessionName = d.sessionName ∧ hostUid = d.hostUid := by
  obtain ⟨d', hd', rfl, rfl⟩ := h
  obtain rfl := Option.some.inj (hd'.symm.trans hd)
  exact ⟨rfl, rfl⟩

theorem WellNamed.grows {v w : Database} (h : Grows v w) (hc : WellNamed v c) : WellNamed w c :=
  fun o ho => (hc o ho).grows h

theorem wellNamed_ended (c : Client) : WellNamed db c.ended :=
  fun _ ho => absurd ho List.not_mem_nil

theorem WellNamed.sendRoster {f : Roster → Option Roster} (hc : WellNamed db c)
    (h : c.sendRoster r f = some (c', l)) : WellNamed db c' := by
  obtain ⟨rfl, -⟩ | ⟨s, players, -, -, rfl, -⟩ := Client.sendRoster_eq_some h
  · exact hc
  · exact Heap.forall_mem_modifyObject (fun _ _ ho => ho) hc

theorem WellNamed.leaveOther {name : String} (hc : WellNamed db c)
    (h : c.leaveOther name = some (c', l)) : WellNamed db c' := by
  obtain ⟨rfl, -⟩ | hleft := Client.leaveOther_eq_some h
  · exact hc
  · exact hc.sendRoster hleft

theorem WellNamed.send {k : Nat} {f : Session → Request} (hc : WellNamed db c)
    (h : c.send k f = some (c', l)) : WellNamed db c' := by
  obtain ⟨s, -, rfl, -⟩ := Client.send_eq_some h
  exact hc

/-- What a user does changes lists of objects and nothing else of them. -/
theorem WellNamed.act {a : Action} (hc : WellNamed db c) (h : c.act a = some (c', l)) :
    WellNamed db c' := by
  cases a with
  | createAccount username =>
      obtain ⟨rfl, -⟩ := Prod.mk.inj (Option.some.inj h)
      exact hc
  | login uid =>
      obtain ⟨rfl, -⟩ := Prod.mk.inj (Option.some.inj h)
      exact hc
  | logOutTapped home =>
      obtain ⟨c₁, first, c₂, second, hfirst, hsecond, rfl, -⟩ := Client.logOutTapped_eq_some h
      have hleft : WellNamed db c₂ := (hc.sendRoster hfirst).sendRoster hsecond
      exact hleft
  | createNewSession sessionName =>
      obtain ⟨u, -, rfl, -⟩ := Client.createNewSession_eq_some h
      exact hc
  | joinSession sessionCode hostName =>
      obtain ⟨u, left, -, hleft, -⟩ := Client.joinSession_eq_some h
      exact hc.leaveOther hleft
  | joinPastSession sid sessionName =>
      obtain ⟨u, left, -, hleft, -⟩ := Client.joinPastSession_eq_some h
      exact hc.leaveOther hleft
  | viewDidLoad tab =>
      obtain ⟨rfl, -⟩ := Prod.mk.inj (Option.some.inj h)
      exact hc
  | viewWillAppear k =>
      obtain ⟨rfl, -⟩ := Prod.mk.inj (Option.some.inj h)
      exact hc
  | updateUsersStatus k status =>
      have hsent : c.updateStatus (c.cached k) status = some (c', l) := h
      exact hc.sendRoster hsent
  | handleBackgroundStatus k =>
      have hsent : c.updateActivity (c.cached k) false = some (c', l) := h
      exact hc.sendRoster hsent
  | handleForegroundStatus k status =>
      obtain ⟨c₁, first, second, hfirst, hsecond, -⟩ := Client.handleForegroundStatus_eq_some h
      exact (hc.sendRoster hfirst).sendRoster hsecond
  | confirmTracks k library selectedRecordings =>
      obtain ⟨u, s, -, -, rfl, -⟩ := Client.confirmTracks_eq_some h
      exact hc
  | commitEditing k i =>
      obtain ⟨s, d, phone, -, hcommit, rfl, -⟩ := Client.commitEditing_eq_some h
      obtain ⟨x, track, s', -, -, -, rfl, rfl⟩ := Phone.commitEditing_eq_some hcommit
      exact Heap.forall_mem_modifyObject (fun _ _ ho => ho) hc
  | refresh k =>
      obtain ⟨s, -, rfl, -⟩ := Client.refresh_eq_some h
      exact hc
  | sessionRecordingStatusUpdate k status => exact hc.send h
  | uploadClickTrack k url => exact hc.send h
  | uploadMerge k url => exact hc.send h

theorem WellNamed.found {user : User} {sid : String} {d : SessionDocument} (hc : WellNamed db c)
    (hd : Names db sid d.sessionName d.hostUid) : WellNamed db (c.found user sid d).1 := by
  intro o ho
  rcases List.mem_append.mp ho with ho | ho
  · exact hc o ho
  · obtain rfl := List.mem_singleton.mp ho
    exact hd

/-- A refresh makes an object of its own, which is right if the answer fits. -/
theorem wellNamed_finishRefresh_iff {k : Nat} {sid : String} {d : SessionDocument} {o : Session}
    (hc : WellNamed db c) (ho : c.phone.cachedSession k = some o) :
    WellNamed db { c with phone := c.phone.finishRefresh k o.uid d } ↔
      Fits c (.refresh k sid) (.document (some d)) := by
  have hmem : o ∈ c.phone.sessions := by
    obtain ⟨x, -, hx⟩ := Option.bind_eq_some_iff.mp ho
    exact Heap.mem_of_object? hx
  obtain ⟨d', hd', hname, hhost⟩ := hc o hmem
  have hfits : Fits c (.refresh k sid) (.document (some d)) ↔
      o.sessionName = d.sessionName ∧ o.hostUid = d.hostUid := by
    simp only [Fits, ho, Option.mem_some_iff, forall_eq']
  have hsessions : (c.phone.finishRefresh k o.uid d).sessions =
      c.phone.sessions ++ [Phone.refreshedSession o.uid d] := rfl
  rw [hfits, ← hname, ← hhost, WellNamed, hsessions]
  constructor
  · intro h
    have hnew := h _ (List.mem_append_right _ List.mem_cons_self)
    obtain ⟨hname', hhost'⟩ := hnew.unique hd'
    exact ⟨hname'.symm, hhost'.symm⟩
  · rintro ⟨hname', hhost'⟩ o' ho'
    rcases List.mem_append.mp ho' with ho' | ho'
    · exact hc o' ho'
    · obtain rfl := List.mem_singleton.mp ho'
      exact ⟨d', hd', hname', hhost'⟩

theorem wellNamed_receive_iff {m : JoinedSessions.MissingKey} {q : Request} {a : Answer}
    (hc : WellNamed db c) (ha : AnswerRefers db q a) (h : c.receive m q a = some (c', l)) :
    WellNamed db c' ↔ Fits c q a := by
  cases Client.receive_cases h with
  | session user sessionName hostUid sid d => exact iff_of_true (hc.found ha.1) trivial
  | pastSession user sid d => exact iff_of_true (hc.found ha.1) trivial
  | snapshot k sid d =>
      refine iff_of_true ?_ trivial
      exact Phone.forall_mem_snapshot (fun _ ho => ho) (fun _ _ _ ho => ho) hc
  | refreshNone k sid d hnone =>
      refine iff_of_true hc fun o ho => ?_
      rw [hnone] at ho
      exact absurd ho (Option.not_mem_none o)
  | refresh k sid d o ho => exact wellNamed_finishRefresh_iff hc ho
  | deleted sid k i d a phone hphone =>
      obtain ⟨-, rfl⟩ := Phone.removeRow_eq_some hphone
      exact iff_of_true hc trivial
  | ignored q a hignored =>
      refine iff_of_true hc ?_
      unfold Fits
      split
      · cases hignored
      · trivial
  | login | host | enter | joined | duplicates | added | listen | file =>
      exact iff_of_true hc trivial

theorem fits_of_receive_eq_none {m : JoinedSessions.MissingKey} {q : Request} {a : Answer}
    (h : c.receive m q a = none) : Fits c q a := by
  unfold Fits
  split
  · simp only [Client.receive] at h
    split at h <;> exact absurd h (Option.some_ne_none _)
  · trivial

end Client

/-! ### In every run -/

section Runs

variable {P : Type*} [DecidableEq P] {s t : State P}
  {e : Protocol.Event P Action (Option String)}

/-- All Session objects of all phones are well named. -/
def AllWellNamed (s : State P) : Prop := ∀ i, WellNamed s.server (s.client i)

/-- An answer that is given fits. -/
def Timely (s : State P) : Protocol.Event P Action (Option String) → Prop
  | .receive n => ∀ x ∈ s.answers[n]?, Fits (s.client x.1) x.2.1 x.2.2
  | _ => True

theorem allWellNamed_update_iff {db : Database} {f : P → Client} {i : P} {c : Client}
    (h : ∀ j, WellNamed db (f j)) :
    (∀ j, WellNamed db (Function.update f i c j)) ↔ WellNamed db c := by
  rw [Function.forall_update_iff f fun _ c => WellNamed db c]
  exact and_iff_left fun j _ => h j

theorem allWellNamed_iff_timely {m : JoinedSessions.MissingKey} (hholds : reading.Holds s)
    (hs : AllWellNamed s) (hstep : (app m).step s e = some t) : AllWellNamed t ↔ Timely s e := by
  cases e with
  | act i a =>
      obtain ⟨⟨c, l⟩, hact, rfl⟩ := Option.map_eq_some_iff.mp hstep
      exact iff_of_true ((allWellNamed_update_iff hs).mpr ((hs i).act hact)) trivial
  | serve n h =>
      obtain ⟨q, hq, hserved⟩ := Option.bind_eq_some_iff.mp hstep
      obtain ⟨⟨v, a⟩, hserve, rfl⟩ := Option.map_eq_some_iff.mp hserved
      have hrequest := hholds.requests q (List.mem_of_getElem? hq)
      have hgrows : Grows s.server v := (serve_refers hholds.server hrequest hserve).2.1
      exact iff_of_true (fun i => (hs i).grows hgrows) trivial
  | receive n =>
      obtain ⟨x, hx, rfl⟩ := Option.map_eq_some_iff.mp hstep
      have htimely : Timely s (.receive n) ↔ Fits (s.client x.1) x.2.1 x.2.2 := by
        simp only [Timely, hx, Option.mem_some_iff, forall_eq']
      rw [htimely]
      dsimp only
      split
      · rename_i c l hreceive
        have hanswer := (hholds.answers x (List.mem_of_getElem? hx)).2
        rw [← wellNamed_receive_iff (hs x.1) hanswer hreceive]
        exact allWellNamed_update_iff hs
      · rename_i hended
        refine iff_of_true ?_ (fits_of_receive_eq_none hended)
        exact (allWellNamed_update_iff hs).mpr (wellNamed_ended (s.client x.1))
  | terminate i =>
      obtain rfl := Option.some.inj hstep
      exact iff_of_true ((allWellNamed_update_iff hs).mpr (wellNamed_ended (s.client i))) trivial

/-- In every run, all Session objects have the names and hosts of the sessions
whose identifiers they have, exactly if each answer to a refresh finds the
screen with a session of the name and host that it asked for. -/
theorem allWellNamed_iff_run_timely (m : JoinedSessions.MissingKey)
    (es : List (Protocol.Event P Action (Option String))) :
    EveryStep (app m).step (fun _ _ t => AllWellNamed t) initial es ↔
      Meets (app m).step Timely (initial : State P) es := by
  refine everyStep_iff_of_invariant (I := fun s : State P => reading.Holds s ∧ AllWellNamed s)
    (fun s e t hs hstep => allWellNamed_iff_timely hs.1 hs.2 hstep)
    (fun s e t hs hstep ht => ⟨hs.1.step (kept m) hstep, ht⟩) ?_ es
  exact ⟨holds_initial, fun _ _ ho => absurd ho List.not_mem_nil⟩

end Runs

/-- Bob refreshes the tracks of a session of his own. Before the answer comes
he has joined Ann's session, and the screen has appeared again. -/
def lateRefresh : List (Protocol.Event Bool Action (Option String)) :=
  annHosts ++
  .act true (.createNewSession "own") :: served "" ++ served "t" ++ served "" ++
  .act true (.joinSession "own" "bob") :: served "" ++ served "" ++
  [.act true (.viewDidLoad .merge), .act true (.refresh 0), .serve 0 (some ""),
    .act true (.joinSession "jam" "ann"), .serve 0 (some ""), .receive 1,
    .serve 0 (some ""), .receive 1, .serve 0 (some ""), .receive 1,
    .act true (.viewWillAppear 0), .receive 0]

/-- Bob is then taken for the host of Ann's session. -/
example : (run (app .empty).step initial lateRefresh).map (fun s =>
    (((s.client true).phone.session? (s.client true).phone.currentSession).map fun o =>
      (o.uid, o.hostUid), (s.server.sessions.find? "s").map SessionDocument.hostUid)) =
    some (some ("s", "b"), some "a") := by
  decide

end Tootti.Traffic
