import Tootti.Model.Join
import Tootti.Recording.Retained

/-!
The Session objects of one signed-in client, and what each event does to
their lists of players and writes of them.

A client has as many Session objects as it joined sessions, and as many
Recording screens as it was led to; a screen works on whichever object was
current when it last appeared. A notification is brought down to what it does
to the objects: one screen after the other changes the object it has cached
and writes its list. What all events keep of the objects is then said once for
any property of a session's list.
-/

namespace Tootti.Objects

open Machine Process Recording

inductive Event
  | createNewSession (sid name : String)
  /-- A join of a session with another name than the current one's begins. -/
  | leaveCurrent
  /-- A join finds its session; `written` if the list it writes arrives. -/
  | joined (sid : String) (d : SessionDocument) (written : Bool)
  | viewDidLoad (clickTrack : Option Audio)
  | viewWillAppear (k : Nat)
  | updateUsersStatus (k : Nat) (on : Bool)
  | snapshot (k : Nat) (appears : Bool) (os : Start) (d : SessionDocument)
  /-- A snapshot reaches the ClickTrack screen next to screen `k`, which has the
  Session `r` cached. -/
  | clickTrackSnapshot (k : Nat) (r : Option Nat) (d : SessionDocument)
  | sceneWillDeactivate
  | sceneDidActivate

/-- The block `viewDidLoad` of the ClickTrack screen adds as snapshot listener. -/
def clickTrackListener (user : User) (k : Nat) (r : Option Nat) (d : SessionDocument)
    (p : Process) : Process :=
  if d.newClickTrack (p.session? r) then
    let change (s : Session) : Session :=
      s.followClickTrack d (user.uid, user.username) p.nextPlayer
    let clickTrack := ((p.session? r).map change).bind Session.clickTrack
    { p.modifyScreen k fun x => { x with clickTrack } with
      sessions := p.sessions.modifyObject r change
      currentSession := r
      nextPlayer := p.nextPlayer + 1 }
  else p

def react (user : User) (p : Process) : Event → Option (Process × List Deed)
  | .createNewSession sid name =>
      let sn := createdSession user sid name
      some (p, [.sends (.currentPlayerList sid sn.currentPlayerList)])
  | .leaveCurrent => p.react .leaveCurrent
  | .joined sid d written => p.react (.joined sid d written)
  | .viewDidLoad clickTrack => p.react (.viewDidLoad clickTrack)
  | .viewWillAppear k => p.react (.viewWillAppear k)
  | .updateUsersStatus k on => p.react (.updateUsersStatus k on)
  | .snapshot k appears os d => p.react (.snapshot k appears os d)
  | .clickTrackSnapshot k r d =>
      if ∀ i ∈ r, i < p.sessions.length then some (clickTrackListener user k r d p, []) else none
  | .sceneWillDeactivate => p.react .sceneWillDeactivate
  | .sceneDidActivate => p.react .sceneDidActivate

/-- The app of a user who is signed in. -/
def initial (user : User) : Process := { Process.initial with defaults := defaults user }

def deeds (user : User) (p : Process) (e : Event) : List Deed :=
  ((react user p e).map Prod.snd).getD []

/-- The document an event brings, with the list of players in it. -/
def Event.brings (p : Process) : Event → Option (String × Roster)
  | .joined sid d _ => some (sid, d.currentPlayerList)
  | .snapshot k _ _ d =>
      (p.screens[k]?).bind fun m => m.listensTo.map fun sid => (sid, d.currentPlayerList)
  | _ => none

/-! ### Notifications as what they do to the objects -/

section Tell

variable (touch : Mounted → Session → Session) (writes : Mounted → Session → List Request)

/-- Each screen in turn changes its object and writes. -/
def tellAll : List Mounted → Heap → Heap × List Request
  | [], h => (h, [])
  | m :: ms, h =>
      match h.object? m.cached with
      | none => tellAll ms h
      | some s =>
          let rest := tellAll ms (h.modifyObject m.cached (touch m))
          (rest.1, writes m s ++ rest.2)

/-- A handler that answers by a change of the screen's object and nothing
else. -/
structure Tells (handle : Handler) (u : Defaults) : Prop where
  idle : ∀ x, handle u none x = some ⟨x, none, [], false⟩
  told : ∀ m s, handle u (some s) m.screen = some ⟨m.screen, some (touch m s), writes m s, false⟩

variable {touch writes} {handle : Handler} {p : Process}

theorem answer_of_same {k : Nat} {m : Mounted} {cached : Option Session}
    {requests : List Request} (hk : p.screens[k]? = some m) :
    p.answer k m ⟨m.screen, cached, requests, false⟩ =
      { p with sessions := p.sessions.modifyObject m.cached fun s => cached.getD s } := by
  obtain ⟨hlt, rfl⟩ := List.getElem?_eq_some_iff.mp hk
  have hscreens : p.screens.set k p.screens[k] = p.screens := List.set_getElem_self hlt
  show ({ p with sessions := _, screens := p.screens.set k p.screens[k] } : Process) = _
  rw [hscreens]

theorem notify_eq_tell (h : Tells touch writes handle p.defaults) (ks : List Nat) :
    p.notify handle ks =
      let told := tellAll touch writes (ks.filterMap (p.screens[·]?)) p.sessions
      ({ p with sessions := told.1 }, told.2.map .sends) := by
  induction ks generalizing p with
  | nil => rfl
  | cons k ks ih =>
      cases hk : p.screens[k]? with
      | none =>
          simp only [notify, hk, ih h, List.filterMap_cons]
      | some m =>
          have hmounted : (k :: ks).filterMap (p.screens[·]?) =
              m :: ks.filterMap (p.screens[·]?) := by simp [hk]
          rw [hmounted, tellAll]
          cases hs : p.session? m.cached with
          | none =>
              have hsame : p.answer k m ⟨m.screen, none, [], false⟩ = p := by
                have hheap : p.sessions.modifyObject m.cached
                    (fun s => (none : Option Session).getD s) = p.sessions :=
                  Heap.modifyObject_id fun _ _ => rfl
                rw [answer_of_same hk, hheap]
              have hobject : p.sessions.object? m.cached = none := hs
              simp only [notify, hk, hs, h.idle, hsame, ih h, hobject, List.map_nil,
                List.nil_append]
          | some s =>
              have htouch : p.answer k m ⟨m.screen, some (touch m s), writes m s, false⟩ =
                  { p with sessions := p.sessions.modifyObject m.cached (touch m) } := by
                rw [answer_of_same hk]
                refine congrArg (fun h => { p with sessions := h }) (Heap.modifyObject_congr ?_)
                intro s' hs'
                obtain rfl : s = s' := Option.some.inj (hs.symm.trans hs')
                rfl
              have hobject : p.sessions.object? m.cached = some s := hs
              have hrest := ih (p := { p with
                sessions := p.sessions.modifyObject m.cached (touch m) }) h
              simp only [notify, hk, hs, h.told, htouch, hobject, hrest, List.map_append]

/-- A notification that is answered so goes to all screens. -/
theorem post_eq_tell (h : Tells touch writes handle p.defaults) :
    p.post handle =
      let told := tellAll touch writes p.screens p.sessions
      ({ p with sessions := told.1 }, told.2.map .sends) := by
  rw [post, notify_eq_tell h, filterMap_getElem?_range]

/-- What each answer keeps of the objects, a notification keeps. -/
theorem tell_keeps {Q : Session → Prop} {W : Request → Prop}
    (hstep : ∀ m s, Q s → Q (touch m s) ∧ ∀ q ∈ writes m s, W q) (ms : List Mounted) {h : Heap}
    (hQ : ∀ s ∈ h, Q s) :
    (∀ s ∈ (tellAll touch writes ms h).1, Q s) ∧ ∀ q ∈ (tellAll touch writes ms h).2, W q := by
  induction ms generalizing h with
  | nil => exact ⟨hQ, fun _ hq => absurd hq List.not_mem_nil⟩
  | cons m ms ih =>
      rw [tellAll]
      cases hs : h.object? m.cached with
      | none => exact ih hQ
      | some s =>
          have hafter : ∀ s ∈ h.modifyObject m.cached (touch m), Q s :=
            Heap.forall_mem_modifyObject (fun s _ hs => (hstep m s hs).1) hQ
          obtain ⟨hobjects, hwritten⟩ := ih hafter
          refine ⟨hobjects, List.forall_mem_append.mpr ⟨?_, hwritten⟩⟩
          exact (hstep m s (hQ s (Heap.mem_of_object? hs))).2

end Tell

/-! ### The answers of a signed-in user's screens -/

section Answers

variable (user : User)

def background (_ : Mounted) (s : Session) : Session :=
  { s with currentPlayerList := s.currentPlayerList.removePlayer (some user.uid) }

def backgroundWrites (m : Mounted) (s : Session) : List Request :=
  [.currentPlayerList s.uid (background user m s).currentPlayerList]

def entered (s : Session) : Roster := s.currentPlayerList.addPlayer user.username user.uid

def foreground (m : Mounted) (s : Session) : Session :=
  { s with currentPlayerList := (entered user s).setStatus m.screen.statusSwitch (some user.uid) }

def foregroundWrites (m : Mounted) (s : Session) : List Request :=
  [.currentPlayerList s.uid (entered user s),
    .currentPlayerList s.uid (foreground user m s).currentPlayerList]

theorem tells_background :
    Tells (background user) (backgroundWrites user) (fun u s x => x.handleBackgroundStatus u s)
      (defaults user) := ⟨fun _ => rfl, fun _ _ => rfl⟩

theorem tells_foreground :
    Tells (foreground user) (foregroundWrites user) (fun u s x => x.handleForegroundStatus u s)
      (defaults user) := ⟨fun _ => rfl, fun _ _ => rfl⟩

theorem contains_foreground (m : Mounted) (s : Session) :
    (foreground user m s).currentPlayerList.contains user.uid = true := by
  rw [Roster.contains_iff_mem, foreground, Roster.map_uid_setStatus, entered, Roster.addPlayer,
    List.map_append]
  exact List.mem_append_right _ List.mem_cons_self

end Answers

/-! ### What every event leaves -/

/-- The references the client holds. -/
def refs (p : Process) : List (Option Nat) := p.currentSession :: p.screens.map Mounted.cached

/-- Nobody logs in or out, no object goes away, and a new reference is one to
an object. -/
structure Frame (p p' : Process) : Prop where
  defaults : p'.defaults = p.defaults
  crashed : p'.crashed = p.crashed
  length : p.sessions.length ≤ p'.sessions.length
  refs : ∀ r ∈ refs p', r ∈ refs p ∨ ∀ i ∈ r, i < p'.sessions.length

section Frame

variable {user : User} {p p' : Process} {e : Event} {ds : List Deed}

theorem length_tell {touch : Mounted → Session → Session}
    {writes : Mounted → Session → List Request} (ms : List Mounted) (h : Heap) :
    (tellAll touch writes ms h).1.length = h.length := by
  induction ms generalizing h with
  | nil => rfl
  | cons m ms ih =>
      rw [tellAll]
      split
      · exact ih h
      · exact (ih _).trans Heap.length_modifyObject

theorem mem_cached_set {k : Nat} {m : Mounted} {r : Option Nat}
    (hr : r ∈ (p.screens.set k m).map Mounted.cached) :
    r ∈ p.screens.map Mounted.cached ∨ r = m.cached := by
  obtain ⟨m', hm', rfl⟩ := List.mem_map.mp hr
  exact (List.mem_or_eq_of_mem_set hm').imp List.mem_map_of_mem (congrArg Mounted.cached)

/-- The answer of a screen that has a Session which the app had before. -/
theorem frame_answer {k : Nat} {m : Mounted} (r : RecordingScreen.Reaction)
    (hm : m.cached ∈ refs p) : Frame p (p.answer k m r) := by
  refine ⟨rfl, rfl, Nat.le_of_eq Heap.length_modifyObject.symm, fun q hq => .inl ?_⟩
  rcases List.mem_cons.mp hq with rfl | hq
  · show (if r.setsCurrent then m.cached else p.currentSession) ∈ refs p
    split
    · exact hm
    · exact List.mem_cons_self
  · rcases mem_cached_set hq with hq | rfl
    · exact List.mem_cons_of_mem _ hq
    · exact hm

theorem cached_mem_refs {k : Nat} {m : Mounted} (hk : p.screens[k]? = some m) :
    m.cached ∈ refs p :=
  List.mem_cons_of_mem _ (List.mem_map_of_mem (List.mem_of_getElem? hk))

theorem followed_mem_refs {k : Nat} {m : Mounted} (hk : p.screens[k]? = some m) (appears : Bool)
    (d : SessionDocument) : p.followed m appears d ∈ refs p := by
  rw [followed]
  split
  · exact List.mem_cons_self
  · exact cached_mem_refs hk

theorem frame_join (sid : String) (d : SessionDocument) (user : User) (p : Process) :
    Frame p (p.join sid d user).1 := by
  have hlength : (p.join sid d user).1.sessions.length = p.sessions.length + 1 := by
    rw [join, List.length_append]
    rfl
  refine ⟨rfl, rfl, by omega, fun r hr => ?_⟩
  rcases List.mem_cons.mp hr with rfl | hr
  · refine .inr fun i hi => ?_
    obtain rfl : p.sessions.length = i := Option.some.inj hi
    omega
  · exact .inl (List.mem_cons_of_mem _ hr)

theorem frame_clickTrackListener {r : Option Nat} (hr : ∀ i ∈ r, i < p.sessions.length)
    (user : User) (k : Nat) (d : SessionDocument) :
    Frame p (clickTrackListener user k r d p) := by
  rw [clickTrackListener]
  split
  · refine ⟨rfl, rfl, Nat.le_of_eq Heap.length_modifyObject.symm, fun q hq => ?_⟩
    rcases List.mem_cons.mp hq with rfl | hq
    · exact .inr (Heap.length_modifyObject.symm ▸ hr)
    · obtain ⟨m, hm, rfl⟩ := List.mem_map.mp hq
      obtain ⟨j, hj⟩ := List.mem_iff_getElem?.mp hm
      have hmodify : (p.screens.modify k _)[j]? = some m := hj
      rw [List.getElem?_modify] at hmodify
      obtain ⟨m', hm', rfl⟩ := Option.map_eq_some_iff.mp hmodify
      have hold := cached_mem_refs hm'
      refine .inl ?_
      split <;> exact hold
  · exact ⟨rfl, rfl, Nat.le_refl _, fun _ hq => .inl hq⟩

theorem frame_react (hsigned : p.defaults = defaults user) (he : react user p e = some (p', ds)) :
    Frame p p' := by
  cases e with
  | createNewSession sid name =>
      obtain ⟨rfl, -⟩ := Prod.mk.inj (Option.some.inj he)
      exact ⟨rfl, rfl, Nat.le_refl _, fun _ hr => .inl hr⟩
  | leaveCurrent =>
      obtain rfl : (p.leave p.currentSession).1 = p' := congrArg Prod.fst (Option.some.inj he)
      rw [leave]
      split
      · exact ⟨rfl, rfl, Nat.le_refl _, fun _ hr => .inl hr⟩
      · exact ⟨rfl, rfl, Nat.le_of_eq Heap.length_modifyObject.symm, fun _ hr => .inl hr⟩
  | joined sid d written =>
      obtain ⟨user, -, rfl, -⟩ := react_joined he
      have hjoin := frame_join sid d user p
      cases written with
      | false => exact hjoin
      | true => exact ⟨hjoin.defaults, hjoin.crashed, hjoin.length, hjoin.refs⟩
  | viewDidLoad clickTrack =>
      obtain ⟨rfl, -⟩ := Prod.mk.inj (Option.some.inj he)
      refine ⟨rfl, rfl, Nat.le_refl _, fun r hr => .inl ?_⟩
      rcases List.mem_cons.mp hr with rfl | hr
      · exact List.mem_cons_self
      · rw [viewDidLoad, List.map_append] at hr
        rcases List.mem_append.mp hr with hold | hnew
        · exact List.mem_cons_of_mem _ hold
        · exact List.mem_singleton.mp hnew ▸ List.mem_cons_self
  | viewWillAppear k =>
      obtain ⟨rfl, -⟩ := Prod.mk.inj (Option.some.inj he)
      refine ⟨rfl, rfl, Nat.le_refl _, fun r hr => .inl ?_⟩
      rcases List.mem_cons.mp hr with rfl | hr
      · exact List.mem_cons_self
      · obtain ⟨m, hm, rfl⟩ := List.mem_map.mp hr
        obtain ⟨j, hj⟩ := List.mem_iff_getElem?.mp hm
        rw [List.getElem?_modify] at hj
        obtain ⟨m', hm', rfl⟩ := Option.map_eq_some_iff.mp hj
        split
        · exact List.mem_cons_self
        · exact List.mem_cons_of_mem _ (List.mem_map_of_mem (List.mem_of_getElem? hm'))
  | updateUsersStatus k on =>
      obtain ⟨m, hm, rfl, -⟩ := react_updateUsersStatus he
      exact frame_answer _ (cached_mem_refs hm)
  | snapshot k appears os d =>
      obtain ⟨m, sid, hm, -, rfl, -⟩ := react_snapshot he
      obtain ⟨h1, h2, h3, h4⟩ := frame_answer (k := k) (p.heard m appears os d)
        (m := { m with cached := p.followed m appears d }) (followed_mem_refs hm appears d)
      exact ⟨h1, h2, h3, h4⟩
  | clickTrackSnapshot k r d =>
      obtain ⟨hr, heq⟩ := Option.ite_none_right_eq_some.mp he
      obtain ⟨rfl, -⟩ := Prod.mk.inj (Option.some.inj heq)
      exact frame_clickTrackListener hr user k d
  | sceneWillDeactivate =>
      have hpost := post_eq_tell (p := p) (hsigned ▸ tells_background user)
      obtain rfl : (p.post fun u s x => x.handleBackgroundStatus u s).1 = p' :=
        congrArg Prod.fst (Option.some.inj he)
      rw [hpost]
      exact ⟨rfl, rfl, Nat.le_of_eq (length_tell _ _).symm, fun _ hr => .inl hr⟩
  | sceneDidActivate =>
      have hpost := post_eq_tell (p := p) (hsigned ▸ tells_foreground user)
      obtain rfl : (p.post fun u s x => x.handleForegroundStatus u s).1 = p' :=
        congrArg Prod.fst (Option.some.inj he)
      rw [hpost]
      exact ⟨rfl, rfl, Nat.le_of_eq (length_tell _ _).symm, fun _ hr => .inl hr⟩

end Frame

/-! ### What the objects' lists and the written lists have in common -/

section Kept

variable {Q W : String → Roster → Prop} {user : User} {p p' : Process} {ds : List Deed}

/-- Every object's list has the property `Q`, and every list written `W`. -/
structure Kept (Q W : String → Roster → Prop) (p' : Process) (ds : List Deed) : Prop where
  objects : ∀ s ∈ p'.sessions, Q s.uid s.currentPlayerList
  written : ∀ sid l, .sends (.currentPlayerList sid l) ∈ ds → W sid l

theorem kept_silent (hQ : ∀ s ∈ p'.sessions, Q s.uid s.currentPlayerList) : Kept Q W p' [] :=
  ⟨hQ, fun _ _ hin => absurd hin List.not_mem_nil⟩

theorem kept_leave (hsigned : p.defaults = defaults user) {r : Option Nat}
    (hstep : ∀ sid l, Q sid l → Q sid (l.removePlayer (some user.uid)) ∧
      W sid (l.removePlayer (some user.uid)))
    (hQ : ∀ s ∈ p.sessions, Q s.uid s.currentPlayerList) :
    Kept Q W (p.leave r).1 (p.leave r).2 := by
  rw [leave]
  split
  · exact kept_silent hQ
  · rename_i s hs
    have huid : p.defaults.uid = some user.uid := congrArg Defaults.uid hsigned
    have hs' := hstep s.uid s.currentPlayerList (hQ s (Heap.mem_of_object? hs))
    rw [huid]
    constructor
    · refine Heap.forall_mem_modifyObject (fun t ht _ => ?_) hQ
      obtain rfl : s = t := Option.some.inj (hs.symm.trans ht)
      exact hs'.1
    · intro sid l hin
      obtain ⟨rfl, rfl⟩ := Deed.eq_of_sends_mem hin
      exact hs'.2

theorem kept_join {sid : String} {d : SessionDocument}
    (hcpl : Q sid (d.currentPlayerList.join user.username user.uid))
    (hsent : d.currentPlayerList.contains user.uid = false →
      W sid (d.currentPlayerList.join user.username user.uid))
    (hQ : ∀ s ∈ p.sessions, Q s.uid s.currentPlayerList) :
    Kept Q W (p.join sid d user).1 (p.join sid d user).2 := by
  constructor
  · intro s hs
    rcases List.mem_append.mp hs with hold | hnew
    · exact hQ s hold
    · obtain rfl := List.mem_singleton.mp hnew
      exact hcpl
  · intro sid' l hin
    rw [join] at hin
    split at hin
    · simp at hin
    · rename_i hout
      obtain ⟨rfl, rfl⟩ := Deed.eq_of_sends_mem hin
      exact hsent (by simpa using hout)

/-- The answer of one screen. -/
theorem kept_answer {k : Nat} {m : Mounted} {r : RecordingScreen.Reaction}
    (hcached : ∀ s s', p.session? m.cached = some s → r.cached = some s' →
      Q s.uid s.currentPlayerList → Q s'.uid s'.currentPlayerList)
    (hsent : ∀ sid l, .currentPlayerList sid l ∈ r.requests → W sid l)
    (hQ : ∀ s ∈ p.sessions, Q s.uid s.currentPlayerList) :
    Kept Q W (p.answer k m r) (r.requests.map .sends) := by
  constructor
  · refine Heap.forall_mem_modifyObject (fun s hs hkept => ?_) hQ
    cases hr : r.cached with
    | none => exact hkept
    | some s' => exact hcached s s' hs hr hkept
  · intro sid l hin
    obtain ⟨q, hq, heq⟩ := List.mem_map.mp hin
    exact hsent sid l (Deed.sends.inj heq ▸ hq)

theorem kept_post {touch : Mounted → Session → Session}
    {writes : Mounted → Session → List Request} {handle : Handler}
    (htells : Tells touch writes handle p.defaults)
    (hstep : ∀ m s, Q s.uid s.currentPlayerList →
      Q (touch m s).uid (touch m s).currentPlayerList ∧
        ∀ q ∈ writes m s, ∀ sid l, q = .currentPlayerList sid l → W sid l)
    (hQ : ∀ s ∈ p.sessions, Q s.uid s.currentPlayerList) :
    Kept Q W (p.post handle).1 (p.post handle).2 := by
  rw [post_eq_tell htells]
  obtain ⟨hobjects, hwritten⟩ := tell_keeps hstep p.screens hQ
  refine ⟨hobjects, fun sid l hin => ?_⟩
  obtain ⟨q, hq, heq⟩ := List.mem_map.mp hin
  exact hwritten q hq sid l (Deed.sends.inj heq)

theorem kept_background (hsigned : p.defaults = defaults user)
    (hstep : ∀ sid l, Q sid l → Q sid (l.removePlayer (some user.uid)) ∧
      W sid (l.removePlayer (some user.uid)))
    (hQ : ∀ s ∈ p.sessions, Q s.uid s.currentPlayerList) :
    Kept Q W (p.post fun u s x => x.handleBackgroundStatus u s).1
      (p.post fun u s x => x.handleBackgroundStatus u s).2 := by
  refine kept_post (hsigned ▸ tells_background user) (fun m s hs => ?_) hQ
  refine ⟨(hstep _ _ hs).1, fun q hq sid l heq => ?_⟩
  rw [List.mem_singleton.mp hq] at heq
  obtain ⟨rfl, rfl⟩ := Request.currentPlayerList.inj heq
  exact (hstep _ _ hs).2

/-- The list a snapshot brings goes to the object the screen has by then. -/
theorem cached_heard {m : Mounted} {appears : Bool} {d : SessionDocument} {s : Session}
    (hs : p.session? (p.followed m appears d) = some s) (os : Start) :
    ∃ s', (p.heard m appears os d).cached = some s' ∧ s'.uid = s.uid ∧
      s'.currentPlayerList = d.currentPlayerList := by
  have hcached := (p.cached_followHost m appears os d).trans hs
  rw [heard, RecordingScreen.snapshotListener]
  dsimp only
  rw [hcached]
  split
  · exact ⟨_, rfl, rfl, rfl⟩
  · exact ⟨_, rfl, rfl, rfl⟩

theorem kept_updateUsersStatus {k : Nat} {m : Mounted} {on : Bool}
    (hsigned : p.defaults = defaults user)
    (hstep : ∀ s, p.session? m.cached = some s → Q s.uid s.currentPlayerList →
      Q s.uid (s.currentPlayerList.setStatus on (some user.uid)) ∧
        W s.uid (s.currentPlayerList.setStatus on (some user.uid)))
    (hQ : ∀ s ∈ p.sessions, Q s.uid s.currentPlayerList) :
    let r := m.screen.updateUsersStatus p.defaults (p.session? m.cached) on
    Kept Q W (p.answer k m r) (r.requests.map .sends) := by
  have huid : p.defaults.uid = some user.uid := congrArg Defaults.uid hsigned
  refine kept_answer (fun s s' hs hs' hkept => ?_) (fun sid l hin => ?_) hQ
  · rw [RecordingScreen.updateUsersStatus, hs, huid] at hs'
    obtain rfl := Option.some.inj hs'
    exact (hstep s hs hkept).1
  · rw [RecordingScreen.updateUsersStatus, huid] at hin
    cases hs : p.session? m.cached with
    | none => simp [hs] at hin
    | some s =>
        rw [hs] at hin
        obtain ⟨rfl, rfl⟩ := Request.currentPlayerList.inj (List.mem_singleton.mp hin)
        exact (hstep s hs (hQ s (Heap.mem_of_object? hs))).2

theorem kept_snapshot {k : Nat} {m : Mounted} {appears : Bool} {os : Start} {d : SessionDocument}
    {sid : String}
    (hd : ∀ s, p.session? (p.followed m appears d) = some s → Q s.uid d.currentPlayerList)
    (hQ : ∀ s ∈ p.sessions, Q s.uid s.currentPlayerList) :
    let r := p.heard m appears os d
    let m' := { m with cached := p.followed m appears d }
    Kept Q W { p.answer k m' r with nextPlayer := p.nextPlayer + 1 } (r.requests.map .sends ++
      if m.screen.started r.screen then [.starts sid] else []) := by
  intro r m'
  have hanswer : Kept Q W (p.answer k m' r) (r.requests.map .sends) := by
    refine kept_answer (fun s s' hs hs' _ => ?_) (fun sid l hin => ?_) hQ
    · obtain ⟨t, ht, huid, hlist⟩ := cached_heard hs os
      obtain rfl : t = s' := Option.some.inj (ht.symm.trans hs')
      rw [huid, hlist]
      exact hd s hs
    · obtain ⟨sid', heq⟩ := RecordingScreen.eq_of_mem_requests_snapshotListener hin
      cases heq
  refine ⟨hanswer.objects, fun sid' l hin => ?_⟩
  rcases List.mem_append.mp hin with hin | hin
  · exact hanswer.written sid' l hin
  · split at hin <;> simp at hin

theorem kept_clickTrackListener {r : Option Nat} (user : User) (k : Nat) (d : SessionDocument)
    (hQ : ∀ s ∈ p.sessions, Q s.uid s.currentPlayerList) :
    Kept Q W (clickTrackListener user k r d p) [] := by
  rw [clickTrackListener]
  split
  · exact kept_silent (Heap.forall_mem_modifyObject (fun _ _ hs => hs) hQ)
  · exact kept_silent hQ

end Kept

end Tootti.Objects
