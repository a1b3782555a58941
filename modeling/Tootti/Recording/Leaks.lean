import Tootti.Recording.Objects

/-!
Whose uids a client writes into the lists of which sessions.

A screen asks once, when it loads, for the snapshots of a session, and puts
the lists they bring into the Session object it has by then. A join makes a
new object the current one before it is known whether the user gets into the
session, and a screen that appears takes the current object. So a screen can
hear of one session and have the object of another, and can have the object of
a session that the user did not get into.
-/

namespace Tootti.Leaks

open Machine Process Recording Objects

structure State where
  process : Process
  /-- Who created or joined which session, as pairs of session and uid. -/
  members : List (String × String)

inductive Event
  | client (e : Objects.Event)
  | othersJoin (sid uid : String)

/-- Whom the event makes a member. A joining user who is in the list already
writes nothing. -/
def entering (user : User) : Objects.Event → List (String × String)
  | .createNewSession sid _ => [(sid, user.uid)]
  | .joined sid d written =>
      if written || d.currentPlayerList.contains user.uid then [(sid, user.uid)] else []
  | _ => []

/-- The documents list members only. -/
def step (user : User) (s : State) : Event → Option State
  | .othersJoin sid uid => some { s with members := (sid, uid) :: s.members }
  | .client e =>
      if s.process.crashed then none
      else if ∀ b ∈ e.brings s.process, ∀ q ∈ b.2, (b.1, q.uid) ∈ s.members then
        (Objects.react user s.process e).map fun r => ⟨r.1, entering user e ++ s.members⟩
      else none

/-- Whether the lists the event writes arrive. -/
def arrives : Objects.Event → Bool
  | .joined _ _ written => written
  | _ => true

/-- A list that is written to a session has none but the session's members. -/
def Members (members : List (String × String)) (sid : String) (l : Roster) : Prop :=
  ∀ q ∈ l, (sid, q.uid) ∈ members

def NoLeak (user : User) (s : State) (e : Event) (s' : State) : Prop :=
  match e with
  | .othersJoin _ _ => True
  | .client e => arrives e → ∀ sid l,
      .sends (.currentPlayerList sid l) ∈ deeds user s.process e → Members s'.members sid l

/-- The user toggles the status, and the app becomes active, on screens with
sessions the user is a member of; a screen hears only of players who are
members of the session it has, which is the current one where the listener
brings it up. -/
def Careful (user : User) (s : State) : Event → Prop
  | .client (.updateUsersStatus k _) =>
      ∀ m ∈ s.process.screens[k]?, ∀ o ∈ s.process.session? m.cached,
        o.currentPlayerList.contains user.uid → (o.uid, user.uid) ∈ s.members
  | .client (.snapshot k appears _ d) =>
      ∀ m ∈ s.process.screens[k]?, ∀ o ∈ s.process.session? (s.process.followed m appears d),
        ∀ q ∈ d.currentPlayerList, q.uid ≠ user.uid → (o.uid, q.uid) ∈ s.members
  | .client .sceneDidActivate =>
      ∀ m ∈ s.process.screens, ∀ o ∈ s.process.session? m.cached, (o.uid, user.uid) ∈ s.members
  | _ => True

/-- The members but for the user, who need not be one. -/
def Others (user : User) (members : List (String × String)) (sid : String) (l : Roster) : Prop :=
  ∀ q ∈ l, q.uid ≠ user.uid → (sid, q.uid) ∈ members

structure Inv (user : User) (s : State) : Prop where
  defaults : s.process.defaults = defaults user
  crashed : s.process.crashed = false
  objects : ∀ o ∈ s.process.sessions, Others user s.members o.uid o.currentPlayerList

section Lists

variable {user : User} {members members' : List (String × String)} {sid : String} {l : Roster}

theorem Others.mono (h : Others user members sid l) (hsub : members ⊆ members') :
    Others user members' sid l := fun q hq hne => hsub (h q hq hne)

theorem members_of_others (h : Others user members sid l)
    (huser : l.contains user.uid → (sid, user.uid) ∈ members) : Members members sid l := by
  intro q hq
  by_cases hu : q.uid = user.uid
  · rw [hu]
    exact huser (Roster.contains_eq_true.mpr ⟨q, hq, hu⟩)
  · exact h q hq hu

/-- Only the uids of a list matter. -/
theorem others_congr {l' : Roster} (huids : l'.map Player.uid = l.map Player.uid)
    (h : Others user members sid l) : Others user members sid l' := by
  intro q hq hne
  have hin : q.uid ∈ l.map Player.uid := huids ▸ List.mem_map_of_mem hq
  obtain ⟨q', hq', heq⟩ := List.mem_map.mp hin
  rw [← heq] at hne ⊢
  exact h q' hq' hne

theorem others_addPlayer (h : Others user members sid l) :
    Others user members sid (l.addPlayer user.username user.uid) := by
  intro q hq hne
  rcases List.mem_append.mp hq with hold | hnew
  · exact h q hold hne
  · exact absurd (congrArg Player.uid (List.mem_singleton.mp hnew)) hne

theorem others_join (h : Others user members sid l) :
    Others user members sid (l.join user.username user.uid) := by
  rw [Roster.join]
  split
  · exact h
  · exact others_addPlayer h

theorem others_removePlayer (h : Others user members sid l) :
    Others user members sid (l.removePlayer (some user.uid)) := by
  intro q hq hne
  rw [Roster.removePlayer_some, dropKey, List.mem_filter] at hq
  exact h q hq.1 hne

/-- A list the user left is one of members. -/
theorem members_removePlayer (h : Others user members sid l) :
    Members members sid (l.removePlayer (some user.uid)) := by
  refine members_of_others (others_removePlayer h) fun hin => ?_
  rw [Roster.contains_removePlayer] at hin
  exact Bool.noConfusion hin

end Lists

/-! ### Where a notification writes -/

section Tell

variable {touch : Mounted → Session → Session} {writes : Mounted → Session → List Request}

/-- To sessions that the screens have objects of. -/
theorem session_tell (huid : ∀ m s, (touch m s).uid = s.uid)
    (hsession : ∀ m s, ∀ q ∈ writes m s, q.session = s.uid) {ms : List Mounted} {h : Heap}
    {q : Request} (hq : q ∈ (tellAll touch writes ms h).2) :
    ∃ m ∈ ms, ∃ o ∈ h.object? m.cached, q.session = o.uid := by
  induction ms generalizing h with
  | nil => exact absurd hq List.not_mem_nil
  | cons m ms ih =>
      rw [tellAll] at hq
      split at hq
      · obtain ⟨m', hm', hrest⟩ := ih hq
        exact ⟨m', List.mem_cons_of_mem m hm', hrest⟩
      · rename_i s hs
        rcases List.mem_append.mp hq with hq | hq
        · exact ⟨m, List.mem_cons_self, s, hs, hsession m s q hq⟩
        · obtain ⟨m', hm', o, ho, heq⟩ := ih hq
          have hsame : ((h.modifyObject m.cached (touch m)).object? m'.cached).map Session.uid =
              (h.object? m'.cached).map Session.uid :=
            Heap.map_uid_object?_modifyObject fun s _ => huid m s
          rw [ho] at hsame
          obtain ⟨o', ho', huid'⟩ := Option.map_eq_some_iff.mp hsame.symm
          exact ⟨m', List.mem_cons_of_mem m hm', o', ho', heq.trans huid'.symm⟩

/-- Becoming active, a list with the user to each of them. -/
theorem exists_written_foreground (user : User) {ms : List Mounted} {h : Heap} {m : Mounted}
    {o : Session} (hm : m ∈ ms) (ho : h.object? m.cached = some o) :
    ∃ l, Request.currentPlayerList o.uid l ∈
        (tellAll (foreground user) (foregroundWrites user) ms h).2 ∧ l.contains user.uid := by
  induction ms generalizing h o with
  | nil => exact absurd hm List.not_mem_nil
  | cons m' ms ih =>
      rw [tellAll]
      cases hs : h.object? m'.cached with
      | none =>
          rcases List.mem_cons.mp hm with rfl | hm
          · exact absurd (hs.symm.trans ho) (Option.some_ne_none o).symm
          · exact ih hm ho
      | some s =>
          rcases List.mem_cons.mp hm with rfl | hm
          · obtain rfl : s = o := Option.some.inj (hs.symm.trans ho)
            refine ⟨(foreground user m s).currentPlayerList, ?_, contains_foreground user m s⟩
            exact List.mem_append_left _ (List.mem_cons_of_mem _ List.mem_cons_self)
          · have hafter : ∃ o', (h.modifyObject m'.cached (foreground user m')).object? m.cached =
                some o' ∧ o'.uid = o.uid := by
              rw [Heap.object?_modifyObject, ho]
              split
              · exact ⟨_, rfl, rfl⟩
              · exact ⟨o, rfl, rfl⟩
            obtain ⟨o', ho', huid⟩ := hafter
            obtain ⟨l, hl, hin⟩ := ih hm ho'
            exact ⟨l, List.mem_append_right _ (huid ▸ hl), hin⟩

theorem kept_foreground {user : User} {p : Process} {members : List (String × String)}
    (hsigned : p.defaults = defaults user)
    (hobjects : ∀ o ∈ p.sessions, Others user members o.uid o.currentPlayerList)
    (huser : ∀ m ∈ p.screens, ∀ o ∈ p.session? m.cached, (o.uid, user.uid) ∈ members) :
    Kept (Others user members) (Members members)
      (p.post fun u s x => x.handleForegroundStatus u s).1
      (p.post fun u s x => x.handleForegroundStatus u s).2 := by
  have htells : Tells (foreground user) (foregroundWrites user)
      (fun u s x => x.handleForegroundStatus u s) p.defaults := hsigned ▸ tells_foreground user
  have hkept : Kept (Others user members) (Others user members)
      (p.post fun u s x => x.handleForegroundStatus u s).1
      (p.post fun u s x => x.handleForegroundStatus u s).2 := by
    refine kept_post htells (fun m o hl => ?_) hobjects
    have hentered : Others user members o.uid (entered user o) := others_addPlayer hl
    have hstatus : Others user members o.uid (foreground user m o).currentPlayerList :=
      others_congr (Roster.map_uid_setStatus _ _ _) hentered
    refine ⟨hstatus, List.forall_mem_cons.mpr ⟨fun sid l heq => ?_,
      List.forall_mem_singleton.mpr fun sid l heq => ?_⟩⟩ <;>
      obtain ⟨rfl, rfl⟩ := Request.currentPlayerList.inj heq
    · exact hentered
    · exact hstatus
  refine ⟨hkept.objects, fun sid l hin => members_of_others (hkept.written sid l hin) fun _ => ?_⟩
  rw [post_eq_tell htells] at hin
  obtain ⟨q, hq, heq⟩ := List.mem_map.mp hin
  have hsession : ∀ m s, ∀ q ∈ foregroundWrites user m s, q.session = s.uid := fun m s =>
    List.forall_mem_cons.mpr ⟨rfl, List.forall_mem_singleton.mpr rfl⟩
  have huid : ∀ m s, (foreground user m s).uid = s.uid := fun _ _ => rfl
  obtain ⟨m, hm, o, ho, hsid⟩ := session_tell huid hsession hq
  obtain rfl := Deed.sends.inj heq
  obtain rfl : sid = o.uid := hsid
  exact huser m hm o ho

end Tell

/-! ### Steps -/

section Steps

variable {user : User} {s s' : State} {e : Event}

theorem step_client {c : Objects.Event} (h : Inv user s)
    (hstep : step user s (.client c) = some s') :
    (∀ b ∈ c.brings s.process, Members s.members b.1 b.2) ∧
      ∃ ds, Objects.react user s.process c = some (s'.process, ds) ∧
        Objects.deeds user s.process c = ds ∧ s'.members = entering user c ++ s.members := by
  rw [step, if_neg (Bool.eq_false_iff.mp h.crashed)] at hstep
  split at hstep
  · rename_i hbrings
    obtain ⟨⟨p, ds⟩, he, rfl⟩ := Option.map_eq_some_iff.mp hstep
    exact ⟨hbrings, ds, he, by rw [Objects.deeds, he]; rfl, rfl⟩
  · simp at hstep

/-- A list the event writes arrives with members only, the entering user
included. -/
def Fits (user : User) (s : State) (c : Objects.Event) (sid : String) (l : Roster) : Prop :=
  arrives c → Members (entering user c ++ s.members) sid l

/-- What a careful step of the client keeps. -/
theorem kept_careful {c : Objects.Event} {p' : Process} {ds : List Deed} (h : Inv user s)
    (hcareful : Careful user s (.client c))
    (hbrings : ∀ b ∈ c.brings s.process, Members s.members b.1 b.2)
    (he : Objects.react user s.process c = some (p', ds)) :
    Kept (Others user (entering user c ++ s.members)) (Fits user s c) p' ds := by
  have hsub : s.members ⊆ entering user c ++ s.members := fun _ hx => List.mem_append_right _ hx
  have hobjects : ∀ o ∈ s.process.sessions,
      Others user (entering user c ++ s.members) o.uid o.currentPlayerList :=
    fun o ho => (h.objects o ho).mono hsub
  have hremove : ∀ sid l, Others user (entering user c ++ s.members) sid l →
      Others user (entering user c ++ s.members) sid (l.removePlayer (some user.uid)) ∧
        Fits user s c sid (l.removePlayer (some user.uid)) :=
    fun _ _ hl => ⟨others_removePlayer hl, fun _ => members_removePlayer hl⟩
  cases c with
  | createNewSession sid name =>
      obtain ⟨rfl, rfl⟩ := Prod.mk.inj (Option.some.inj he)
      refine ⟨hobjects, fun sid' l hin _ => ?_⟩
      obtain ⟨rfl, rfl⟩ := Deed.eq_of_sends_mem hin
      intro q hq
      obtain rfl := List.mem_singleton.mp hq
      exact List.mem_cons_self
  | leaveCurrent =>
      have hleave := kept_leave h.defaults (r := s.process.currentSession) hremove hobjects
      rw [Option.some.inj he] at hleave
      exact hleave
  | joined sid d written =>
      obtain ⟨u, hu, rfl, rfl⟩ := react_joined he
      obtain rfl : user = u := defaults_inj (h.defaults.symm.trans hu)
      have hlist : Others user (entering user (.joined sid d written) ++ s.members) sid
          (d.currentPlayerList.join user.username user.uid) :=
        others_join fun q hq _ => hsub (hbrings _ rfl q hq)
      have hjoin : Kept (Others user (entering user (.joined sid d written) ++ s.members))
          (Fits user s (.joined sid d written)) (s.process.join sid d user).1
          (s.process.join sid d user).2 := by
        refine kept_join hlist (fun _ harrives => members_of_others hlist fun _ => ?_) hobjects
        obtain rfl : written = true := harrives
        exact List.mem_cons_self
      cases written with
      | false => exact hjoin
      | true => exact ⟨hjoin.objects, hjoin.written⟩
  | viewDidLoad clickTrack | viewWillAppear k =>
      obtain ⟨rfl, rfl⟩ := Prod.mk.inj (Option.some.inj he)
      exact kept_silent hobjects
  | updateUsersStatus k on =>
      obtain ⟨m, hm, rfl, rfl⟩ := react_updateUsersStatus he
      refine kept_updateUsersStatus h.defaults (fun o ho hl => ?_) hobjects
      have huids := Roster.map_uid_setStatus on (some user.uid) o.currentPlayerList
      refine ⟨others_congr huids hl, fun _ => members_of_others (others_congr huids hl) ?_⟩
      rw [Roster.contains_iff_mem, huids, ← Roster.contains_iff_mem]
      exact hcareful m hm o ho
  | snapshot k appears os d =>
      obtain ⟨m, sid, hm, -, rfl, rfl⟩ := react_snapshot he
      exact kept_snapshot (fun o ho q hq hne => hcareful m hm o ho q hq hne) hobjects
  | clickTrackSnapshot k r d =>
      obtain ⟨-, heq⟩ := Option.ite_none_right_eq_some.mp he
      obtain ⟨rfl, rfl⟩ := Prod.mk.inj (Option.some.inj heq)
      exact kept_clickTrackListener user k d hobjects
  | sceneWillDeactivate =>
      have hpost := kept_background h.defaults hremove hobjects
      rw [Option.some.inj he] at hpost
      exact hpost
  | sceneDidActivate =>
      have hpost := kept_foreground h.defaults h.objects hcareful
      rw [Option.some.inj he] at hpost
      exact ⟨hpost.objects, fun sid l hin _ => hpost.written sid l hin⟩

theorem noLeak_and_inv (h : Inv user s) (hcareful : Careful user s e)
    (hstep : step user s e = some s') : NoLeak user s e s' ∧ Inv user s' := by
  cases e with
  | othersJoin sid uid =>
      obtain rfl := Option.some.inj hstep
      refine ⟨trivial, h.defaults, h.crashed, fun o ho => (h.objects o ho).mono ?_⟩
      exact fun _ hx => List.mem_cons_of_mem _ hx
  | client c =>
      obtain ⟨hbrings, ds, he, hdeeds, hmembers⟩ := step_client h hstep
      have hkept := kept_careful h hcareful hbrings he
      have hframe := frame_react h.defaults he
      refine ⟨fun harrives sid l hin => ?_, hframe.defaults.trans h.defaults,
        hframe.crashed.trans h.crashed, hmembers ▸ hkept.objects⟩
      rw [hmembers]
      exact hkept.written sid l (hdeeds ▸ hin) harrives

theorem not_everyStep_of_written {c : Objects.Event} {sid : String} {l : Roster} {q : Player}
    {fs : List Event} (hstep : step user s (.client c) = some s') (harrives : arrives c)
    (hin : .sends (.currentPlayerList sid l) ∈ Objects.deeds user s.process c) (hq : q ∈ l)
    (hout : (sid, q.uid) ∉ s'.members) :
    ¬ EveryStep (step user) (NoLeak user) s (.client c :: fs) := by
  intro hall
  have hno : NoLeak user s (.client c) s' := ((everyStep_cons hstep).mp hall).1
  exact hout (hno harrives sid l hin q hq)

/-- A toggle writes the whole list of the screen's object. -/
theorem not_everyStep_toggle {k : Nat} {on : Bool} {m : Mounted} {o : Session} {q : Player}
    {fs : List Event} (hsigned : s.process.defaults = defaults user)
    (hcrashed : s.process.crashed = false) (hm : s.process.screens[k]? = some m)
    (ho : s.process.session? m.cached = some o) (hq : q ∈ o.currentPlayerList)
    (hout : (o.uid, q.uid) ∉ s.members) :
    ¬ EveryStep (step user) (NoLeak user) s (.client (.updateUsersStatus k on) :: fs) := by
  have hstep : ∃ s', step user s (.client (.updateUsersStatus k on)) = some s' ∧
      s'.members = s.members := by
    simp [step, hcrashed, Objects.react, Process.react, hm, Event.brings, entering]
  obtain ⟨s', hstep, hmembers⟩ := hstep
  have hlist : Deed.sends
      (.currentPlayerList o.uid (o.currentPlayerList.setStatus on (some user.uid))) ∈
        Objects.deeds user s.process (.updateUsersStatus k on) := by
    simp [Objects.deeds, Objects.react, Process.react, hm, ho, hsigned, Recording.defaults,
      RecordingScreen.updateUsersStatus, Session.updateSessionActivityStatus]
  have huids := Roster.map_uid_setStatus on (some user.uid) o.currentPlayerList
  obtain ⟨q', hq', huid⟩ : ∃ q' ∈ o.currentPlayerList.setStatus on (some user.uid),
      q'.uid = q.uid := List.mem_map.mp (huids ▸ List.mem_map_of_mem hq)
  exact not_everyStep_of_written hstep rfl hlist hq' (by rw [huid, hmembers]; exact hout)

/-- After a snapshot the screen's object has the list it brought. -/
theorem snapshot_listed {p p' : Process} {k : Nat} {appears : Bool} {os : Start}
    {d : SessionDocument} {ds : List Deed} {m : Mounted} {o : Session}
    (hm : p.screens[k]? = some m) (ho : p.session? (p.followed m appears d) = some o)
    (he : Objects.react user p (.snapshot k appears os d) = some (p', ds)) :
    ∃ m' o', p'.screens[k]? = some m' ∧ p'.session? m'.cached = some o' ∧ o'.uid = o.uid ∧
      o'.currentPlayerList = d.currentPlayerList := by
  obtain ⟨m', sid, hm', -, rfl, -⟩ := react_snapshot he
  obtain rfl : m = m' := Option.some.inj (hm.symm.trans hm')
  obtain ⟨o', ho', huid, hlist⟩ := cached_heard ho os
  have hlt : k < p.screens.length := (List.getElem?_eq_some_iff.mp hm).1
  refine ⟨_, o', List.getElem?_set_self hlt, ?_, huid, hlist⟩
  show (p.sessions.modifyObject (p.followed m appears d) _).object? (p.followed m appears d) =
    some o'
  have hobject : p.sessions.object? (p.followed m appears d) = some o := ho
  rw [Heap.object?_modifyObject, if_pos rfl, hobject, Option.map_some, ho', Option.getD_some]

/-- What a careless step lets out is written at once, or with the next toggle
of the status. -/
theorem leak_of_not_careful (h : Inv user s) (hcareful : ¬ Careful user s e)
    (hstep : step user s e = some s') :
    ∃ fs, ¬ EveryStep (step user) (NoLeak user) s (e :: fs) := by
  cases e with
  | othersJoin sid uid => exact absurd trivial hcareful
  | client c =>
      obtain ⟨hbrings, ds, he, hdeeds, hmembers⟩ := step_client h hstep
      cases c with
      | updateUsersStatus k on =>
          simp only [Careful, not_forall] at hcareful
          obtain ⟨m, hm, o, ho, hin, hout⟩ := hcareful
          obtain ⟨q, hq, huid⟩ := Roster.contains_eq_true.mp hin
          exact ⟨[], not_everyStep_toggle h.defaults h.crashed hm ho hq (huid ▸ hout)⟩
      | snapshot k appears os d =>
          simp only [Careful, not_forall] at hcareful
          obtain ⟨m, hm, o, ho, q, hq, -, hout⟩ := hcareful
          obtain ⟨m', o', hm', ho', huid, hlist⟩ := snapshot_listed hm ho he
          have hframe := frame_react h.defaults he
          have htoggle : ¬ EveryStep (step user) (NoLeak user) s'
              [.client (.updateUsersStatus k true)] :=
            not_everyStep_toggle (hframe.defaults.trans h.defaults)
              (hframe.crashed.trans h.crashed) hm' ho' (hlist ▸ hq)
              (by rw [huid, hmembers]; exact hout)
          exact ⟨_, fun hall => htoggle ((everyStep_cons hstep).mp hall).2⟩
      | sceneDidActivate =>
          simp only [Careful, not_forall] at hcareful
          obtain ⟨m, hm, o, ho, hout⟩ := hcareful
          obtain ⟨l, hl, hin⟩ := exists_written_foreground user hm ho
          obtain ⟨q, hq, huid⟩ := Roster.contains_eq_true.mp hin
          have hpost := post_eq_tell (p := s.process) (h.defaults ▸ tells_foreground user)
          have hsent : Deed.sends (.currentPlayerList o.uid l) ∈
              (s.process.post fun u s x => x.handleForegroundStatus u s).2 := by
            rw [hpost]
            exact List.mem_map_of_mem hl
          refine ⟨[], not_everyStep_of_written hstep rfl hsent hq ?_⟩
          rw [huid, hmembers]
          exact hout
      | _ => exact absurd trivial hcareful

end Steps

/-- The app of a signed-in user, when others have created and joined
sessions. -/
def initial (user : User) (members : List (String × String)) : State :=
  ⟨Objects.initial user, members⟩

theorem inv_initial (user : User) (members : List (String × String)) :
    Inv user (initial user members) :=
  ⟨rfl, rfl, fun _ ho => absurd ho List.not_mem_nil⟩

/-- A client whose steps are careful writes no list with somebody who is not a
member of the session, and a run that is not careful has a beginning after
which it can write one. -/
theorem noLeak_of_careful (user : User) (members : List (String × String)) (es : List Event) :
    let s := initial user members
    (Meets (step user) (Careful user) s es → EveryStep (step user) (NoLeak user) s es) ∧
      (¬ Meets (step user) (Careful user) s es →
        ∃ before after fs, es = before ++ after ∧
          ¬ EveryStep (step user) (NoLeak user) s (before ++ fs)) := by
  have hinit := inv_initial user members
  have hkeep : ∀ s e s', Inv user s → Careful user s e → step user s e = some s' →
      NoLeak user s e s' ∧ Inv user s' := fun _ _ _ h hc hs => noLeak_and_inv h hc hs
  have hbreak : ∀ s e s', Inv user s → ¬ Careful user s e → step user s e = some s' →
      ∃ fs, ¬ EveryStep (step user) (NoLeak user) s (e :: fs) :=
    fun _ _ _ h hc hs => leak_of_not_careful h hc hs
  refine ⟨fun hmeets => hmeets.everyStep hkeep hinit, fun hfails => ?_⟩
  exact exists_broken_of_not_meets (fun s e s' h hc hs => (hkeep s e s' h hc hs).2) hbreak hfails
    hinit

/-- A guest's screen hears of session `a` when the guest's join of session `b`
fails after it made `b`'s object the current one. The screen appears again,
and the next snapshot of `a` and a toggle of the status put the host of `a`
into `b`. -/
theorem host_leaks_into_other_session :
    ¬ ∀ (user : User) (members : List (String × String)) (es : List Event),
      EveryStep (step user) (NoLeak user) (initial user members) es := by
  intro h
  let a : SessionDocument := ⟨"a", "h", [], .empty, [], .empty, false, [⟨"host", "h", false⟩]⟩
  let b : SessionDocument := ⟨"b", "g", [], .empty, [], .empty, false, [⟨"gail", "g", false⟩]⟩
  let before : List Event := [.client (.joined "a" a true), .client (.viewDidLoad none),
    .client .leaveCurrent, .client (.joined "b" b false), .client (.viewWillAppear 0),
    .client (.snapshot 0 false ⟨true, true⟩ a)]
  let toggle : Event := .client (.updateUsersStatus 0 true)
  have hrun : run (step ⟨"u", "uma"⟩) (initial ⟨"u", "uma"⟩ [("a", "h"), ("b", "g")]) before =
    some _ := rfl
  have hlast : NoLeak ⟨"u", "uma"⟩ _ toggle _ :=
    (h ⟨"u", "uma"⟩ [("a", "h"), ("b", "g")] (before ++ [toggle])).at hrun rfl
  have hin : ("b", "h") ∈ [("a", "u"), ("a", "h"), ("b", "g")] :=
    hlast rfl "b" [⟨"host", "h", false⟩] (List.mem_singleton.mpr rfl) _ List.mem_cons_self
  exact absurd hin (by decide)

end Tootti.Leaks
