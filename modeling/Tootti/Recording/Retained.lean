import Tootti.Model.Process
import Tootti.Recording.Screen

/-!
What the retained Recording screens do to a session that was left.

A notification reaches every screen that ever loaded, and each answers with
the Session it has cached. The addresses of these answers are fixed before the
first of them: a handler changes the list of players of a Session and neither
its uid nor what any screen has cached.
-/

namespace Tootti.Retained

open Machine Process

/-- The events that come without the user's doing, and logins. -/
def Later : Event → Prop
  | .login _ | .snapshot .. | .sceneWillDeactivate | .sceneDidActivate => True
  | _ => False

/-- What may be done once the sessions `left` were left. -/
def Allowed (left : List String) : Deed → Prop
  | .sends request => request.session ∉ left
  | .starts session => session ∉ left
  | .raises => left = []

def StaysLeft (p : Process) (e : Event) (_ : Process) : Prop :=
  Later e → ∀ deed ∈ p.deeds e, Allowed p.left deed

def address (p : Process) (k : Nat) : Option String :=
  (p.screens[k]?).bind fun m => (p.session? m.cached).map Session.uid

def Detached (p : Process) : Prop :=
  ∀ k < p.screens.length, ∀ uid ∈ address p k, uid ∉ p.left

/-- Where a session was left, somebody is signed in or no Recording screen
has a Session. -/
def Answerable (p : Process) : Prop :=
  p.left = [] ∨ p.defaults.uid.isSome ∧ p.defaults.username.isSome ∨
    ∀ k < p.screens.length, address p k = none

/-- The steps that leave the left sessions alone. -/
def Quiet (p : Process) : Event → Prop
  | .sceneWillDeactivate => Detached p
  | .sceneDidActivate => Detached p ∧ Answerable p
  | .snapshot k appears os d => ∀ m ∈ p.screens[k]?, ∀ sid ∈ m.listensTo,
      p.defaults.isHost (p.session? m.cached) ∨ d.hostStartRecording = false ∨
        os.activationSuccess = false ∨ os.result = false ∨
        sid ∉ p.left ∧ ∀ s ∈ p.session? (p.followed m appears d),
          p.defaults.isHost (some s) → s.uid ∉ p.left
  | _ => True

/-! ### Answers to notifications -/

/-- How a handler of scene notifications answers, and for whom it raises. -/
structure Answers (handle : Handler) (refuses : Defaults → Prop) : Prop where
  idle : ∀ u x, ∃ r, handle u none x = some r ∧ r.requests = []
  refused : ∀ u s x, refuses u → handle u (some s) x = none
  answered : ∀ u s x, ¬ refuses u → ∃ r s', handle u (some s) x = some r ∧ r.cached = some s' ∧
    s'.uid = s.uid ∧ r.requests ≠ [] ∧ ∀ q ∈ r.requests, q.session = s.uid

theorem answers_handleBackgroundStatus :
    Answers (fun u s x => x.handleBackgroundStatus u s) fun _ => False where
  idle _ x := ⟨⟨x, none, [], false⟩, rfl, rfl⟩
  refused _ _ _ h := h.elim
  answered u s x _ :=
    let l := s.currentPlayerList.removePlayer u.uid
    ⟨_, { s with currentPlayerList := l }, rfl, rfl, rfl, List.cons_ne_nil _ _, by
      intro q hq
      obtain rfl := List.mem_singleton.mp hq
      rfl⟩

theorem answers_handleForegroundStatus :
    Answers (fun u s x => x.handleForegroundStatus u s)
      fun u => ¬ (u.uid.isSome ∧ u.username.isSome) where
  idle _ _ := ⟨_, rfl, rfl⟩
  refused u s x h := by
    obtain ⟨uid, username⟩ := u
    cases uid <;> cases username <;> first | rfl | exact absurd ⟨rfl, rfl⟩ h
  answered u s x h := by
    obtain ⟨uid, username⟩ := u
    obtain ⟨⟨uid, rfl⟩, username, rfl⟩ : (∃ a, uid = some a) ∧ ∃ b, username = some b := by
      simpa [Option.isSome_iff_exists] using h
    refine ⟨_, _, rfl, rfl, rfl, List.cons_ne_nil _ _, fun q hq => ?_⟩
    rcases List.mem_cons.mp hq with rfl | hq
    · rfl
    · obtain rfl := List.mem_singleton.mp hq
      rfl

section Notify

variable {handle : Handler} {refuses : Defaults → Prop} {p : Process} {k : Nat} {m : Mounted}

theorem address_of_getElem? (hk : p.screens[k]? = some m) :
    address p k = (p.session? m.cached).map Session.uid := by
  rw [address, hk, Option.bind_some]

/-- A handler that keeps the uid of its Session keeps every address. -/
theorem address_answer {r : RecordingScreen.Reaction} (hk : p.screens[k]? = some m)
    (hr : ∀ s, p.session? m.cached = some s → (r.cached.getD s).uid = s.uid) (j : Nat) :
    address (p.answer k m r) j = address p j := by
  have hobject (q : Option Nat) : ((p.answer k m r).session? q).map Session.uid =
      (p.session? q).map Session.uid := Heap.map_uid_object?_modifyObject hr
  have hscreens : (p.answer k m r).screens = p.screens.set k { m with screen := r.screen } := rfl
  rw [address, address, hscreens, List.getElem?_set]
  by_cases hkj : k = j
  · subst j
    have hlt : k < p.screens.length := (List.getElem?_eq_some_iff.mp hk).1
    rw [if_pos rfl, if_pos hlt, hk]
    exact hobject m.cached
  · rw [if_neg hkj]
    simp only [hobject]

theorem notify_raises {ks : List Nat} (hk : p.screens[k]? = some m)
    (h : handle p.defaults (p.session? m.cached) m.screen = none) :
    (p.notify handle (k :: ks)).2 = [.raises] := by
  simp only [notify, hk, h]

theorem notify_answers {ks : List Nat} {r : RecordingScreen.Reaction}
    (hk : p.screens[k]? = some m)
    (h : handle p.defaults (p.session? m.cached) m.screen = some r) :
    (p.notify handle (k :: ks)).2 =
      r.requests.map .sends ++ ((p.answer k m r).notify handle ks).2 := by
  simp only [notify, hk, h]

theorem allowed_requests {left : List String} {uid : String} {requests : List Request}
    (hne : requests ≠ []) (hsession : ∀ q ∈ requests, q.session = uid) :
    (∀ deed ∈ requests.map Deed.sends, Allowed left deed) ↔ uid ∉ left := by
  simp only [List.forall_mem_map, Allowed]
  constructor
  · intro h
    obtain ⟨q, hq⟩ := List.exists_mem_of_ne_nil requests hne
    exact hsession q hq ▸ h q hq
  · intro h q hq
    rw [hsession q hq]
    exact h

/-- What a notification does is allowed when each screen it reaches is silent,
or has a Session that was not left and does not raise. -/
theorem allowed_notify (ha : Answers handle refuses) (ks : List Nat) (p : Process) :
    (∀ deed ∈ (p.notify handle ks).2, Allowed p.left deed) ↔
      ∀ k ∈ ks, ∀ uid ∈ address p k, uid ∉ p.left ∧ (p.left = [] ∨ ¬ refuses p.defaults) := by
  induction ks generalizing p with
  | nil => simp [notify]
  | cons k ks ih =>
      rw [List.forall_mem_cons]
      cases hk : p.screens[k]? with
      | none =>
          have hnone : address p k = none := by rw [address, hk, Option.bind_none]
          have hskip : p.notify handle (k :: ks) = p.notify handle ks := by simp only [notify, hk]
          rw [hskip, ih p, hnone]
          simp
      | some m =>
          have haddress := address_of_getElem? hk
          have hrest (r : RecordingScreen.Reaction)
              (hr : ∀ s, p.session? m.cached = some s → (r.cached.getD s).uid = s.uid) :
              (∀ deed ∈ ((p.answer k m r).notify handle ks).2, Allowed p.left deed) ↔
                ∀ j ∈ ks, ∀ uid ∈ address p j,
                  uid ∉ p.left ∧ (p.left = [] ∨ ¬ refuses p.defaults) := by
            have h := ih (p.answer k m r)
            simp only [address_answer hk hr] at h
            exact h
          cases hs : p.session? m.cached with
          | none =>
              obtain ⟨r, hr, hrequests⟩ := ha.idle p.defaults m.screen
              rw [notify_answers hk (hs ▸ hr), hrequests, List.map_nil, List.nil_append,
                hrest r (by simp [hs]), haddress, hs]
              simp
          | some s =>
              rw [hs, Option.map_some] at haddress
              by_cases hrefuses : refuses p.defaults
              · -- the first screen with a Session ends the notification
                have hraises : (∀ deed ∈ [Deed.raises], Allowed p.left deed) ↔ p.left = [] := by
                  simp [Allowed]
                rw [notify_raises hk (hs ▸ ha.refused p.defaults s m.screen hrefuses), haddress,
                  hraises]
                constructor
                · intro h
                  simp [h]
                · intro h
                  exact (h.1 s.uid rfl).2.resolve_right fun hnot => hnot hrefuses
              · obtain ⟨r, s', hr, hcached, huid, hne, hsession⟩ :=
                  ha.answered p.defaults s m.screen hrefuses
                have hkeep : ∀ t, p.session? m.cached = some t → (r.cached.getD t).uid = t.uid := by
                  intro t ht
                  obtain rfl := Option.some.inj (hs.symm.trans ht)
                  rw [hcached]
                  exact huid
                rw [notify_answers hk (hs ▸ hr), List.forall_mem_append, hrest r hkeep,
                  allowed_requests hne hsession, haddress]
                simp [hrefuses]

theorem allowed_post (ha : Answers handle refuses) (p : Process) :
    (∀ deed ∈ (p.post handle).2, Allowed p.left deed) ↔
      ∀ k < p.screens.length, ∀ uid ∈ address p k,
        uid ∉ p.left ∧ (p.left = [] ∨ ¬ refuses p.defaults) := by
  rw [post, allowed_notify ha]
  simp only [List.mem_range]

end Notify

/-! ### Single events -/

def Dated (p : Process) : Prop := ∀ m ∈ p.screens, m.screen.Dated

section Snapshot

variable {u : Defaults} {cached : Option Session} {shown : Option (Option Session)} {os : Start}
  {d : SessionDocument} {player : Nat} {x : RecordingScreen}

theorem started_of_inProgress_eq {x' : RecordingScreen} (hx : x.Dated)
    (h : x'.inProgress = x.inProgress) : x.started x' = false := by
  rw [RecordingScreen.started, h]
  cases hr : x.inProgress with
  | none => rfl
  | some r =>
      have htime := hx r (Option.eq_some_of_filter_eq_some hr)
      simpa using htime

/-- The listener starts a recording for a guest of a recording host, if the
system lets it. -/
theorem started_snapshotListener (hx : x.Dated) :
    x.started (x.snapshotListener u cached shown os player d).screen =
      (!u.isHost cached && d.hostStartRecording && os.activationSuccess && os.result) := by
  have hfollow : x.started (x.snapshotListener u cached shown os player d).screen =
      x.started (x.followHost u cached shown os d).1 := by
    rw [RecordingScreen.started, Recording.inProgress_snapshotListener]
    rfl
  have hprogress := Recording.inProgress_followHost u cached shown os d x
  rw [hfollow]
  cases hhost : u.isHost cached with
  | true =>
      rw [hhost, if_pos rfl] at hprogress
      exact started_of_inProgress_eq hx hprogress
  | false =>
      rw [hhost, if_neg Bool.false_ne_true] at hprogress
      cases hflag : d.hostStartRecording with
      | false =>
          rw [hflag, if_neg Bool.false_ne_true] at hprogress
          simp [RecordingScreen.started, hprogress]
      | true =>
          rw [hflag, if_pos rfl, RecordingScreen.inProgress_startRecording] at hprogress
          cases hact : os.activationSuccess with
          | false =>
              simp only [hact, Bool.false_eq_true, if_false] at hprogress
              simp [started_of_inProgress_eq hx hprogress]
          | true =>
              cases hres : os.result <;> simp [RecordingScreen.started, hprogress, hact, hres]

theorem dated_startRecording (hx : x.Dated) : (x.startRecording u cached os).1.Dated := by
  by_cases hact : os.activationSuccess
  · exact (Recording.prepared_startRecording hact).dated
  · exact (Recording.kept_startRecording hact).dated hx

theorem dated_setSelectedIndex (hx : x.Dated) : (x.setSelectedIndex shown cached).1.Dated := by
  obtain ⟨a, ha⟩ := x.setSelectedIndex_eq shown cached
  rw [ha]
  exact hx

theorem dated_snapshotListener (hx : x.Dated) :
    (x.snapshotListener u cached shown os player d).screen.Dated := by
  obtain ⟨a, ha⟩ := Recording.screen_snapshotListener u cached shown os player d x
  rw [ha]
  show (x.followHost u cached shown os d).1.Dated
  rw [RecordingScreen.followHost]
  split
  · exact hx
  · split
    · exact dated_startRecording (dated_setSelectedIndex hx)
    · exact Recording.kept_endRecording.dated hx

theorem dated_recordAudio (hx : x.Dated) : (x.recordAudio u cached os).1.Dated := by
  rw [RecordingScreen.recordAudio]
  split
  · exact Recording.kept_endRecording.dated hx
  · exact dated_startRecording hx

end Snapshot

section Dated

variable {p p' : Process} {k : Nat} {m : Mounted}

theorem dated_modify {f : Mounted → Mounted} (h : Dated p)
    (hf : ∀ m, m.screen.Dated → (f m).screen.Dated) :
    ∀ m ∈ p.screens.modify k f, m.screen.Dated := by
  intro m hm
  obtain ⟨j, hj⟩ := List.mem_iff_getElem?.mp hm
  rw [List.getElem?_modify] at hj
  obtain ⟨m', hm', rfl⟩ := Option.map_eq_some_iff.mp hj
  have hold := h m' (List.mem_of_getElem? hm')
  by_cases hkj : k = j
  · simpa [hkj] using hf m' hold
  · simpa [hkj] using hold

theorem dated_answer {r : RecordingScreen.Reaction} (h : Dated p) (hr : r.screen.Dated) :
    Dated (p.answer k m r) := by
  intro m' hm'
  rcases List.mem_or_eq_of_mem_set hm' with hold | rfl
  · exact h m' hold
  · exact hr

theorem dated_notify {handle : Handler}
    (hkeep : ∀ u s x r, handle u s x = some r → x.Dated → r.screen.Dated) (ks : List Nat)
    (h : Dated p) : Dated (p.notify handle ks).1 := by
  induction ks generalizing p with
  | nil => exact h
  | cons k ks ih =>
      rw [notify]
      split
      · exact ih h
      · rename_i m hm
        split
        · exact h
        · rename_i r hr
          exact ih (dated_answer h (hkeep _ _ _ r hr (h m (List.mem_of_getElem? hm))))

theorem dated_handleBackgroundStatus {u : Defaults} {s : Option Session} {x : RecordingScreen}
    {r : RecordingScreen.Reaction} (hr : x.handleBackgroundStatus u s = some r) (hx : x.Dated) :
    r.screen.Dated := by
  rw [Recording.screen_updateActivity hr]
  exact hx

theorem dated_handleForegroundStatus {u : Defaults} {s : Option Session} {x : RecordingScreen}
    {r : RecordingScreen.Reaction} (hr : x.handleForegroundStatus u s = some r) (hx : x.Dated) :
    r.screen.Dated := by
  obtain ⟨r', hr', rfl⟩ := Option.map_eq_some_iff.mp hr
  show r'.screen.Dated
  rw [Recording.screen_updateActivity hr']
  exact hx

theorem screens_leave (r : Option Nat) (p : Process) : (p.leave r).1.screens = p.screens := by
  rw [leave]
  split <;> rfl

theorem Dated.of_screens_eq (h : Dated p) (hs : p'.screens = p.screens) : Dated p' := by
  intro m hm
  exact h m (hs ▸ hm)

theorem dated_react {e : Event} {ds : List Deed} (h : Dated p) (he : p.react e = some (p', ds)) :
    Dated p' := by
  cases e with
  | login | setCurrentSession | refreshed =>
      obtain ⟨rfl, -⟩ := Prod.mk.inj (Option.some.inj he)
      exact h
  | logOutTapped home =>
      obtain ⟨rfl, -⟩ := Prod.mk.inj (Option.some.inj he)
      exact h.of_screens_eq ((screens_leave _ _).trans (screens_leave home p))
  | leaveCurrent =>
      obtain ⟨rfl, -⟩ := Prod.mk.inj (Option.some.inj he)
      exact h.of_screens_eq (screens_leave _ p)
  | joined sid d entered =>
      obtain ⟨user, -, rfl, -⟩ := react_joined he
      cases entered <;> exact h
  | viewDidLoad clickTrack =>
      obtain ⟨rfl, -⟩ := Prod.mk.inj (Option.some.inj he)
      intro m hm
      rcases List.mem_append.mp hm with hold | hnew
      · exact h m hold
      · obtain rfl := List.mem_singleton.mp hnew
        exact RecordingScreen.dated_initial 0
  | viewWillAppear k =>
      obtain ⟨rfl, -⟩ := Prod.mk.inj (Option.some.inj he)
      refine dated_modify h fun m hm => ?_
      rw [RecordingScreen.viewWillAppear]
      split <;> exact hm
  | recordAudio k os =>
      obtain ⟨m, hm, rfl, -⟩ := react_recordAudio he
      intro m' hm'
      rcases List.mem_or_eq_of_mem_set hm' with hold | rfl
      · exact h m' hold
      · exact dated_recordAudio (h m (List.mem_of_getElem? hm))
  | updateUsersStatus k on =>
      obtain ⟨m, hm, rfl, -⟩ := react_updateUsersStatus he
      exact dated_answer h (h m (List.mem_of_getElem? hm))
  | dismissAlert | passClickTrack =>
      obtain ⟨rfl, -⟩ := Prod.mk.inj (Option.some.inj he)
      exact dated_modify h fun m hm => hm
  | interrupted k =>
      obtain ⟨rfl, -⟩ := Prod.mk.inj (Option.some.inj he)
      refine dated_modify h fun m hm r hr => ?_
      obtain ⟨r', hr', rfl⟩ := Option.mem_map.mp hr
      exact hm r' hr'
  | snapshot k appears os d =>
      obtain ⟨m, sid, hm, -, rfl, -⟩ := react_snapshot he
      have hx := h m (List.mem_of_getElem? hm)
      exact fun m' hm' => dated_answer (k := k) h (dated_snapshotListener hx) m' hm'
  | sceneWillDeactivate =>
      have hp : (p.post fun u s x => x.handleBackgroundStatus u s).1 = p' :=
        congrArg Prod.fst (Option.some.inj he)
      rw [← hp]
      exact dated_notify (fun _ _ _ _ => dated_handleBackgroundStatus) _ h
  | sceneDidActivate =>
      have hp : (p.post fun u s x => x.handleForegroundStatus u s).1 = p' :=
        congrArg Prod.fst (Option.some.inj he)
      rw [← hp]
      exact dated_notify (fun _ _ _ _ => dated_handleForegroundStatus) _ h

theorem dated_step {e : Event} (h : Dated p) (hstep : step p e = some p') : Dated p' := by
  rw [step] at hstep
  split at hstep
  · cases hstep
  · obtain ⟨⟨q, ds⟩, hq, rfl⟩ := Option.map_eq_some_iff.mp hstep
    exact dated_react h hq

end Dated

/-- No answer is needed to a notification that reaches no Session. -/
theorem detached_and_answerable_iff {p : Process} :
    Detached p ∧ Answerable p ↔ ∀ k < p.screens.length, ∀ uid ∈ address p k,
      uid ∉ p.left ∧
        (p.left = [] ∨ ¬ ¬ (p.defaults.uid.isSome ∧ p.defaults.username.isSome)) := by
  rw [not_not]
  constructor
  · rintro ⟨hdetached, hanswerable⟩ k hk uid huid
    refine ⟨hdetached k hk uid huid, ?_⟩
    rcases hanswerable with hleft | hsigned | hsilent
    · exact Or.inl hleft
    · exact Or.inr hsigned
    · simp [hsilent k hk] at huid
  · intro h
    refine ⟨fun k hk uid huid => (h k hk uid huid).1, ?_⟩
    by_cases hsilent : ∀ k < p.screens.length, address p k = none
    · exact Or.inr (Or.inr hsilent)
    · simp only [not_forall] at hsilent
      obtain ⟨k, hk, hne⟩ := hsilent
      obtain ⟨uid, huid⟩ := Option.ne_none_iff_exists'.mp hne
      exact (h k hk uid huid).2.imp_right Or.inl

theorem deeds_snapshot {p : Process} {k : Nat} {appears : Bool} {os : Start} {d : SessionDocument}
    {m : Mounted} {sid : String} (hk : p.screens[k]? = some m) (hsid : m.listensTo = some sid) :
    p.deeds (.snapshot k appears os d) = (p.heard m appears os d).requests.map .sends ++
      if m.screen.started (p.heard m appears os d).screen then [.starts sid] else [] := by
  simp [deeds, react, hk, hsid]

/-- A screen that its listener brings up sends the flag to the user's own session
that it has by then. -/
theorem requests_heard (p : Process) (m : Mounted) (appears : Bool) (os : Start)
    (d : SessionDocument) :
    (p.heard m appears os d).requests =
      if !p.defaults.isHost (p.session? m.cached) && d.hostStartRecording &&
          os.activationSuccess && os.result then
        RecordingScreen.flagRequest p.defaults (p.session? (p.followed m appears d)) true
      else [] := by
  rw [heard, RecordingScreen.requests_snapshotListener, RecordingScreen.requests_followHost]
  split
  · rename_i hstarts
    simp only [Bool.and_eq_true] at hstarts
    rw [followed, hstarts.1.1.1, hstarts.1.1.2]
    cases appears <;> rfl
  · rfl

theorem allowed_flagRequest {left : List String} {u : Defaults} {cached : Option Session} :
    (∀ deed ∈ (RecordingScreen.flagRequest u cached true).map Deed.sends, Allowed left deed) ↔
      ∀ s ∈ cached, u.isHost (some s) → s.uid ∉ left := by
  rw [RecordingScreen.flagRequest]
  cases cached with
  | none => simp
  | some s =>
      split
      · rename_i hhost
        simp [Allowed, Request.session, hhost]
      · rename_i hguest
        simp [hguest]

theorem allowed_snapshot {p : Process} {k : Nat} {appears : Bool} {os : Start}
    {d : SessionDocument} (h : Dated p) :
    (∀ deed ∈ p.deeds (.snapshot k appears os d), Allowed p.left deed) ↔
      Quiet p (.snapshot k appears os d) := by
  cases hk : p.screens[k]? with
  | none => simp [deeds, react, Quiet, hk]
  | some m =>
      cases hsid : m.listensTo with
      | none => simp [deeds, react, Quiet, hk, hsid]
      | some sid =>
          have hstarted : m.screen.started (p.heard m appears os d).screen = _ :=
            started_snapshotListener (h m (List.mem_of_getElem? hk))
          rw [deeds_snapshot hk hsid, hstarted, requests_heard, List.forall_mem_append]
          simp only [Quiet, hk, hsid, Option.mem_some_iff, forall_eq']
          split
          · rename_i hstarts
            simp only [Bool.and_eq_true, Bool.not_eq_true'] at hstarts
            rw [allowed_flagRequest, List.forall_mem_singleton]
            simp [hstarts, Allowed, and_comm]
          · rename_i hidle
            simp only [Bool.and_eq_true, Bool.not_eq_true', not_and_or, Bool.not_eq_false,
              Bool.not_eq_true] at hidle
            simp only [List.map_nil, List.not_mem_nil, false_implies, implies_true, and_self,
              true_iff]
            tauto

theorem staysLeft_iff_quiet {p p' : Process} {e : Event} (h : Dated p) :
    StaysLeft p e p' ↔ Quiet p e := by
  cases e with
  | sceneWillDeactivate =>
      show (True → ∀ deed ∈ (p.post _).2, Allowed p.left deed) ↔ Detached p
      rw [allowed_post answers_handleBackgroundStatus]
      simp [Detached]
  | sceneDidActivate =>
      show (True → ∀ deed ∈ (p.post _).2, Allowed p.left deed) ↔ Detached p ∧ Answerable p
      rw [allowed_post answers_handleForegroundStatus, detached_and_answerable_iff, true_imp_iff]
  | snapshot k appears os d =>
      rw [← allowed_snapshot h]
      exact true_imp_iff
  | login u => exact iff_of_true (fun _ deed hdeed => absurd hdeed List.not_mem_nil) trivial
  | _ => exact iff_of_true (fun hlater => hlater.elim) trivial

/-- In every run of the app, the sessions that were left stay left exactly
when every step taken is quiet. -/
theorem left_stays_left_iff_quiet (es : List Event) :
    EveryStep step StaysLeft .initial es ↔ Meets step Quiet .initial es := by
  have hagree : ∀ p e p', Dated p → step p e = some p' → (StaysLeft p e p' ↔ Quiet p e) :=
    fun _ _ _ h _ => staysLeft_iff_quiet h
  have hinitial : Dated .initial := fun m hm => absurd hm List.not_mem_nil
  exact everyStep_iff_of_invariant hagree (fun p e p' h hs _ => dated_step h hs) hinitial es

/-- A guest joins a session, looks at its Recording screen and logs out. The
screen still answers when the app goes to the background, with a write to the
document of the session. -/
theorem left_session_written : ¬ ∀ es : List Event, EveryStep step StaysLeft .initial es := by
  intro h
  let d : SessionDocument := ⟨"song", "host", [], .empty, [], .empty, false, []⟩
  let before : List Event :=
    [.login ⟨"ann", "ann"⟩, .joined "a" d true, .viewDidLoad none, .logOutTapped (some 0)]
  have hrun : run step .initial before = some _ := rfl
  have hlast : StaysLeft _ .sceneWillDeactivate _ :=
    (h (before ++ [.sceneWillDeactivate])).at hrun rfl
  have hsent : Allowed ["a"] (.sends (.currentPlayerList "a" [])) :=
    hlast trivial _ (List.mem_singleton.mpr rfl)
  exact hsent (List.mem_singleton.mpr rfl)

end Tootti.Retained
