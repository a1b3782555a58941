import Tootti.Machine.Run
import Tootti.Model.Phone
import Tootti.Storage.Mixes

/-!
Who writes the reference to the click track.

Two screens upload a click track. The Click-track screen does so for the host
only. The Merge screen does it for whoever taps its button: the name of the
field is a parameter of the upload, and the upload knows nothing of roles.
Any number of clients of one session act on their own screens here, and what
they read of the document is any document with the session's host.
-/

namespace Tootti.HostOnly

open Machine MixStorage

/-- A `Merge` of screen `screen`. `self.merge` is the last one. -/
structure MergeRun where
  screen : Nat
  type : AudioType
  /-- Whether `mergedTrack` is set, and then whether it has a file. -/
  done : Bool
  file : Bool

/-- A call of `uploadTypedAudioSound:` for the field `type`. -/
structure Upload where
  type : AudioType
  file : Bool

structure Client where
  phone : Phone
  /-- The screens with an unanswered `refresh:`. -/
  refreshing : List Nat
  merges : List MergeRun
  uploads : List Upload
  raised : Bool

inductive Action
  | joinSession (d : SessionDocument)
  | viewDidLoad (tab : Tab)
  | viewWillAppear (k : Nat)
  | snapshot (k : Nat) (d : SessionDocument)
  | refresh (k : Nat)
  | refreshed (i : Nat) (d : SessionDocument)
  | didSelectRow (k row : Nat)
  | didDeselectRow (k row : Nat)
  | commitEditing (k row : Nat)
  | removeRow (k row : Nat)
  | confirmTracks (k : Nat) (selectedRecordings : List Audio)
  /-- The screen's click track is one that was picked, or the session's. -/
  | confirmTrack (k : Nat) (clickTrack : Option Audio)
  /-- `mergeTracks:` or `mergeForClicktrack:`; `loads` says whether the remote
  tracks can be downloaded. -/
  | merge (type : AudioType) (k : Nat) (loads : Bool)
  /-- The export of a merge ends, with or without a file. -/
  | merged (j : Nat) (file : Bool)
  /-- The file is stored and its URL known, and the update is sent. -/
  | uploaded (i : Nat)

def isRemote (a : Audio) : Bool :=
  match a.audioURL with
  | some (.download _) => true
  | _ => false

namespace Client

def initial (user : User) : Client := ⟨.initial user, [], [], [], false⟩

/-- Screen `k` is a tab that is not locked. -/
def opened (k : Nat) (tab : Tab) (p : Phone) : Bool :=
  p.screens[k]?.map Screen.tab = some tab && (p.cachedSession k).isSome

def onPhone (c : Client) (p : Phone) : Client := { c with phone := p }

/-- `[currentUserId isEqual:hostId]` of screen `k`. -/
def isHost (c : Client) (k : Nat) : Bool :=
  (c.phone.cachedSession k).map Session.hostUid = some c.phone.user.uid

/-- `performMerge:` raises for a local track, and for one without audio. -/
def mergeRaises (c : Client) (k : Nat) (loads : Bool) : Bool :=
  !(loads && (c.phone.selectedTracks k).all isRemote)

/-- The completion block of merge `j` uploads the track of the screen's last
`Merge`, which may be another or not done. -/
def merged (j : Nat) (file : Bool) (m : MergeRun) (c : Client) : Client :=
  let merges := c.merges.set j { m with done := true, file }
  let uploads := match (merges.filter fun m' => m'.screen = m.screen).getLast? with
    | some last => if last.done then [⟨m.type, last.file⟩] else []
    | none => []
  { c with merges, uploads := c.uploads ++ uploads }

def act (sid : String) (c : Client) : Action → Option Client
  | .joinSession d => some (c.onPhone (c.phone.joinSession sid d))
  | .viewDidLoad tab => some (c.onPhone (c.phone.viewDidLoad tab))
  | .viewWillAppear k => some (c.onPhone (c.phone.viewWillAppear k))
  | .snapshot k d => some (c.onPhone (c.phone.snapshot k d))
  | .refresh k => some { c with phone := c.phone.refresh k, refreshing := c.refreshing ++ [k] }
  | .refreshed i d =>
      c.refreshing[i]?.map fun k =>
        { c with phone := c.phone.finishRefresh k sid d, refreshing := c.refreshing.eraseIdx i }
  | .didSelectRow k row => (c.phone.didSelectRow k row).map c.onPhone
  | .didDeselectRow k row => (c.phone.didDeselectRow k row).map c.onPhone
  | .commitEditing k row => (c.phone.commitEditing k row).map fun (_, p) => c.onPhone p
  | .removeRow k row => (c.phone.removeRow k row).map c.onPhone
  | .confirmTracks k selected => some (c.onPhone (c.phone.confirmTracks k selected))
  | .confirmTrack k clickTrack =>
      if opened k .clickTrack c.phone then
        match clickTrack with
        | none => some c
        | some a =>
            if c.isHost k then
              some { c with uploads := c.uploads ++ [⟨.clickTrackRef, !isRemote a⟩] }
            else some c
      else none
  | .merge type k loads =>
      if opened k .merge c.phone then
        if c.mergeRaises k loads then some { c with raised := true }
        else some { c with merges := c.merges ++ [⟨k, type, false, false⟩] }
      else none
  | .merged j file =>
      c.merges[j]?.bind fun m => if m.done then none else some (c.merged j file m)
  | .uploaded i =>
      c.uploads[i]?.bind fun u =>
        -- the put needs the file
        if u.file then some { c with uploads := c.uploads.eraseIdx i } else none

end Client

abbrev System := String → Client

def initial (name : String → String) : System := fun c => .initial ⟨c, name c⟩

/-- The document an action brings. -/
def Action.document : Action → Option SessionDocument
  | .joinSession d | .snapshot _ d | .refreshed _ d => some d
  | _ => none

/-- An action of one client. Nothing changes a document's `hostUid`. -/
def step (hostUid sid : String) (s : System) (e : String × Action) : Option System :=
  if (s e.1).raised = false ∧ ∀ d ∈ e.2.document, d.hostUid = hostUid then
    ((s e.1).act sid e.2).map fun c => Function.update s e.1 c
  else none

/-- An update of `clickTrackRef` is the host's. -/
def ByHost (hostUid : String) (s : System) (e : String × Action) (_ : System) : Prop :=
  match e.2 with
  | .uploaded i => ∀ u ∈ (s e.1).uploads[i]?, u.type = .clickTrackRef → e.1 = hostUid
  | _ => True

/-- The Merge screen's Click-track button is tapped by the host only, or it
raises. -/
def TapsAsHost (hostUid uid : String) (c : Client) : Action → Prop
  | .merge .clickTrackRef k loads => uid = hostUid ∨ c.mergeRaises k loads
  | _ => True

def Careful (hostUid : String) (s : System) (e : String × Action) : Prop :=
  TapsAsHost hostUid e.1 (s e.1) e.2

/-- What holds of a client as long as only the host merges click tracks. -/
structure Bound (hostUid uid : String) (c : Client) : Prop where
  user : c.phone.user.uid = uid
  sessions : ∀ session ∈ c.phone.sessions, session.hostUid = hostUid
  merges : uid ≠ hostUid → ∀ m ∈ c.merges, m.type ≠ .clickTrackRef
  uploads : uid ≠ hostUid → ∀ u ∈ c.uploads, u.type ≠ .clickTrackRef

section Steps

variable {hostUid sid uid : String} {c c' : Client} {a : Action}

theorem Bound.onPhone (h : Bound hostUid uid c) {p : Phone} (huser : p.user = c.phone.user)
    (hsessions : ∀ session ∈ p.sessions, session.hostUid = hostUid) :
    Bound hostUid uid (c.onPhone p) :=
  ⟨(congrArg User.uid huser).trans h.user, hsessions, h.merges, h.uploads⟩

/-- What the Merge screen does to its rows leaves the host. -/
theorem sessions_commitEditing {p p' : Phone} {k row : Nat} {d : Deletion}
    (h : p.commitEditing k row = some (d, p'))
    (hsessions : ∀ session ∈ p.sessions, session.hostUid = hostUid) :
    p'.user = p.user ∧ ∀ session ∈ p'.sessions, session.hostUid = hostUid := by
  obtain ⟨x, track, session, -, -, -, -, rfl⟩ := Phone.commitEditing_eq_some h
  exact ⟨rfl, Heap.forall_mem_modifyObject (fun _ _ hs => hs) hsessions⟩

theorem sessions_append {l : List Session} {session : Session} (hl : ∀ s ∈ l, s.hostUid = hostUid)
    (h : session.hostUid = hostUid) : ∀ s ∈ l ++ [session], s.hostUid = hostUid := by
  intro s hs
  rcases List.mem_append.mp hs with hs | hs
  · exact hl s hs
  · rw [List.mem_singleton.mp hs]
    exact h

theorem uid_eq_of_isHost (h : Bound hostUid uid c) {k : Nat} (hhost : c.isHost k = true) :
    uid = hostUid := by
  obtain ⟨session, hsession, huid⟩ := Option.map_eq_some_iff.mp (of_decide_eq_true hhost)
  obtain ⟨x, -, hobject⟩ := Option.bind_eq_some_iff.mp hsession
  rw [← h.user, ← huid]
  exact h.sessions session (Heap.mem_of_object? hobject)

theorem Bound.merged (h : Bound hostUid uid c) {j : Nat} {file : Bool} {m : MergeRun}
    (hm : m ∈ c.merges) : Bound hostUid uid (c.merged j file m) := by
  refine ⟨h.user, h.sessions, fun hne m' hm' => ?_, fun hne u hu => ?_⟩
  · rcases List.mem_or_eq_of_mem_set hm' with hm' | rfl
    · exact h.merges hne m' hm'
    · exact h.merges hne m hm
  · rcases List.mem_append.mp hu with hu | hu
    · exact h.uploads hne u hu
    · split at hu
      · split at hu
        · rw [List.mem_singleton.mp hu]
          exact h.merges hne m hm
        · exact absurd hu List.not_mem_nil
      · exact absurd hu List.not_mem_nil

theorem bound_act (h : Bound hostUid uid c) (hdocument : ∀ d ∈ a.document, d.hostUid = hostUid)
    (hcareful : TapsAsHost hostUid uid c a) (hact : c.act sid a = some c') :
    Bound hostUid uid c' := by
  cases a with
  | joinSession d =>
      obtain rfl := Option.some.inj hact
      exact h.onPhone rfl (sessions_append h.sessions (hdocument d rfl))
  | viewDidLoad | viewWillAppear | confirmTracks =>
      obtain rfl := Option.some.inj hact
      exact h.onPhone rfl h.sessions
  | snapshot k d =>
      obtain rfl := Option.some.inj hact
      refine h.onPhone Phone.user_snapshot ?_
      exact Phone.forall_mem_snapshot (fun _ hs => hs) (fun _ _ _ hs => hs) h.sessions
  | refresh k =>
      obtain rfl := Option.some.inj hact
      exact ⟨h.user, h.sessions, h.merges, h.uploads⟩
  | refreshed i d =>
      obtain ⟨k, -, rfl⟩ := Option.map_eq_some_iff.mp hact
      exact ⟨h.user, sessions_append h.sessions (hdocument d rfl), h.merges, h.uploads⟩
  | didSelectRow k row | didDeselectRow k row =>
      obtain ⟨p, hp, rfl⟩ := Option.map_eq_some_iff.mp hact
      obtain ⟨track, -, rfl⟩ := Option.map_eq_some_iff.mp hp
      exact h.onPhone rfl h.sessions
  | commitEditing k row =>
      obtain ⟨⟨d, p⟩, hp, rfl⟩ := Option.map_eq_some_iff.mp hact
      obtain ⟨huser, hsessions⟩ := sessions_commitEditing hp h.sessions
      exact h.onPhone huser hsessions
  | removeRow k row =>
      obtain ⟨p, hp, rfl⟩ := Option.map_eq_some_iff.mp hact
      obtain ⟨-, rfl⟩ := Phone.removeRow_eq_some hp
      exact h.onPhone rfl h.sessions
  | confirmTrack k clickTrack =>
      simp only [Client.act] at hact
      split at hact
      · split at hact
        · exact Option.some.inj hact ▸ h
        · split at hact <;> obtain rfl := Option.some.inj hact
          · rename_i hhost
            refine ⟨h.user, h.sessions, h.merges, fun hne => ?_⟩
            exact absurd (uid_eq_of_isHost h hhost) hne
          · exact h
      · simp at hact
  | merge type k loads =>
      simp only [Client.act] at hact
      split at hact
      · split at hact <;> obtain rfl := Option.some.inj hact
        · exact ⟨h.user, h.sessions, h.merges, h.uploads⟩
        · rename_i hraises
          refine ⟨h.user, h.sessions, fun hne m hm => ?_, h.uploads⟩
          rcases List.mem_append.mp hm with hm | hm
          · exact h.merges hne m hm
          · rw [List.mem_singleton.mp hm]
            rintro rfl
            exact hcareful.elim hne hraises
      · simp at hact
  | merged j file =>
      obtain ⟨m, hm, hact⟩ := Option.bind_eq_some_iff.mp hact
      split at hact <;> simp only [Option.some.injEq, reduceCtorEq] at hact
      subst c'
      exact h.merged (List.mem_of_getElem? hm)
  | uploaded i =>
      obtain ⟨u, -, hact⟩ := Option.bind_eq_some_iff.mp hact
      split at hact <;> simp only [Option.some.injEq, reduceCtorEq] at hact
      subst c'
      exact ⟨h.user, h.sessions, h.merges,
        fun hne u hu => h.uploads hne u (List.mem_of_mem_eraseIdx hu)⟩

end Steps

section Runs

variable {hostUid sid : String} {s s' : System} {e : String × Action}

theorem step_eq_some (hstep : step hostUid sid s e = some s') :
    (s e.1).raised = false ∧ (∀ d ∈ e.2.document, d.hostUid = hostUid) ∧
      ∃ c, (s e.1).act sid e.2 = some c ∧ s' = Function.update s e.1 c := by
  rw [step] at hstep
  split at hstep
  · rename_i hready
    obtain ⟨c, hact, rfl⟩ := Option.map_eq_some_iff.mp hstep
    exact ⟨hready.1, hready.2, c, hact, rfl⟩
  · simp at hstep

theorem byHost_of_bound (h : ∀ uid, Bound hostUid uid (s uid)) : ByHost hostUid s e s' := by
  rw [ByHost]
  split
  · rename_i i _
    intro u hu htype
    by_contra hne
    exact (h e.1).uploads hne u (List.mem_of_getElem? hu) htype
  · trivial

theorem bound_step (h : ∀ uid, Bound hostUid uid (s uid)) (hcareful : Careful hostUid s e)
    (hstep : step hostUid sid s e = some s') : ∀ uid, Bound hostUid uid (s' uid) := by
  obtain ⟨-, hdocument, c, hact, rfl⟩ := step_eq_some hstep
  intro uid
  by_cases huid : uid = e.1
  · subst uid
    rw [Function.update_self]
    exact bound_act (h e.1) hdocument hcareful hact
  · rw [Function.update_of_ne huid]
    exact h uid

theorem step_of_act {uid : String} {a : Action} {c : Client} (hraised : (s uid).raised = false)
    (hdocument : a.document = none) (hact : (s uid).act sid a = some c) :
    step hostUid sid s (uid, a) = some (Function.update s uid c) := by
  rw [step, if_pos ⟨hraised, by simp [hdocument]⟩, hact]
  rfl

/-- The last merge of its screen uploads its own mix. -/
theorem uploads_merged {c : Client} {l : List MergeRun} {m : MergeRun}
    (hl : c.merges = l ++ [m]) :
    (c.merged l.length true m).uploads = c.uploads ++ [⟨m.type, true⟩] := by
  simp [Client.merged, hl]

theorem not_tapsAsHost {uid : String} {c : Client} {a : Action}
    (h : ¬ TapsAsHost hostUid uid c a) :
    ∃ k loads, a = .merge .clickTrackRef k loads ∧ uid ≠ hostUid ∧
      ¬ c.mergeRaises k loads = true := by
  unfold TapsAsHost at h
  split at h
  · rename_i k loads
    obtain ⟨hguest, hgoes⟩ := not_or.mp h
    exact ⟨k, loads, rfl, hguest, hgoes⟩
  · exact absurd trivial h

/-- A guest's tap leads to an update when its export and its put succeed. -/
theorem updated_by_guest (hcareful : ¬ Careful hostUid s e)
    (hstep : step hostUid sid s e = some s') :
    ∃ fs, ¬ EveryStep (step hostUid sid) (ByHost hostUid) s (e :: fs) := by
  obtain ⟨uid, a⟩ := e
  obtain ⟨k, loads, heq, hguest, hgoes⟩ := not_tapsAsHost hcareful
  dsimp only at heq hguest hgoes
  subst a
  obtain ⟨hraised, -, c, hact, rfl⟩ := step_eq_some hstep
  let m : MergeRun := ⟨k, .clickTrackRef, false, false⟩
  have hc : c = { s uid with merges := (s uid).merges ++ [m] } := by
    simp only [Client.act, if_neg hgoes] at hact
    split at hact
    · exact (Option.some.inj hact).symm
    · simp at hact
  subst c
  let tapped : Client := { s uid with merges := (s uid).merges ++ [m] }
  let exported := tapped.merged (s uid).merges.length true m
  let stored : Client := { exported with
    uploads := exported.uploads.eraseIdx (s uid).uploads.length }
  have huploads : exported.uploads = (s uid).uploads ++ [⟨.clickTrackRef, true⟩] :=
    uploads_merged rfl
  have hmerged : step hostUid sid (Function.update s uid tapped)
      (uid, .merged (s uid).merges.length true) =
        some (Function.update (Function.update s uid tapped) uid exported) := by
    refine step_of_act ?_ rfl ?_
    · rw [Function.update_self]
      exact hraised
    · simp [Client.act, tapped, exported, m]
  have huploaded : step hostUid sid (Function.update (Function.update s uid tapped) uid exported)
      (uid, .uploaded (s uid).uploads.length) =
        some (Function.update (Function.update (Function.update s uid tapped) uid exported) uid
          stored) := by
    refine step_of_act ?_ rfl ?_
    · rw [Function.update_self]
      exact hraised
    · simp [Client.act, huploads, stored]
  refine ⟨[(uid, .merged (s uid).merges.length true), (uid, .uploaded (s uid).uploads.length)],
    fun h => ?_⟩
  have hafter := ((everyStep_cons hstep).mp h).2
  have hlast := ((everyStep_cons huploaded).mp ((everyStep_cons hmerged).mp hafter).2).1
  refine hguest (hlast ⟨.clickTrackRef, true⟩ ?_ rfl)
  rw [Function.update_self, huploads]
  simp

end Runs

/-- If only the host taps the Merge screen's Click-track button then, in every
run of any number of clients, only the host updates the reference. A run in
which someone else taps it has a beginning that can be continued to such an
update. -/
theorem host_only_of_careful (hostUid sid : String) (name : String → String)
    (es : List (String × Action)) :
    (Meets (step hostUid sid) (Careful hostUid) (initial name) es →
      EveryStep (step hostUid sid) (ByHost hostUid) (initial name) es) ∧
    (¬ Meets (step hostUid sid) (Careful hostUid) (initial name) es →
      ∃ before after fs, es = before ++ after ∧
        ¬ EveryStep (step hostUid sid) (ByHost hostUid) (initial name) (before ++ fs)) := by
  have hinitial : ∀ uid, Bound hostUid uid (initial name uid) := fun uid =>
    ⟨rfl, fun _ h => absurd h List.not_mem_nil, fun _ _ h => absurd h List.not_mem_nil,
      fun _ _ h => absurd h List.not_mem_nil⟩
  constructor
  · intro hcareful
    exact hcareful.everyStep (fun s e s' h hC hstep => ⟨byHost_of_bound h, bound_step h hC hstep⟩)
      hinitial
  · intro hcareful
    exact exists_broken_of_not_meets (fun s e s' h hC hstep => bound_step h hC hstep)
      (fun s e s' _ hC hstep => updated_by_guest hC hstep) hcareful hinitial

/-- A guest selects a track and taps the Click-track button. -/
theorem click_track_by_guest :
    ¬ ∀ (hostUid sid : String) (name : String → String) (es : List (String × Action)),
      EveryStep (step hostUid sid) (ByHost hostUid) (initial name) es := by
  intro h
  let d : SessionDocument :=
    ⟨"song", "host", [⟨"take", "host", "host", some (.download "take")⟩], .empty, [], .empty,
      false, []⟩
  let before : List (String × Action) :=
    [("ann", .joinSession d), ("ann", .viewDidLoad .merge), ("ann", .refresh 0),
      ("ann", .refreshed 0 d), ("ann", .didSelectRow 0 0), ("ann", .merge .clickTrackRef 0 true),
      ("ann", .merged 0 true)]
  have hsome : (run (step "host" "s") (initial id) (before ++ [("ann", .uploaded 0)])).isSome := by
    decide +kernel
  obtain ⟨s, s', hs, hstep, -⟩ := exists_of_run_concat hsome
  have hupload : (s "ann").uploads[0]?.map Upload.type = some .clickTrackRef :=
    eq_of_map_run (f := fun s => (s "ann").uploads[0]?.map Upload.type) hs (by decide +kernel)
  obtain ⟨u, hu, htype⟩ := Option.map_eq_some_iff.mp hupload
  have hhost := (h "host" "s" id (before ++ [("ann", .uploaded 0)])).at hs hstep u hu htype
  exact absurd hhost (by decide)

end Tootti.HostOnly
