import Tootti.Machine.Run
import Tootti.Model.Join

/-!
The list of past sessions.

Each time the screen appears it reads every session that the user has joined,
and each read that finds its document adds a row. The list is made when the
screen is loaded and never cleared, so it has a row for each appearance, less the
reads that fail: nothing comes of an error but a line in the log.
-/

namespace Tootti.PastSessions

open Machine

structure PastSession extends Session where
  hostUsername : Option String
  deriving DecidableEq, Repr

/-- The object `loadSessions:` builds, before the host is read. The field it
passes as the flag is an object, and not nil. -/
def PastSession.ofDocument (sid : String) (d : SessionDocument) : PastSession where
  uid := sid
  sessionName := d.sessionName
  hostUid := d.hostUid
  guestPlayerList := d.guestPlayerList
  clickTrack := none
  recordedAudioDict := []
  finalMergedResult := none
  hostStartRecording := true
  currentPlayerList := d.currentPlayerList
  hostUsername := none

/-- What the read of the host does to the object. -/
def PastSession.withHost (snapshot : Option UserDocument) (session : PastSession) : PastSession :=
  match snapshot with
  | some u => { session with hostUsername := some u.username }
  | none => session

/-- The screen and its reads under way: of sessions by their ids, of hosts by
the row whose object waits for the name, and the host's id. -/
structure State where
  pastSessions : List PastSession
  sessionReads : List String
  hostReads : List (Nat × String)
  deriving DecidableEq, Repr

/-- `viewDidLoad`. -/
def State.loaded : State := ⟨[], [], []⟩

namespace State

def loadSessions (sessionList : List String) (s : State) : State :=
  { s with sessionReads := s.sessionReads ++ sessionList }

/-- The callback of a session's read, with what the read brought. -/
def sessionRead (sid : String) (snapshot : Option SessionDocument) (s : State) : State :=
  match snapshot with
  | some d =>
    { s with
      pastSessions := s.pastSessions ++ [.ofDocument sid d]
      hostReads := s.hostReads ++ [(s.pastSessions.length, d.hostUid)] }
  | none => s

/-- The callback of a host's read. -/
def hostRead (row : Nat) (snapshot : Option UserDocument) (s : State) : State :=
  { s with pastSessions := s.pastSessions.modify row (PastSession.withHost snapshot) }

def listed (s : State) : List String := s.pastSessions.map fun row => row.uid

end State

inductive Event
  | viewWillAppear
  /-- A read returns, with an error or with what the database has. -/
  | sessionRead (sid : String) (error : Bool)
  | hostRead (row : Nat) (hostUid : String) (error : Bool)
  deriving DecidableEq, Repr

section Runs

variable (joinedSessions : List String) (db : Database)

/-- Reads return in any order; two reads of one session bring the same, unless
they fail. -/
def step (s : State) : Event → Option State
  | .viewWillAppear => some (s.loadSessions joinedSessions)
  | .sessionRead sid error =>
    if sid ∈ s.sessionReads then
      some ({ s with sessionReads := s.sessionReads.erase sid }.sessionRead sid
        (if error then none else db.sessions.find? sid))
    else none
  | .hostRead row hostUid error =>
    if (row, hostUid) ∈ s.hostReads then
      some ({ s with hostReads := s.hostReads.erase (row, hostUid) }.hostRead row
        (if error then none else db.users.find? hostUid))
    else none

/-- A row shows the session's document, as `loadSessions:` reads it. -/
def OfDocument (row : PastSession) : Prop :=
  ∃ d, db.sessions.find? row.uid = some d ∧
    row.toSession = (PastSession.ofDocument row.uid d).toSession

def HostNamed (row : PastSession) : Prop :=
  ∀ u, db.users.find? row.hostUid = some u → row.hostUsername = some u.username

/-- One row for each session of the list that exists and no other, each with the
name of its host. -/
structure Right (s : State) : Prop where
  listed_once : ∀ sid ∈ joinedSessions, (db.sessions.find? sid).isSome → s.listed.count sid = 1
  no_other : ∀ row ∈ s.pastSessions, row.uid ∈ joinedSessions ∧ OfDocument db row
  hosts : ∀ row ∈ s.pastSessions, HostNamed db row

/-- The screen has appeared once more than the reads of a listed session that exists
have failed, and the reads of the hosts that exist have not. -/
structure ReadOnce (es : List Event) : Prop where
  sessions : ∀ sid ∈ joinedSessions, (db.sessions.find? sid).isSome →
    es.count .viewWillAppear = es.count (.sessionRead sid true) + 1
  hosts : ∀ row hostUid, .hostRead row hostUid true ∈ es → db.users.find? hostUid = none

/-- Each row waits for its host's name, or has been told it, or its read has failed. -/
structure Inv (past : List Event) (s : State) : Prop where
  of_document : ∀ row ∈ s.pastSessions, OfDocument db row
  waits : ∀ i hostUid, (i, hostUid) ∈ s.hostReads → ∃ row, s.pastSessions[i]? = some row ∧
    row.hostUid = hostUid ∧ row.hostUsername = none
  distinct : (s.hostReads.map Prod.fst).Nodup
  hosts : ∀ i row, s.pastSessions[i]? = some row → i ∉ s.hostReads.map Prod.fst →
    .hostRead i row.hostUid true ∈ past ∨ HostNamed db row
  failed : ∀ i hostUid, .hostRead i hostUid true ∈ past → i ∉ s.hostReads.map Prod.fst ∧
    ∃ row, s.pastSessions[i]? = some row ∧ row.hostUid = hostUid ∧ row.hostUsername = none

variable {joinedSessions db} {s s' t : State} {e : Event} {es past : List Event}

/-! ### What a returning read does -/

theorem step_sessionRead {sid : String} {error : Bool}
    (h : step joinedSessions db s (.sessionRead sid error) = some s') :
    sid ∈ s.sessionReads ∧ s' = { s with sessionReads := s.sessionReads.erase sid }.sessionRead sid
      (if error then none else db.sessions.find? sid) := by
  obtain ⟨hread, hs'⟩ := Option.ite_none_right_eq_some.mp h
  exact ⟨hread, (Option.some.inj hs').symm⟩

theorem step_hostRead {row : Nat} {hostUid : String} {error : Bool}
    (h : step joinedSessions db s (.hostRead row hostUid error) = some s') :
    (row, hostUid) ∈ s.hostReads ∧
      s' = { s with hostReads := s.hostReads.erase (row, hostUid) }.hostRead row
        (if error then none else db.users.find? hostUid) := by
  obtain ⟨hread, hs'⟩ := Option.ite_none_right_eq_some.mp h
  exact ⟨hread, (Option.some.inj hs').symm⟩

/-! ### The rows -/

theorem inv_loaded : Inv db [] .loaded where
  of_document _ h := absurd h List.not_mem_nil
  waits _ _ h := absurd h List.not_mem_nil
  distinct := List.nodup_nil
  hosts i row h := by simp [State.loaded] at h
  failed _ _ h := absurd h List.not_mem_nil

/-- An event that is no failed read of a host tells nothing new of them. -/
theorem Inv.concat (h : Inv db past s) (hquiet : ∀ row hostUid, e ≠ .hostRead row hostUid true) :
    Inv db (past ++ [e]) s where
  of_document := h.of_document
  waits := h.waits
  distinct := h.distinct
  hosts i row hi hread := (h.hosts i row hi hread).imp_left (List.mem_append_left _)
  failed i hostUid hmem := by
    rcases List.mem_append.mp hmem with hmem | hmem
    · exact h.failed i hostUid hmem
    · exact absurd (List.mem_singleton.mp hmem).symm (hquiet i hostUid)

theorem Inv.lt (h : Inv db past s) {i : Nat} (hi : i ∈ s.hostReads.map Prod.fst) :
    i < s.pastSessions.length := by
  obtain ⟨⟨j, hostUid⟩, hmem, rfl⟩ := List.mem_map.mp hi
  obtain ⟨row, hrow, -⟩ := h.waits j hostUid hmem
  exact (List.getElem?_eq_some_iff.mp hrow).1

theorem Inv.sessionRead (h : Inv db past s) (sid : String) {snapshot : Option SessionDocument}
    (hsnapshot : ∀ d ∈ snapshot, db.sessions.find? sid = some d) :
    Inv db past (s.sessionRead sid snapshot) := by
  cases snapshot with
  | none => exact h
  | some d =>
      have hd := hsnapshot d rfl
      have hkeep : ∀ {i : Nat} {row}, s.pastSessions[i]? = some row →
          (s.pastSessions ++ [PastSession.ofDocument sid d])[i]? = some row := by
        intro i row hrow
        rw [List.getElem?_append_left (List.getElem?_eq_some_iff.mp hrow).1]
        exact hrow
      constructor
      case of_document =>
        intro row hrow
        rcases List.mem_append.mp hrow with hrow | hrow
        · exact h.of_document row hrow
        · obtain rfl := List.mem_singleton.mp hrow
          exact ⟨d, hd, rfl⟩
      case waits =>
        intro i hostUid hmem
        rcases List.mem_append.mp hmem with hmem | hmem
        · obtain ⟨row, hrow, hrest⟩ := h.waits i hostUid hmem
          exact ⟨row, hkeep hrow, hrest⟩
        · obtain ⟨rfl, rfl⟩ := Prod.mk.inj (List.mem_singleton.mp hmem)
          exact ⟨_, List.getElem?_concat_length, rfl, rfl⟩
      case distinct =>
        show ((s.hostReads ++ [(s.pastSessions.length, d.hostUid)]).map Prod.fst).Nodup
        rw [List.map_append, List.map_singleton]
        refine List.nodup_append.mpr ⟨h.distinct, List.nodup_singleton _, fun i hi j hj => ?_⟩
        rw [List.mem_singleton.mp hj]
        exact (h.lt hi).ne
      case hosts =>
        intro i row hrow hread
        rw [State.sessionRead, List.map_append, List.mem_append, not_or] at hread
        refine h.hosts i row ?_ hread.1
        -- the new row waits for its host
        obtain ⟨hi, -⟩ := List.getElem?_eq_some_iff.mp hrow
        have hlt : i < s.pastSessions.length + 1 := by simpa [State.sessionRead] using hi
        have hne : i ≠ s.pastSessions.length := by simpa using hread.2
        exact (List.getElem?_append_left (by omega)).symm.trans hrow
      case failed =>
        intro i hostUid hmem
        obtain ⟨hread, row, hrow, hrest⟩ := h.failed i hostUid hmem
        refine ⟨fun hnew => ?_, row, hkeep hrow, hrest⟩
        rw [State.sessionRead, List.map_append, List.mem_append] at hnew
        have hlt := (List.getElem?_eq_some_iff.mp hrow).1
        rcases hnew with hold | hnew
        · exact hread hold
        · have heq : i = s.pastSessions.length := by simpa using hnew
          omega

theorem OfDocument.withHost {row : PastSession} (h : OfDocument db row)
    (snapshot : Option UserDocument) : OfDocument db (row.withHost snapshot) := by
  cases snapshot with
  | none => exact h
  | some u => exact h

theorem hostUid_withHost (row : PastSession) (snapshot : Option UserDocument) :
    (row.withHost snapshot).hostUid = row.hostUid := by
  cases snapshot <;> rfl

theorem hostNamed_withHost (row : PastSession) :
    HostNamed db (row.withHost (db.users.find? row.hostUid)) := by
  cases hu : db.users.find? row.hostUid with
  | none =>
      intro v hv
      cases hu.symm.trans hv
  | some u =>
      intro v hv
      obtain rfl := Option.some.inj (hu.symm.trans hv)
      rfl

theorem getElem?_hostRead (row i : Nat) (snapshot : Option UserDocument) (s : State) :
    (s.hostRead row snapshot).pastSessions[i]? =
      if i = row then s.pastSessions[row]?.map (PastSession.withHost snapshot)
      else s.pastSessions[i]? := by
  split_ifs with hi
  · rw [hi, State.hostRead, List.getElem?_modify_eq]
    rfl
  · exact List.getElem?_modify_ne _ _ (Ne.symm hi)

/-- When the read of a row returns, those of the other rows stay under way. -/
theorem mem_rows_erase {reads : List (Nat × String)} {i j : Nat} {hostUid : String}
    (hdistinct : (reads.map Prod.fst).Nodup) (hread : (i, hostUid) ∈ reads) :
    j ∈ (reads.erase (i, hostUid)).map Prod.fst ↔ j ≠ i ∧ j ∈ reads.map Prod.fst := by
  have hperm := (List.perm_cons_erase hread).map Prod.fst
  have hnew := (List.nodup_cons.mp (hperm.nodup_iff.mp hdistinct)).1
  rw [hperm.mem_iff, List.map_cons, List.mem_cons]
  constructor
  · intro hj
    exact ⟨fun heq => hnew (heq ▸ hj), Or.inr hj⟩
  · rintro ⟨hne, hj⟩
    exact hj.resolve_left hne

theorem Inv.hostRead {i : Nat} {hostUid : String} (h : Inv db past s)
    (hread : (i, hostUid) ∈ s.hostReads) (error : Bool) :
    Inv db (past ++ [.hostRead i hostUid error])
      ({ s with hostReads := s.hostReads.erase (i, hostUid) }.hostRead i
        (if error then none else db.users.find? hostUid)) := by
  obtain ⟨session, hsession, hhost, hunnamed⟩ := h.waits i hostUid hread
  have hreads : ∀ j, j ∈ (s.hostReads.erase (i, hostUid)).map Prod.fst ↔
      j ≠ i ∧ j ∈ s.hostReads.map Prod.fst := fun _ => mem_rows_erase h.distinct hread
  have hrow : ∀ {j : Nat} {row}, j ≠ i → s.pastSessions[j]? = some row →
      ({ s with hostReads := s.hostReads.erase (i, hostUid) }.hostRead i
        (if error then none else db.users.find? hostUid)).pastSessions[j]? = some row := by
    intro j row hj hold
    rw [getElem?_hostRead, if_neg hj]
    exact hold
  constructor
  case of_document =>
    intro other hother
    obtain ⟨j, hj⟩ := List.mem_iff_getElem?.mp hother
    rw [getElem?_hostRead] at hj
    by_cases heq : j = i
    · rw [if_pos heq] at hj
      obtain ⟨session', hsession', rfl⟩ := Option.map_eq_some_iff.mp hj
      exact (h.of_document session' (List.mem_of_getElem? hsession')).withHost _
    · rw [if_neg heq] at hj
      exact h.of_document other (List.mem_of_getElem? hj)
  case waits =>
    intro j uid hmem
    have hj : j ≠ i := ((hreads j).mp (List.mem_map_of_mem hmem)).1
    obtain ⟨row, hold, hrest⟩ := h.waits j uid (List.mem_of_mem_erase hmem)
    exact ⟨row, hrow hj hold, hrest⟩
  case distinct => exact (List.erase_sublist.map Prod.fst).nodup h.distinct
  case hosts =>
    intro j row hj hnot
    rw [getElem?_hostRead] at hj
    by_cases heq : j = i
    · subst j
      rw [if_pos rfl, show _ = _ from hsession] at hj
      obtain rfl := Option.some.inj hj
      rw [hostUid_withHost, hhost]
      cases error with
      | true => exact Or.inl (List.mem_append_right _ List.mem_cons_self)
      | false =>
          refine Or.inr ?_
          rw [if_neg Bool.false_ne_true, ← hhost]
          exact hostNamed_withHost session
    · rw [if_neg heq] at hj
      refine (h.hosts j row hj fun hmem => hnot ?_).imp_left (List.mem_append_left _)
      exact (hreads j).mpr ⟨heq, hmem⟩
  case failed =>
    intro j uid hmem
    rcases List.mem_append.mp hmem with hmem | hmem
    · obtain ⟨hnot, row, hold, hrest⟩ := h.failed j uid hmem
      have hj : j ≠ i := fun heq => hnot (heq ▸ List.mem_map_of_mem hread)
      exact ⟨fun hnew => hnot ((hreads j).mp hnew).2, row, hrow hj hold, hrest⟩
    · obtain ⟨rfl, rfl, rfl⟩ := Event.hostRead.inj (List.mem_singleton.mp hmem)
      refine ⟨fun hnew => ((hreads j).mp hnew).1 rfl, session, ?_, hhost, hunnamed⟩
      rw [getElem?_hostRead, if_pos rfl, if_pos rfl]
      exact congrArg (Option.map _) hsession

theorem inv_step (h : Inv db past s) (hstep : step joinedSessions db s e = some s') :
    Inv db (past ++ [e]) s' := by
  cases e with
  | viewWillAppear =>
      obtain rfl := Option.some.inj hstep
      have hsame : Inv db past (s.loadSessions joinedSessions) :=
        ⟨h.of_document, h.waits, h.distinct, h.hosts, h.failed⟩
      exact hsame.concat fun _ _ => Event.noConfusion
  | sessionRead sid error =>
      obtain ⟨-, rfl⟩ := step_sessionRead hstep
      have hstarted : Inv db past { s with sessionReads := s.sessionReads.erase sid } :=
        ⟨h.of_document, h.waits, h.distinct, h.hosts, h.failed⟩
      refine (hstarted.sessionRead sid fun d hd => ?_).concat fun _ _ => Event.noConfusion
      cases error with
      | true => exact absurd hd (Option.not_mem_none d)
      | false => exact hd
  | hostRead row hostUid error =>
      obtain ⟨hread, rfl⟩ := step_hostRead hstep
      exact h.hostRead hread error

theorem inv_run (hrun : run (step joinedSessions db) .loaded es = some t) : Inv db es t :=
  run_history (fun _ _ _ _ _ h hstep => inv_step h hstep) [] hrun inv_loaded

/-! ### How often a session is listed -/

theorem listed_sessionRead (sid : String) (snapshot : Option SessionDocument) (s : State) :
    (s.sessionRead sid snapshot).listed =
      if snapshot.isSome then s.listed ++ [sid] else s.listed := by
  cases snapshot with
  | none => rfl
  | some d => simp [State.sessionRead, State.listed, PastSession.ofDocument]

theorem sessionReads_sessionRead (sid : String) (snapshot : Option SessionDocument) (s : State) :
    (s.sessionRead sid snapshot).sessionReads = s.sessionReads := by
  cases snapshot <;> rfl

theorem listed_hostRead (row : Nat) (snapshot : Option UserDocument) (s : State) :
    (s.hostRead row snapshot).listed = s.listed := by
  have huid (session : PastSession) : (session.withHost snapshot).uid = session.uid := by
    cases snapshot <;> rfl
  refine List.ext_getElem? fun i => ?_
  rw [State.listed, State.listed, List.getElem?_map, List.getElem?_map, getElem?_hostRead]
  split_ifs with hi
  · rw [hi, Option.map_map]
    exact Option.map_congr fun session _ => huid session
  · rfl

/-- A session that exists is listed or being read once more for each time it is
in the list when the screen appears, unless its read fails. -/
theorem count_step {sid : String} (hsid : (db.sessions.find? sid).isSome)
    (hstep : step joinedSessions db s e = some s') :
    s'.listed.count sid + s'.sessionReads.count sid + [e].count (.sessionRead sid true) =
      s.listed.count sid + s.sessionReads.count sid +
        [e].count .viewWillAppear * joinedSessions.count sid := by
  cases e with
  | viewWillAppear =>
      obtain rfl := Option.some.inj hstep
      have hnone : [Event.viewWillAppear].count (.sessionRead sid true) = 0 := rfl
      show s.listed.count sid + (s.sessionReads ++ joinedSessions).count sid + _ = _
      rw [List.count_append, List.count_singleton_self, hnone]
      omega
  | sessionRead read error =>
      obtain ⟨hread, rfl⟩ := step_sessionRead hstep
      rw [listed_sessionRead, sessionReads_sessionRead]
      have hnone : [Event.sessionRead read error].count .viewWillAppear = 0 := rfl
      rw [hnone, Nat.zero_mul, Nat.add_zero]
      by_cases hsame : read = sid
      · subst read
        have hpos := List.count_pos_iff.mpr hread
        show _ + (s.sessionReads.erase sid).count sid + _ = _
        rw [List.count_erase_self]
        cases error with
        | true =>
            rw [List.count_singleton_self]
            show s.listed.count sid + (s.sessionReads.count sid - 1) + 1 = _
            omega
        | false =>
            have hzero : [Event.sessionRead sid false].count (.sessionRead sid true) = 0 :=
              List.count_eq_zero_of_not_mem (by simp)
            rw [if_neg Bool.false_ne_true, if_pos hsid, List.count_append,
              List.count_singleton_self, hzero]
            show s.listed.count sid + 1 + (s.sessionReads.count sid - 1) + 0 = _
            omega
      · have hother : [Event.sessionRead read error].count (.sessionRead sid true) = 0 :=
          List.count_eq_zero_of_not_mem (by simp [Ne.symm hsame])
        have hlisted : ∀ found : Bool, (if found then s.listed ++ [read] else s.listed).count sid =
            s.listed.count sid := by
          intro found
          cases found with
          | false => rfl
          | true => simp [hsame]
        show (if _ then s.listed ++ [read] else s.listed).count sid +
          (s.sessionReads.erase read).count sid + _ = _
        rw [List.count_erase_of_ne (Ne.symm hsame), hother, Nat.add_zero, hlisted]
  | hostRead row hostUid error =>
      obtain ⟨-, rfl⟩ := step_hostRead hstep
      have hnone : [Event.hostRead row hostUid error].count .viewWillAppear = 0 := rfl
      have hzero : [Event.hostRead row hostUid error].count (.sessionRead sid true) = 0 := rfl
      rw [listed_hostRead, hnone, hzero, Nat.zero_mul]
      rfl

/-- When all reads of sessions have returned. -/
theorem count_listed {sid : String} (hsid : (db.sessions.find? sid).isSome)
    (hrun : run (step joinedSessions db) .loaded es = some t) (hdone : t.sessionReads = []) :
    t.listed.count sid + es.count (.sessionRead sid true) =
      es.count .viewWillAppear * joinedSessions.count sid := by
  have hcount : t.listed.count sid + t.sessionReads.count sid + es.count (.sessionRead sid true) =
      es.count .viewWillAppear * joinedSessions.count sid := by
    refine run_history (I := fun past m => m.listed.count sid + m.sessionReads.count sid +
      past.count (.sessionRead sid true) = past.count .viewWillAppear * joinedSessions.count sid)
      (fun past m e m' _ hm hstep => ?_) [] hrun ?_
    · have hnext := count_step hsid hstep
      rw [List.count_append, List.count_append, Nat.add_mul]
      omega
    · rw [List.count_nil, List.count_nil, Nat.zero_mul]
      rfl
  rwa [hdone, List.count_nil, Nat.add_zero] at hcount

/-- The list is right exactly if each listed session that exists has been read once
without an error, as it is by the first appearance of the screen, and so have their
hosts. -/
theorem right_iff_read_once (hnodup : joinedSessions.Nodup)
    (hrun : run (step joinedSessions db) .loaded es = some t) (hsessions : t.sessionReads = [])
    (hhosts : t.hostReads = []) : Right joinedSessions db t ↔ ReadOnce joinedSessions db es := by
  have hinv : Inv db es t := inv_run hrun
  have hcount : ∀ sid ∈ joinedSessions, (db.sessions.find? sid).isSome →
      t.listed.count sid + es.count (.sessionRead sid true) = es.count .viewWillAppear := by
    intro sid hlisted hsid
    rw [count_listed hsid hrun hsessions, List.count_eq_one_of_mem hnodup hlisted, Nat.mul_one]
  constructor
  · intro hright
    constructor
    case sessions =>
      intro sid hlisted hsid
      have honce := hright.listed_once sid hlisted hsid
      have hall := hcount sid hlisted hsid
      omega
    case hosts =>
      intro i hostUid hmem
      -- the row whose host could not be read has no name
      obtain ⟨-, row, hrow, rfl, hunnamed⟩ := hinv.failed i hostUid hmem
      refine Option.eq_none_iff_forall_ne_some.mpr fun u hu => ?_
      have hnamed := hright.hosts row (List.mem_of_getElem? hrow) u hu
      rw [hunnamed] at hnamed
      cases hnamed
  · intro hread
    constructor
    case listed_once =>
      intro sid hlisted hsid
      have honce := hread.sessions sid hlisted hsid
      have hall := hcount sid hlisted hsid
      omega
    case no_other =>
      intro row hrow
      obtain ⟨d, hd, -⟩ := hinv.of_document row hrow
      have hmem : row.uid ∈ t.listed := List.mem_map_of_mem hrow
      have hpos := List.count_pos_iff.mpr hmem
      have hall := count_listed (Option.isSome_iff_exists.mpr ⟨d, hd⟩) hrun hsessions
      refine ⟨List.count_pos_iff.mp (Nat.pos_of_ne_zero fun hzero => ?_),
        hinv.of_document row hrow⟩
      rw [hzero, Nat.mul_zero] at hall
      omega
    case hosts =>
      intro row hrow u hu
      obtain ⟨i, hi⟩ := List.mem_iff_getElem?.mp hrow
      have hdone : i ∉ t.hostReads.map Prod.fst := by
        rw [hhosts]
        exact List.not_mem_nil
      rcases hinv.hosts i row hi hdone with hfailed | hnamed
      · cases hu.symm.trans (hread.hosts i row.hostUid hfailed)
      · exact hnamed u hu

end Runs

/-! ### Two runs -/

def oneSession : Database where
  users := ⟨[("h", ⟨"ann", ["s"]⟩)], by decide⟩
  sessions :=
    ⟨[("s", ⟨"jam", "h", [], .empty, [], .empty, false, [⟨"ann", "h", true⟩]⟩)], by decide⟩

/-- The screen is opened twice, for the first read of the session fails. -/
def openedAgain : List Event :=
  [.viewWillAppear, .sessionRead "s" true, .viewWillAppear, .sessionRead "s" false,
    .hostRead 0 "h" false]

theorem right_iff_read_once_opened_again :
    ∃ t, run (step ["s"] oneSession) .loaded openedAgain = some t ∧ Right ["s"] oneSession t := by
  have hrun := Option.eq_some_of_isSome
    (o := run (step ["s"] oneSession) .loaded openedAgain) (by decide)
  refine ⟨_, hrun, (right_iff_read_once (by decide) hrun (by decide) (by decide)).mpr ?_⟩
  constructor
  case sessions =>
    intro sid hsid _
    obtain rfl := List.mem_singleton.mp hsid
    decide
  case hosts => simp [openedAgain]

/-- On coming back to the screen the session is listed a second time. -/
theorem listed_twice :
    let es : List Event := [.viewWillAppear, .sessionRead "s" false, .hostRead 0 "h" false,
      .viewWillAppear, .sessionRead "s" false, .hostRead 1 "h" false]
    ∃ t, run (step ["s"] oneSession) .loaded es = some t ∧ t.sessionReads = [] ∧
      t.hostReads = [] ∧ t.listed = ["s", "s"] ∧ ¬ Right ["s"] oneSession t := by
  have hrun := Option.eq_some_of_isSome (o := run (step ["s"] oneSession) .loaded
    [.viewWillAppear, .sessionRead "s" false, .hostRead 0 "h" false, .viewWillAppear,
      .sessionRead "s" false, .hostRead 1 "h" false]) (by decide)
  refine ⟨_, hrun, by decide, by decide, by decide, fun hright => ?_⟩
  exact absurd (hright.listed_once "s" (by decide) (by decide)) (by decide)

end Tootti.PastSessions
