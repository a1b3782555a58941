import Tootti.Machine.Barrier
import Tootti.Machine.Run
import Tootti.Model.Session

/-!
Sending the Library's selection to the Merge screen.

`confirmTracks:` starts the activity indicator and one upload for each
selected recording. An upload has three callbacks, of the storage put, of the
download URL and of the update of the session document. The first two end it
silently when they fail; the third reports success whether or not it failed.
Each report is counted, and the count compared with the size the selection has
by then, which the rows of the table still change.
-/

namespace Tootti.Uploads

open Machine

inductive Phase
  | put
  | downloadURL
  | updateData
  | ended
  deriving DecidableEq, Repr

/-- `uploadAudioSound:` of a track, and the callback it waits for. -/
structure Upload where
  track : Audio
  phase : Phase
  deriving DecidableEq, Repr

structure Rows where
  audioRecordings : List Audio
  selectedRecordings : List Audio
  deriving DecidableEq, Repr

structure State where
  user : User
  session : String
  rows : Rows
  uploadCount : Nat
  uploads : List Upload
  /-- `audioTracks` of the Merge screen. -/
  audioTracks : List Audio
  /-- The field of the session document. -/
  guestPlayerList : List GuestTrack
  indicator : Bool
  /-- How often the Merge tab was opened since `confirmTracks:`. -/
  opened : Nat
  deriving DecidableEq, Repr

inductive Event
  | put (i : Nat) (success : Bool)
  | downloadURL (i : Nat) (success : Bool)
  | updateData (i : Nat) (success : Bool)
  | didSelectRow (row : Nat)
  | didDeselectRow (row : Nat)
  | deleteRow (row : Nat)

/-- What the table's delegate does to the rows; the callbacks leave them. -/
def Rows.react (x : Rows) : Event → Option Rows
  | .put _ _ | .downloadURL _ _ | .updateData _ _ => some x
  | .didSelectRow row => x.audioRecordings[row]?.map fun a =>
      { x with selectedRecordings := x.selectedRecordings ++ [a] }
  | .didDeselectRow row => x.audioRecordings[row]?.map fun a =>
      { x with selectedRecordings := removeObject x.selectedRecordings a }
  | .deleteRow row => x.audioRecordings[row]?.map fun a =>
      { x with
        selectedRecordings := removeObject x.selectedRecordings a
        audioRecordings := x.audioRecordings.eraseIdx row }

namespace State

/-- The entry an upload adds for a track. -/
def entry (s : State) (a : Audio) : GuestTrack := a.uploadEntry s.user.uid s.session s.user.username

def confirmTracks (s : State) : State :=
  { s with
    indicator := true
    audioTracks := s.rows.selectedRecordings
    uploadCount := 0
    uploads := s.rows.selectedRecordings.map fun a => ⟨a, .put⟩
    opened := 0 }

/-- The block `confirmTracks:` passes to each upload. -/
def report (success : Bool) (s : State) : State :=
  if success then
    if s.rows.selectedRecordings.length ≤ s.uploadCount + 1 then
      { s with uploadCount := 0, indicator := false, opened := s.opened + 1 }
    else { s with uploadCount := s.uploadCount + 1 }
  else { s with indicator := false }

/-- The track of the upload that waits for this callback. -/
def waiting (s : State) (phase : Phase) (i : Nat) : Option Audio :=
  match s.uploads[i]? with
  | none => none
  | some u => if u.phase = phase then some u.track else none

def setPhase (i : Nat) (phase : Phase) (s : State) : State :=
  { s with uploads := s.uploads.modify i fun u => { u with phase } }

/-- The outcome of `updateData:`. -/
def write (a : Audio) (success : Bool) (s : State) : State :=
  if success then { s with guestPlayerList := arrayUnion s.guestPlayerList (s.entry a) } else s

/-- The callback of `updateData:`, which does not look at its error. -/
def updated (i : Nat) (a : Audio) (success : Bool) (s : State) : State :=
  ((s.setPhase i .ended).write a success).report true

end State

def step (s : State) (e : Event) : Option State :=
  match e with
  | .put i success => (s.waiting .put i).map fun _ =>
      s.setPhase i (if success then .downloadURL else .ended)
  | .downloadURL i success => (s.waiting .downloadURL i).map fun _ =>
      s.setPhase i (if success then .updateData else .ended)
  | .updateData i success => (s.waiting .updateData i).map fun a => s.updated i a success
  | .didSelectRow _ | .didDeselectRow _ | .deleteRow _ =>
      (s.rows.react e).map fun rows => { s with rows }

/-- No callback is pending any more. -/
def Done (s : State) : Prop := ∀ u ∈ s.uploads, u.phase = .ended

/-- The indicator is stopped, and the Merge tab was opened once if all tracks
have their entries, and never otherwise. -/
structure Accounted (tracks : List Audio) (s : State) : Prop where
  indicator : s.indicator = false
  opened : s.opened = if ∀ a ∈ tracks, s.entry a ∈ s.guestPlayerList then 1 else 0

/-- The sizes the selection has when the reports come. -/
def sizes (x : Rows) : List Event → List Nat
  | [] => []
  | .updateData i success :: es =>
      x.selectedRecordings.length :: sizes ((x.react (.updateData i success)).getD x) es
  | e :: es => sizes ((x.react e).getD x) es

/-- The track's entry was in the document, or is written for an upload. -/
def Stored (s : State) (es : List Event) (a : Audio) : Prop :=
  s.entry a ∈ s.guestPlayerList ∨
    ∃ i b, s.rows.selectedRecordings[i]? = some b ∧ s.entry b = s.entry a ∧
      Event.updateData i true ∈ es

/-- Up to one report each finds more selected than have reported; that one
does not, and each after it finds more selected than have reported since. -/
def ReachedOnce (sizes : List Nat) : Prop :=
  ∃ l m r, sizes = l ++ m :: r ∧ Barrier.Below 0 l ∧ m ≤ l.length + 1 ∧ Barrier.Below 0 r

/-! ### One callback, one touch of a row -/

section Steps

variable {s s' : State} {e : Event} {i : Nat} {a : Audio} {phase : Phase}

def State.barrier (s : State) : Barrier := ⟨s.uploadCount, s.opened⟩

def State.tracks (s : State) : List Audio := s.uploads.map Upload.track

theorem waiting_eq_some (h : s.waiting phase i = some a) : s.tracks[i]? = some a := by
  rw [State.waiting] at h
  split at h
  · simp at h
  · rename_i u hu
    split at h <;> simp only [Option.some.injEq, reduceCtorEq] at h
    rw [State.tracks, List.getElem?_map, hu, ← h]
    rfl

@[simp] theorem tracks_setPhase : (s.setPhase i phase).tracks = s.tracks := by
  ext j : 1
  simp only [State.tracks, State.setPhase, List.getElem?_map, List.getElem?_modify]
  cases s.uploads[j]? with
  | none => rfl
  | some u =>
      show some (if i = j then (⟨u.track, phase⟩ : Upload) else u).track = some u.track
      split <;> rfl

/-- What a step leaves alone. -/
structure Frame (s s' : State) : Prop where
  user : s'.user = s.user
  session : s'.session = s.session
  tracks : s'.tracks = s.tracks

theorem Frame.refl (s : State) : Frame s s := ⟨rfl, rfl, rfl⟩

theorem Frame.trans {t : State} (h : Frame s s') (h' : Frame s' t) : Frame s t :=
  ⟨h'.user.trans h.user, h'.session.trans h.session, h'.tracks.trans h.tracks⟩

theorem Frame.entry (h : Frame s s') (a : Audio) : s'.entry a = s.entry a := by
  rw [State.entry, State.entry, h.user, h.session]

/-- A report is counted against the size of the selection; nothing else is
counted or written. -/
inductive Turn (s : State) (e : Event) (s' : State) : Prop
  | quiet (hrows : s.rows.react e = some s'.rows)
      (hsizes : ∀ es, sizes s.rows (e :: es) = sizes s'.rows es)
      (hstored : ∀ j success, e ≠ .updateData j success) (hbarrier : s'.barrier = s.barrier)
      (hindicator : s'.indicator = s.indicator) (hlist : s'.guestPlayerList = s.guestPlayerList)
  | reported (j : Nat) (b : Audio) (success : Bool) (he : e = .updateData j success)
      (htrack : s.tracks[j]? = some b) (hrows : s'.rows = s.rows)
      (hbarrier : s'.barrier = s.barrier.tick s.rows.selectedRecordings.length)
      (hindicator : s'.indicator = (s.indicator && s'.opened = s.opened))
      (hlist : ∀ g, g ∈ s'.guestPlayerList ↔
        g ∈ s.guestPlayerList ∨ success = true ∧ g = s.entry b)

theorem frame_report (success : Bool) (s : State) : Frame s (s.report success) := by
  rw [State.report]
  split
  · split <;> exact ⟨rfl, rfl, rfl⟩
  · exact ⟨rfl, rfl, rfl⟩

theorem frame_write (a : Audio) (success : Bool) (s : State) : Frame s (s.write a success) := by
  cases success <;> exact ⟨rfl, rfl, rfl⟩

/-- What a report of success does. -/
structure Reported (s s' : State) : Prop where
  rows : s'.rows = s.rows
  barrier : s'.barrier = s.barrier.tick s.rows.selectedRecordings.length
  indicator : s'.indicator = (s.indicator && s'.opened = s.opened)
  guestPlayerList : s'.guestPlayerList = s.guestPlayerList

theorem reported_report (s : State) : Reported s (s.report true) := by
  rw [State.report, if_pos rfl]
  split
  · rename_i hreached
    exact ⟨rfl, (if_pos hreached).symm, by simp, rfl⟩
  · rename_i hbelow
    exact ⟨rfl, (if_neg hbelow).symm, by simp, rfl⟩

theorem mem_write {success : Bool} {g : GuestTrack} :
    g ∈ (s.write a success).guestPlayerList ↔
      g ∈ s.guestPlayerList ∨ success = true ∧ g = s.entry a := by
  cases success with
  | false => simp [State.write]
  | true => simp [State.write, mem_arrayUnion]

theorem turn_updated (success : Bool) (h : s.waiting .updateData i = some a) :
    Turn s (.updateData i success) (s.updated i a success) := by
  have hreport := reported_report ((s.setPhase i .ended).write a success)
  have hsame : ∀ s : State, (s.write a success).rows = s.rows ∧
      (s.write a success).barrier = s.barrier ∧ (s.write a success).indicator = s.indicator ∧
      (s.write a success).opened = s.opened := by
    cases success <;> exact fun _ => ⟨rfl, rfl, rfl, rfl⟩
  obtain ⟨hrows, hbarrier, hindicator, hopened⟩ := hsame (s.setPhase i .ended)
  refine .reported i a success rfl (waiting_eq_some h) (hreport.rows.trans hrows) ?_ ?_ fun g => ?_
  · rw [State.updated, hreport.barrier, hrows, hbarrier]
    rfl
  · rw [State.updated, hreport.indicator, hindicator, hopened]
    rfl
  · rw [State.updated, hreport.guestPlayerList, mem_write]
    rfl

theorem step_frame (hstep : step s e = some s') : Frame s s' := by
  cases e with
  | put i success | downloadURL i success =>
      obtain ⟨-, -, rfl⟩ := Option.map_eq_some_iff.mp hstep
      exact ⟨rfl, rfl, tracks_setPhase⟩
  | updateData i success =>
      obtain ⟨a, -, rfl⟩ := Option.map_eq_some_iff.mp hstep
      have hphase : Frame s (s.setPhase i .ended) := ⟨rfl, rfl, tracks_setPhase⟩
      have hwrite := frame_write a success (s.setPhase i .ended)
      have hreport := frame_report true ((s.setPhase i .ended).write a success)
      exact (hphase.trans hwrite).trans hreport
  | didSelectRow row | didDeselectRow row | deleteRow row =>
      obtain ⟨rows, -, rfl⟩ := Option.map_eq_some_iff.mp hstep
      exact ⟨rfl, rfl, rfl⟩

theorem step_turn (hstep : step s e = some s') : Turn s e s' := by
  cases e with
  | put i success | downloadURL i success =>
      obtain ⟨-, -, rfl⟩ := Option.map_eq_some_iff.mp hstep
      exact .quiet rfl (fun _ => rfl) (fun _ _ => Event.noConfusion) rfl rfl rfl
  | updateData i success =>
      obtain ⟨a, ha, rfl⟩ := Option.map_eq_some_iff.mp hstep
      exact turn_updated success ha
  | didSelectRow row | didDeselectRow row | deleteRow row =>
      obtain ⟨rows, hrows, rfl⟩ := Option.map_eq_some_iff.mp hstep
      refine .quiet hrows (fun _ => ?_) (fun _ _ h => Event.noConfusion h) rfl rfl rfl
      rw [sizes, hrows]
      · rfl
      · exact fun _ _ => Event.noConfusion

end Steps

/-! ### Runs -/

section Runs

variable {s t : State} {es : List Event}

theorem frame_run (hrun : run step s es = some t) : Frame s t :=
  run_invariant (I := Frame s) (fun _ _ _ h hstep => h.trans (step_frame hstep)) hrun (.refl s)

theorem barrier_run (hrun : run step s es = some t) :
    t.barrier = (sizes s.rows es).foldl Barrier.tick s.barrier := by
  induction es generalizing s with
  | nil =>
      obtain rfl : s = t := Option.some.inj hrun
      rfl
  | cons e es ih =>
      obtain ⟨s', hstep, hrest⟩ := run_cons_eq_some.mp hrun
      rw [ih hrest]
      cases step_turn hstep with
      | quiet _ hsizes _ hbarrier _ _ => rw [hsizes, hbarrier]
      | reported j b success he _ hrows hbarrier _ _ =>
          rw [he, sizes, List.foldl_cons, hbarrier, hrows]
          rfl

theorem mem_run (hrun : run step s es = some t) (g : GuestTrack) :
    g ∈ t.guestPlayerList ↔ g ∈ s.guestPlayerList ∨
      ∃ i b, s.tracks[i]? = some b ∧ s.entry b = g ∧ Event.updateData i true ∈ es := by
  induction es generalizing s with
  | nil =>
      obtain rfl : s = t := Option.some.inj hrun
      simp
  | cons e es ih =>
      obtain ⟨s', hstep, hrest⟩ := run_cons_eq_some.mp hrun
      have hframe := step_frame hstep
      rw [ih hrest, hframe.tracks]
      simp only [hframe.entry]
      cases step_turn hstep with
      | quiet _ _ hstored _ _ hlist =>
          have hne : ∀ i, Event.updateData i true ≠ e := fun i heq => hstored i true heq.symm
          simp [hlist, hne]
      | reported j b success he htrack _ _ _ hlist =>
          subst e
          rw [hlist]
          constructor
          · rintro ((hg | ⟨rfl, rfl⟩) | ⟨i, a, ha, hentry, hin⟩)
            · exact .inl hg
            · exact .inr ⟨j, b, htrack, rfl, List.mem_cons_self⟩
            · exact .inr ⟨i, a, ha, hentry, List.mem_cons_of_mem _ hin⟩
          · rintro (hg | ⟨i, a, ha, hentry, hin⟩)
            · exact .inl (.inl hg)
            · rcases List.mem_cons.mp hin with heq | hin
              · obtain ⟨rfl, rfl⟩ := Event.updateData.inj heq
                obtain rfl : b = a := by simpa [htrack] using ha
                exact .inl (.inr ⟨rfl, hentry.symm⟩)
              · exact .inr ⟨i, a, ha, hentry, hin⟩

/-- The indicator runs until the Merge tab is opened. -/
def Running (s : State) : Prop := s.indicator = decide (s.opened = 0)

theorem running_run (hrun : run step s es = some t) (hs : Running s) : Running t := by
  have hkeep : ∀ m e m', Running m → step m e = some m' → Running m' := by
    intro m e m' h hstep
    cases step_turn hstep with
    | quiet _ _ _ hbarrier hindicator _ =>
        have hopened : m'.opened = m.opened := congrArg Barrier.fired hbarrier
        rw [Running, hindicator, hopened, h]
    | reported j b success _ _ _ hbarrier hindicator _ =>
        have hle := Barrier.fired_le_tick m.barrier m.rows.selectedRecordings.length
        rw [← hbarrier] at hle
        have hopened : m.opened ≤ m'.opened := hle
        rw [Running, hindicator, h]
        by_cases hzero : m.opened = 0
        · simp [hzero]
        · have hpos : m'.opened ≠ 0 := by omega
          simp [hzero, hpos]
  exact run_invariant hkeep hrun hs

end Runs

/-- The accounts are right, at any time after the tracks were confirmed,
exactly if every track's entry is stored and the reports reach the size of the
selection once. -/
theorem accounted_iff_reachedOnce {s t : State} {es : List Event}
    (hrun : run step s.confirmTracks es = some t) :
    Accounted s.rows.selectedRecordings t ↔
      (∀ a ∈ s.rows.selectedRecordings, Stored s es a) ∧ ReachedOnce (sizes s.rows es) := by
  have hrunning : Running t := running_run hrun rfl
  have hframe := frame_run hrun
  have htracks : s.confirmTracks.tracks = s.rows.selectedRecordings := by
    simp [State.tracks, State.confirmTracks, Function.comp_def]
  have hstored : (∀ a ∈ s.rows.selectedRecordings, t.entry a ∈ t.guestPlayerList) ↔
      ∀ a ∈ s.rows.selectedRecordings, Stored s es a := by
    refine forall₂_congr fun a _ => ?_
    rw [hframe.entry, mem_run hrun, htracks]
    rfl
  have honce : t.opened = 1 ↔ ReachedOnce (sizes s.rows es) := by
    have hfired : t.opened = ((sizes s.rows es).foldl Barrier.tick ⟨0, 0⟩).fired :=
      congrArg Barrier.fired (barrier_run hrun)
    rw [hfired, Barrier.fired_foldl_eq_succ_iff (b := ⟨0, 0⟩), ReachedOnce]
    simp
  by_cases hall : ∀ a ∈ s.rows.selectedRecordings, t.entry a ∈ t.guestPlayerList
  · rw [and_iff_right (hstored.mp hall), ← honce]
    constructor
    · intro h
      rw [h.opened, if_pos hall]
    · intro h
      exact ⟨by rw [hrunning, h]; rfl, by rw [h, if_pos hall]⟩
  · refine iff_of_false (fun h => ?_) fun h => hall (hstored.mpr h.1)
    have hopened : t.opened = 0 := by rw [h.opened, if_neg hall]
    have hindicator := h.indicator
    rw [hrunning, hopened] at hindicator
    exact absurd hindicator (by decide)

/-- A Library whose recordings are all selected. -/
def allSelected (takes : List Audio) : State :=
  ⟨⟨"a", "ann"⟩, "s", ⟨takes, takes⟩, 0, [], [], [], false, 0⟩

def voice : Audio := ⟨"voice", "a", "ann", some (.document "voice.wav"), 0⟩

def bass : Audio := ⟨"bass", "a", "ann", some (.document "bass.wav"), 0⟩

/-- Two uploads whose callbacks overlap, the second of which is done first. -/
def crossed : List Event :=
  [.put 1 true, .put 0 true, .downloadURL 0 true, .downloadURL 1 true, .updateData 1 true,
    .updateData 0 true]

theorem accounted_two_takes :
    ∃ t, run step (allSelected [voice, bass]).confirmTracks crossed = some t ∧ Done t ∧
      Accounted (allSelected [voice, bass]).rows.selectedRecordings t := by
  have hrun : run step (allSelected [voice, bass]).confirmTracks crossed = some _ := rfl
  refine ⟨_, hrun, ?_, (accounted_iff_reachedOnce hrun).mpr ⟨?_, [2], 2, [], rfl, ?_⟩⟩
  · exact List.forall_mem_cons.mpr ⟨rfl, List.forall_mem_cons.mpr ⟨rfl, List.forall_mem_nil _⟩⟩
  · refine List.forall_mem_cons.mpr ⟨?_, List.forall_mem_cons.mpr ⟨?_, List.forall_mem_nil _⟩⟩
    · exact .inr ⟨0, voice, rfl, rfl, by simp [crossed]⟩
    · exact .inr ⟨1, bass, rfl, rfl, by simp [crossed]⟩
  · have hbelow : Barrier.Below 0 [2] := Barrier.below_cons.mpr ⟨by decide, Barrier.below_nil 1⟩
    exact ⟨hbelow, Nat.le_refl 2, Barrier.below_nil 0⟩

/-- The file cannot be stored, and the indicator never stops. -/
theorem indicator_left_by_failed_put :
    ¬ ∀ (s : State) (es : List Event) (t : State), run step s.confirmTracks es = some t →
      Done t → Accounted s.rows.selectedRecordings t := by
  intro h
  have haccounted := h (allSelected [voice]) [.put 0 false] _ rfl fun u hu => by
    obtain rfl := List.mem_singleton.mp hu
    rfl
  exact Bool.noConfusion haccounted.indicator

end Tootti.Uploads
