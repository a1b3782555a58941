import Tootti.Merge.Entries

/-!
Deletions from the Merge screen that fail.

The swipe takes the track out of the selection, and its entry out of the
cached Session's list, before it asks the server; only the row waits for the
answer. No failure puts back what was taken. What is gone from the cached list
goes from the document with the next deletion that succeeds.
-/

namespace Tootti.DeletionFailure

open Machine TrackStorage EntryDeletion

variable {α : Type}

/-- `failed` has the rows whose deletion failed. -/
structure State (α : Type) where
  system : System α
  failed : List GuestTrack

inductive Event (α : Type)
  | tracks (e : TrackStorage.Event α)
  | didSelectRow (c : String) (k i : Nat)
  | didDeselectRow (c : String) (k i : Nat)
  /-- The deletion of row `i`, whose file the server does not delete. -/
  | deletionFails (c : String) (k i : Nat)

namespace State

def onPhone (s : State α) (c : String) (p : Phone) : State α :=
  { s with system := s.system.onPhone c fun _ => p }

end State

def step (sid : String) (s : State α) : Event α → Option (State α)
  | .tracks e => (TrackStorage.step sid s.system e).map fun system => { s with system }
  | .didSelectRow c k i => ((s.system.phone c).didSelectRow k i).map (s.onPhone c)
  | .didDeselectRow c k i => ((s.system.phone c).didDeselectRow k i).map (s.onPhone c)
  | .deletionFails c k i => do
      let (d, p) ← (s.system.phone c).commitEditing k i
      some { s.onPhone c p with failed := s.failed ++ [d.row] }

/-- What a failure should leave as it was. -/
structure Unchanged (c : String) (k : Nat) (s s' : System α) : Prop where
  audioTracks : (s'.phone c).audioTracks k = (s.phone c).audioTracks k
  selectedTracks : (s'.phone c).selectedTracks k = (s.phone c).selectedTracks k
  cachedList : cachedList (s'.phone c) k = cachedList (s.phone c) k
  list : s'.list = s.list

/-- A failure changes nothing, and the deletion of another track leaves the
entries of the tracks whose deletion failed. -/
def Right (s : State α) (e : Event α) (s' : State α) : Prop :=
  match e with
  | .deletionFails c k _ => Unchanged c k s.system s'.system
  | .tracks (.deleteRow c k i) =>
      ∀ track ∈ ((s.system.phone c).audioTracks k)[i]?, ∀ f ∈ s.failed,
        ¬ SameTrack track.playerDict f →
          ∀ e ∈ s.system.list, SameTrack f e → e ∈ s'.system.list
  | _ => True

/-- A deletion fails for a track that is not selected and has no entry in the
cached list; one that succeeds is computed from a list with the entries of the
tracks whose deletion failed. -/
def Careful (s : State α) : Event α → Prop
  | .deletionFails c k i =>
      ∀ track ∈ ((s.system.phone c).audioTracks k)[i]?,
        track ∉ (s.system.phone c).selectedTracks k ∧
          track.playerDict ∉ cachedList (s.system.phone c) k
  | .tracks (.deleteRow c k i) =>
      ∀ track ∈ ((s.system.phone c).audioTracks k)[i]?, ∀ f ∈ s.failed,
        ¬ SameTrack track.playerDict f →
          ∀ e ∈ s.system.list, SameTrack f e → e ∈ cachedList (s.system.phone c) k
  | _ => True

section Steps

variable {sid c : String} {k i : Nat} {s s' : State α} {e : Event α}

/-- The swipe's own changes are felt exactly if it has something to remove. -/
theorem unchanged_iff (hstep : step sid s (.deletionFails c k i) = some s') :
    Unchanged c k s.system s'.system ↔ Careful s (.deletionFails c k i) := by
  simp only [step, Option.bind_eq_bind, Option.bind_eq_some_iff] at hstep
  obtain ⟨⟨d, p⟩, hcommit, hs'⟩ := hstep
  obtain rfl := Option.some.inj hs'
  obtain ⟨track, session, htrack, hsession, rfl, hrows, hselected, hcached, -⟩ :=
    Phone.commitEditing_spec hcommit
  have hphone : ((s.onPhone c p).system.phone c) = p := Function.update_self _ _ _
  have hbase : cachedList (s.system.phone c) k = session.guestPlayerList := by
    rw [cachedList, hsession]
    rfl
  have hsent : cachedList p k = removeObject session.guestPlayerList track.playerDict := by
    rw [cachedList, hcached]
    rfl
  simp only [Careful, htrack, Option.mem_def, Option.some.injEq, forall_eq']
  rw [← removeObject_eq_self_iff, ← removeObject_eq_self_iff, hbase]
  constructor
  · intro h
    have hsel := h.selectedTracks
    have hlist := h.cachedList
    simp only [hphone, hselected] at hsel
    simp only [hphone, hsent, hbase] at hlist
    exact ⟨hsel, hlist⟩
  · rintro ⟨hsel, hlist⟩
    refine ⟨?_, ?_, ?_, rfl⟩
    · simp only [hphone, hrows]
    · simp only [hphone, hselected, hsel]
    · simp only [hphone, hsent, hbase, hlist]

theorem right_deleteRow_iff (hstep : step sid s (.tracks (.deleteRow c k i)) = some s') :
    Right s (.tracks (.deleteRow c k i)) s' ↔ Careful s (.tracks (.deleteRow c k i)) := by
  obtain ⟨system, hsystem, rfl⟩ := Option.map_eq_some_iff.mp hstep
  refine forall₂_congr fun track htrack => forall₂_congr fun f _ => ?_
  refine imp_congr_right fun hother => forall₂_congr fun e _ => imp_congr_right fun hsame => ?_
  have hne : e ≠ track.playerDict := fun heq => hother (heq ▸ hsame.symm)
  rw [list_deleteRow htrack hsystem, mem_removeObject]
  exact and_iff_left hne

end Steps

/-- In every run from every state, failures change nothing and no later
deletion takes the entry of a track whose deletion failed, exactly if every
step is careful. -/
theorem failure_without_effect_iff (sid : String) (s : System α) (es : List (Event α)) :
    EveryStep (step sid) Right ⟨s, []⟩ es ↔ Meets (step sid) Careful ⟨s, []⟩ es := by
  have hagree : ∀ (s : State α) e s', True → step sid s e = some s' →
      (Right s e s' ↔ Careful s e) := by
    intro s e s' _ hstep
    cases e with
    | deletionFails c k i => exact unchanged_iff hstep
    | didSelectRow | didDeselectRow => exact Iff.rfl
    | tracks e =>
        cases e with
        | deleteRow c k i => exact right_deleteRow_iff hstep
        | joinSession | viewDidLoad | viewWillAppear | refresh | snapshot | clickTrackRef
        | confirmTracks | uploadAudioSound => exact Iff.rfl
  exact everyStep_iff_of_invariant hagree (fun _ _ _ _ _ _ => trivial) trivial es

/-- The deletion of the first of two rows fails. When the second is deleted,
the document loses the first one's entry too. -/
theorem entry_lost_after_failure :
    ¬ ∀ (sid : String) (s : System Nat) (es : List (Event Nat)),
      EveryStep (step sid) Right ⟨s, []⟩ es := by
  intro h
  let es : List (Event Nat) :=
    [.tracks (.joinSession "ann"), .tracks (.viewDidLoad "ann" .merge),
      .tracks (.refresh "ann" 0), .deletionFails "ann" 0 0]
  let begin : State Nat := ⟨EntryDeletion.start id (song [bobs 1, bobs 2]) fun _ => some 7, []⟩
  have hsome : (run (step "s") begin (es ++ [.tracks (.deleteRow "ann" 0 1)])).isSome := by
    decide +kernel
  obtain ⟨s, s', hs, hstep, hs'⟩ := exists_of_run_concat hsome
  have hright : Right s (.tracks (.deleteRow "ann" 0 1)) s' :=
    (h "s" begin.system (es ++ [.tracks (.deleteRow "ann" 0 1)])).at hs hstep
  have hrow : ((s.system.phone "ann").audioTracks 0)[1]? = some (.ofGuestTrack 3 (bobs 2)) :=
    eq_of_map_run (f := fun s => ((s.system.phone "ann").audioTracks 0)[1]?) hs (by decide +kernel)
  have hfailed : s.failed = [bobs 1] := eq_of_map_run hs (by decide +kernel)
  have hlist : s.system.list = [bobs 1, bobs 2] :=
    eq_of_map_run (f := fun s => s.system.list) hs (by decide +kernel)
  have hafter : s'.system.list = [] :=
    eq_of_map_run (f := fun s => s.system.list) hs' (by decide +kernel)
  have hkept := hright _ hrow (bobs 1) (by simp [hfailed]) (by decide) (bobs 1) (by simp [hlist])
    ⟨rfl, rfl⟩
  rw [hafter] at hkept
  exact List.not_mem_nil hkept

end Tootti.DeletionFailure
