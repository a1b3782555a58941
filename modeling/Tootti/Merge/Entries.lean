import Tootti.Storage.Tracks

/-!
What a deletion from the Merge screen leaves of the list of tracks.

A single client keeps to one session whose document may have tracks of others.
Its Session objects have the list as it was when each was read, and what was
uploaded since stands behind that. A deletion sends the cached Session's list
without the entries equal to the one the row would have. So it takes away what
was uploaded since, and it finds nothing to take out for a row that shows the
local recording and not the entry.
-/

namespace Tootti.EntryDeletion

open Machine TrackStorage

variable {α : Type}

/-- Two entries of one track: its file has one place in storage. -/
def SameTrack (row e : GuestTrack) : Prop := e.uid = row.uid ∧ e.audioName = row.audioName

instance (row e : GuestTrack) : Decidable (SameTrack row e) := inferInstanceAs (Decidable (_ ∧ _))

theorem SameTrack.symm {row e : GuestTrack} (h : SameTrack row e) : SameTrack e row :=
  ⟨h.1.symm, h.2.symm⟩

/-- A session with any document and any files, before the client opens it. -/
def start (name : String → String) (d : SessionDocument) (object : String → Option α) : System α :=
  { System.initial name d with document := d, object }

/-- What the client does before the deletion. -/
def Builds (c : String) : Event α → Prop
  | .joinSession c' | .viewDidLoad c' _ | .viewWillAppear c' _ | .refresh c' _ | .snapshot c' _
  | .confirmTracks c' _ _ | .uploadAudioSound c' _ _ => c' = c
  | .clickTrackRef _ => True
  | .deleteRow _ _ _ => False

/-- The list of the Session that screen `k` has cached. -/
def cachedList (p : Phone) (k : Nat) : List GuestTrack :=
  ((p.cachedSession k).map Session.guestPlayerList).getD []

/-- Every other track of the document is in the cached list, and what the
cached list has of the row's track is the row's own entry. -/
structure UpToDate (l cached : List GuestTrack) (row : GuestTrack) : Prop where
  others : ∀ e ∈ l, ¬ SameTrack row e → e ∈ cached
  own : ∀ e ∈ cached, SameTrack row e → e = row

/-- Each Session object has a beginning of the document's list. -/
def Behind (c : String) (s : System α) : Prop :=
  ∀ session ∈ (s.phone c).sessions, session.guestPlayerList <+: s.list

/-! ### The cached lists -/

section Steps

variable {sid c : String} {s s' : System α} {e : Event α}

theorem prefix_arrayUnion (l : List GuestTrack) (e : GuestTrack) : l <+: arrayUnion l e := by
  rw [arrayUnion]
  split
  · exact List.prefix_refl l
  · exact List.prefix_append l [e]

theorem behind_step (h : Behind c s) (hbuilds : Builds c e) (hstep : step sid s e = some s') :
    Behind c s' := by
  cases e with
  | deleteRow => exact absurd hbuilds id
  | clickTrackRef url =>
      obtain rfl := Option.some.inj hstep
      exact h
  | uploadAudioSound c' track content =>
      obtain rfl := Option.some.inj hstep
      exact fun session hsession => (h session hsession).trans (prefix_arrayUnion _ _)
  | viewDidLoad c' | viewWillAppear c' | confirmTracks c' =>
      obtain rfl : c' = c := hbuilds
      obtain rfl := Option.some.inj hstep
      intro session hsession
      simp only [System.onPhone, Function.update_self] at hsession
      exact h session hsession
  | joinSession c' | refresh c' =>
      obtain rfl : c' = c := hbuilds
      obtain rfl := Option.some.inj hstep
      intro session hsession
      simp only [System.onPhone, Function.update_self] at hsession
      rcases List.mem_append.mp hsession with hsession | hsession
      · exact h session hsession
      · rw [List.mem_singleton.mp hsession]
        exact List.prefix_refl _
  | snapshot c' k =>
      obtain rfl : c' = c := hbuilds
      obtain rfl := Option.some.inj hstep
      intro session hsession
      simp only [System.onPhone, Function.update_self] at hsession
      exact Phone.forall_mem_snapshot (fun _ hold => hold) (fun _ _ _ _ => List.prefix_refl _) h
        session hsession

end Steps

/-- What is sent is the document's list without the row's track exactly if
the cached list is up to date. -/
theorem removeObject_eq_iff {l cached : List GuestTrack} {row : GuestTrack}
    (hbegins : cached <+: l) (hnames : (l.map GuestTrack.audioName).Nodup) :
    removeObject cached row = l.filter (fun e => ¬ SameTrack row e) ↔ UpToDate l cached row := by
  have hself : SameTrack row row := ⟨rfl, rfl⟩
  constructor
  · intro heq
    refine ⟨fun e he hother => ?_, fun e he hsame => ?_⟩
    · have hmem : e ∈ removeObject cached row := by
        rw [heq]
        exact List.mem_filter.mpr ⟨he, decide_eq_true hother⟩
      exact (mem_removeObject.mp hmem).1
    · by_contra hne
      have hmem : e ∈ l.filter fun e => ¬ SameTrack row e := heq ▸ mem_removeObject.mpr ⟨he, hne⟩
      exact of_decide_eq_true (List.mem_filter.mp hmem).2 hsame
  · rintro ⟨hothers, hown⟩
    obtain ⟨rest, rfl⟩ := hbegins
    have hnodup : (cached ++ rest).Nodup := hnames.of_map
    -- what came later is the row's track
    have hrest : rest.filter (fun e => ¬ SameTrack row e) = [] := by
      refine List.filter_eq_nil_iff.mpr fun e he hother => ?_
      have hcached := hothers e (List.mem_append_right _ he) (of_decide_eq_true hother)
      exact (List.disjoint_of_nodup_append hnodup) hcached he
    rw [List.filter_append, hrest, List.append_nil, removeObject]
    refine List.filter_congr fun e he => ?_
    by_cases hsame : SameTrack row e
    · simp [hown e he hsame, hself]
    · have hne : e ≠ row := fun heq => hsame (heq ▸ hself)
      simp [hsame, hne]

theorem list_deleteRow {sid c : String} {k i : Nat} {s s' : System α} {track : Audio}
    (hrow : ((s.phone c).audioTracks k)[i]? = some track)
    (hstep : step sid s (.deleteRow c k i) = some s') :
    s'.list = removeObject (cachedList (s.phone c) k) track.playerDict := by
  simp only [step, Option.bind_eq_bind, Option.bind_eq_some_iff] at hstep
  obtain ⟨⟨d, p⟩, hcommit, -, -, p', -, hs'⟩ := hstep
  obtain ⟨track', session, hrow', hsession, rfl, -⟩ := Phone.commitEditing_spec hcommit
  obtain rfl := Option.some.inj (hrow.symm.trans hrow')
  obtain rfl := Option.some.inj hs'
  rw [cachedList, hsession]
  rfl

/-- After every run of the client and for every row, a successful deletion
leaves the document's list without the row's track, and otherwise as it was,
exactly if the cached list is up to date. -/
theorem entry_deleted_exactly_iff {sid c : String} {name : String → String} {d : SessionDocument}
    {object : String → Option α} {es : List (Event α)} {s s' : System α} {k i : Nat} {track : Audio}
    (hbuilds : ∀ e ∈ es, Builds c e) (hrun : run (step sid) (start name d object) es = some s)
    (hnames : (s.list.map GuestTrack.audioName).Nodup)
    (hrow : ((s.phone c).audioTracks k)[i]? = some track)
    (hstep : step sid s (.deleteRow c k i) = some s') :
    s'.list = s.list.filter (fun e => ¬ SameTrack track.playerDict e) ↔
      UpToDate s.list (cachedList (s.phone c) k) track.playerDict := by
  have hkeep : ∀ m e m', e ∈ es → Behind c m → step sid m e = some m' → Behind c m' :=
    fun m e m' he hm hstep => behind_step hm (hbuilds e he) hstep
  have hstart : Behind c (start name d object) := fun _ h => absurd h List.not_mem_nil
  have hbehind : Behind c s := run_invariant_of_mem hkeep hrun hstart
  rw [list_deleteRow hrow hstep]
  refine removeObject_eq_iff ?_ hnames
  rw [cachedList]
  cases hsession : (s.phone c).cachedSession k with
  | none => exact List.nil_prefix
  | some session =>
      obtain ⟨x, -, hobject⟩ := Option.bind_eq_some_iff.mp hsession
      exact hbehind session (Heap.mem_of_object? hobject)

def song (l : List GuestTrack) : SessionDocument :=
  ⟨"song", "host", l, .empty, [], .empty, false, []⟩

def bobs (n : Nat) : GuestTrack := ⟨toString n, "bob", "bob", some (.download (toString n))⟩

/-- A user refreshes and deletes the first of two rows. -/
theorem entry_deleted_after_refresh :
    ∃ s s' : System Nat,
      run (step "s") (start id (song [bobs 1, bobs 2]) fun _ => some 7)
        [.joinSession "ann", .viewDidLoad "ann" .merge, .refresh "ann" 0] = some s ∧
      step "s" s (.deleteRow "ann" 0 0) = some s' ∧
      s'.list = s.list.filter fun e => ¬ SameTrack (bobs 1) e := by
  let es : List (Event Nat) :=
    [.joinSession "ann", .viewDidLoad "ann" .merge, .refresh "ann" 0]
  have hsome : (run (step "s") (start id (song [bobs 1, bobs 2]) fun _ => some 7)
      (es ++ [.deleteRow "ann" 0 0])).isSome := by decide +kernel
  obtain ⟨s, s', hs, hstep, -⟩ := exists_of_run_concat hsome
  have hbuilds : ∀ e ∈ es, Builds "ann" e := by simp [es, Builds]
  have hlist : s.list = [bobs 1, bobs 2] := eq_of_map_run hs (by decide +kernel)
  have hcached : cachedList (s.phone "ann") 0 = [bobs 1, bobs 2] :=
    eq_of_map_run (f := fun s => cachedList (s.phone "ann") 0) hs (by decide +kernel)
  have hrow : ((s.phone "ann").audioTracks 0)[0]? = some (.ofGuestTrack 2 (bobs 1)) :=
    eq_of_map_run (f := fun s => ((s.phone "ann").audioTracks 0)[0]?) hs (by decide +kernel)
  have hnames : (s.list.map GuestTrack.audioName).Nodup := by
    rw [hlist]
    decide
  have hfresh : UpToDate s.list (cachedList (s.phone "ann") 0) (bobs 1) := by
    rw [hlist, hcached]
    exact ⟨by decide, by decide⟩
  exact ⟨s, s', hs, hstep, (entry_deleted_exactly_iff hbuilds hs hnames hrow hstep).mpr hfresh⟩

/-- A user confirms and uploads two takes and deletes the first: the cached
list is that of the join, and the list that is sent has neither. -/
theorem other_entry_deleted :
    ¬ ∀ (sid c : String) (name : String → String) (d : SessionDocument)
      (object : String → Option Nat) (es : List (Event Nat)) (s s' : System Nat) (k i : Nat)
      (track : Audio), (∀ e ∈ es, Builds c e) → run (step sid) (start name d object) es = some s →
      (s.list.map GuestTrack.audioName).Nodup → ((s.phone c).audioTracks k)[i]? = some track →
      step sid s (.deleteRow c k i) = some s' →
      s'.list = s.list.filter fun e => ¬ SameTrack track.playerDict e := by
  intro h
  let take (n : Nat) : Audio := ⟨toString n, "ann", "ann", some (.document (toString n)), n⟩
  let entry (n : Nat) : GuestTrack := (take n).uploadEntry "ann" "s" "ann"
  let es : List (Event Nat) :=
    [.joinSession "ann", .viewDidLoad "ann" .merge, .confirmTracks "ann" 0 [take 1, take 2],
      .uploadAudioSound "ann" (take 1) 7, .uploadAudioSound "ann" (take 2) 8]
  have hsome : (run (step "s") (start id (song []) fun _ => none)
      (es ++ [.deleteRow "ann" 0 0])).isSome := by decide +kernel
  obtain ⟨s, s', hs, hstep, hs'⟩ := exists_of_run_concat hsome
  have hbuilds : ∀ e ∈ es, Builds "ann" e := by simp [es, Builds]
  have hlist : s.list = [entry 1, entry 2] := eq_of_map_run hs (by decide +kernel)
  have hafter : s'.list = [] := eq_of_map_run hs' (by decide +kernel)
  have hrow : ((s.phone "ann").audioTracks 0)[0]? = some (take 1) :=
    eq_of_map_run (f := fun s => ((s.phone "ann").audioTracks 0)[0]?) hs (by decide +kernel)
  have hnames : (s.list.map GuestTrack.audioName).Nodup := by
    rw [hlist]
    decide
  have hexact := h "s" "ann" id (song []) _ es s s' 0 0 (take 1) hbuilds hs hnames hrow hstep
  rw [hlist, hafter] at hexact
  exact absurd hexact (by decide +kernel)

end Tootti.EntryDeletion
