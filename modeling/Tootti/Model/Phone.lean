import Tootti.Machine.Keyed
import Tootti.Model.Session

/-!
The Session objects of one phone.

`ApplicationState` holds a reference to the current Session, and every screen
of the tab bar keeps its own, read when the screen loads or appears. All
Session objects of this model belong to one session document.
-/

namespace Tootti

open Machine

/-- The screens that use their cached Session for more than its uid. -/
inductive Tab
  | clickTrack
  | recording
  | merge
  deriving DecidableEq, Repr

structure Screen where
  tab : Tab
  cached : Option Nat
  audioTracks : List Audio
  selectedTracks : List Audio
  deriving DecidableEq, Repr

structure Phone where
  user : User
  sessions : Heap
  currentSession : Option Nat
  /-- The screens pushed so far; they stay on the navigation stack. -/
  screens : List Screen
  nextPlayer : Nat
  deriving DecidableEq, Repr

/-- A row's deletion on its way to the server: the entry it is about, and the
list of the cached Session it is taken out of. -/
structure Deletion where
  row : GuestTrack
  base : List GuestTrack
  deriving DecidableEq, Repr

/-- The `guestPlayerList` that `commitEditingStyle` sends. -/
def Deletion.list (d : Deletion) : List GuestTrack := removeObject d.base d.row

namespace Phone

def initial (user : User) : Phone := ⟨user, [], none, [], 0⟩

def session? (p : Phone) (r : Option Nat) : Option Session := p.sessions.object? r

def modifySession (p : Phone) (r : Option Nat) (f : Session → Session) : Phone :=
  { p with sessions := p.sessions.modifyObject r f }

def modifyScreen (p : Phone) (k : Nat) (f : Screen → Screen) : Phone :=
  { p with screens := p.screens.modify k f }

/-- What the query callback of a join does to the phone. -/
def joinSession (uid : String) (d : SessionDocument) (p : Phone) : Phone :=
  let cpl := Roster.join p.user.username p.user.uid d.currentPlayerList
  { p with
    sessions := p.sessions ++ [d.joined uid p.user p.nextPlayer cpl]
    currentSession := some p.sessions.length
    nextPlayer := p.nextPlayer + 2 }

def viewDidLoad (tab : Tab) (p : Phone) : Phone :=
  { p with screens := p.screens ++ [⟨tab, p.currentSession, [], []⟩] }

/-- `viewWillAppear:`, which calls `setupSessionStatus`. -/
def viewWillAppear (k : Nat) (p : Phone) : Phone :=
  p.modifyScreen k fun x => { x with cached := p.currentSession }

/-- The click-track part of a snapshot listener. -/
def updateClickTrack (r : Option Nat) (performer : Session → String × String)
    (d : SessionDocument) (p : Phone) : Phone :=
  if d.newClickTrack (p.session? r) then
    { p.modifySession r fun s => s.followClickTrack d (performer s) p.nextPlayer with
      currentSession := r
      nextPlayer := p.nextPlayer + 1 }
  else p

/-- A snapshot reaches the listener of screen `k`. What the recording screen
does about `hostStartRecording` changes no Session object; where it brings its
tab up, `viewWillAppear` comes first. -/
def snapshot (k : Nat) (d : SessionDocument) (p : Phone) : Phone :=
  match p.screens[k]? with
  | none => p
  | some x =>
      match x.tab with
      | .merge => p
      | .clickTrack => p.updateClickTrack x.cached (fun _ => (p.user.uid, p.user.username)) d
      | .recording =>
          (p.modifySession x.cached fun s =>
            { s with currentPlayerList := d.currentPlayerList }).updateClickTrack x.cached
              (fun s => (s.hostUid, "ClickTrack")) d

/-- `refresh:` of the Merge screen, up to its query. -/
def refresh (k : Nat) (p : Phone) : Phone :=
  p.modifyScreen k fun x => { x with audioTracks := [], selectedTracks := [] }

/-- The Session object the callback of `refresh:` builds. No document has a
field `clickTrack` or `finalMergedResult`, and the object passed as the flag
is not nil. -/
def refreshedSession (uid : String) (d : SessionDocument) : Session where
  uid := uid
  sessionName := d.sessionName
  hostUid := d.hostUid
  guestPlayerList := d.guestPlayerList
  clickTrack := none
  recordedAudioDict := d.recordedAudioDict
  finalMergedResult := none
  hostStartRecording := true
  currentPlayerList := d.currentPlayerList

def rows (player : Nat) (l : List GuestTrack) : List Audio :=
  l.zipIdx.map fun (e, i) => .ofGuestTrack (player + i) e

def finishRefresh (k : Nat) (uid : String) (d : SessionDocument) (p : Phone) : Phone :=
  { p with
    sessions := p.sessions ++ [refreshedSession uid d]
    currentSession := some p.sessions.length
    screens := p.screens.modify k fun x =>
      { x with
        cached := some p.sessions.length
        audioTracks := x.audioTracks ++ rows p.nextPlayer d.guestPlayerList }
    nextPlayer := p.nextPlayer + d.guestPlayerList.length }

/-- `commitEditingStyle` on row `i`, up to the deletion it requests. Without
a cached Session the document's path is nil, which raises. -/
def commitEditing (k i : Nat) (p : Phone) : Option (Deletion × Phone) := do
  let x ← p.screens[k]?
  let trackToDelete ← x.audioTracks[i]?
  let s ← p.session? x.cached
  let d : Deletion := ⟨trackToDelete.playerDict, s.guestPlayerList⟩
  let p := p.modifyScreen k fun x =>
    { x with selectedTracks := removeObject x.selectedTracks trackToDelete }
  some (d, { p.modifySession x.cached fun s => { s with guestPlayerList := d.list } with
    currentSession := x.cached })

/-- The completion block of a deletion: `removeObjectAtIndex:` raises when
the rows have become fewer. -/
def removeRow (k i : Nat) (p : Phone) : Option Phone := do
  let x ← p.screens[k]?
  if i < x.audioTracks.length then
    some (p.modifyScreen k fun x => { x with audioTracks := x.audioTracks.eraseIdx i })
  else none

/-- What the Library's `confirmTracks:` does to the Merge screen, before it
uploads the selected recordings one by one. -/
def confirmTracks (k : Nat) (selectedRecordings : List Audio) (p : Phone) : Phone :=
  p.modifyScreen k fun x => { x with audioTracks := selectedRecordings }

/-! ### What a screen shows -/

/-- The rows of screen `k`. -/
def audioTracks (p : Phone) (k : Nat) : List Audio :=
  (p.screens[k]?.map Screen.audioTracks).getD []

def selectedTracks (p : Phone) (k : Nat) : List Audio :=
  (p.screens[k]?.map Screen.selectedTracks).getD []

def cachedSession (p : Phone) (k : Nat) : Option Session :=
  p.screens[k]?.bind fun x => p.session? x.cached

/-- `didSelectRowAtIndexPath:` of the Merge screen; an index past the rows
raises. -/
def didSelectRow (k row : Nat) (p : Phone) : Option Phone :=
  (p.audioTracks k)[row]?.map fun track =>
    p.modifyScreen k fun x => { x with selectedTracks := x.selectedTracks ++ [track] }

def didDeselectRow (k row : Nat) (p : Phone) : Option Phone :=
  (p.audioTracks k)[row]?.map fun track =>
    p.modifyScreen k fun x => { x with selectedTracks := removeObject x.selectedTracks track }

section Shows

variable {k row : Nat} {p p' : Phone}

theorem audioTracks_modifyScreen (f : Screen → Screen) :
    (p.modifyScreen k f).audioTracks k =
      (p.screens[k]?.map fun x => (f x).audioTracks).getD [] := by
  simp only [audioTracks, modifyScreen, List.getElem?_modify]
  cases p.screens[k]? <;> simp

@[simp] theorem audioTracks_refresh : (p.refresh k).audioTracks k = [] := by
  rw [refresh, audioTracks_modifyScreen]
  cases p.screens[k]? <;> rfl

theorem audioTracks_finishRefresh (sid : String) (d : SessionDocument) :
    ∃ new, List.Sublist new (rows p.nextPlayer d.guestPlayerList) ∧
      (p.finishRefresh k sid d).audioTracks k = p.audioTracks k ++ new := by
  cases hx : p.screens[k]? with
  | none => exact ⟨[], List.nil_sublist _, by simp [audioTracks, finishRefresh, hx]⟩
  | some x => exact ⟨_, List.Sublist.refl _, by simp [audioTracks, finishRefresh, hx]⟩

theorem commitEditing_eq_some {d : Deletion} (h : p.commitEditing k row = some (d, p')) :
    ∃ x track session, p.screens[k]? = some x ∧ x.audioTracks[row]? = some track ∧
      p.session? x.cached = some session ∧ d = ⟨track.playerDict, session.guestPlayerList⟩ ∧
      p' = { (p.modifyScreen k fun x =>
          { x with selectedTracks := removeObject x.selectedTracks track }).modifySession x.cached
            fun s => { s with guestPlayerList := d.list } with
        currentSession := x.cached } := by
  simp only [commitEditing, Option.bind_eq_bind, Option.bind_eq_some_iff, Option.some.injEq,
    Prod.mk.injEq] at h
  obtain ⟨x, hx, track, htrack, session, hsession, rfl, rfl⟩ := h
  exact ⟨x, track, session, hx, htrack, hsession, rfl, rfl⟩

/-- What a swipe changes on the screen, and the deletion it requests. -/
theorem commitEditing_spec {d : Deletion} (h : p.commitEditing k row = some (d, p')) :
    ∃ track session, (p.audioTracks k)[row]? = some track ∧ p.cachedSession k = some session ∧
      d = ⟨track.playerDict, session.guestPlayerList⟩ ∧
      p'.audioTracks k = p.audioTracks k ∧
      p'.selectedTracks k = removeObject (p.selectedTracks k) track ∧
      p'.cachedSession k = some { session with guestPlayerList := d.list } ∧
      p'.nextPlayer = p.nextPlayer := by
  obtain ⟨x, track, session, hx, htrack, hsession, rfl, rfl⟩ := commitEditing_eq_some h
  refine ⟨track, session, by simpa [audioTracks, hx] using htrack, ?_, rfl, ?_, ?_, ?_, rfl⟩
  · simpa [cachedSession, hx] using hsession
  · simp [audioTracks, modifySession, modifyScreen, hx]
  · simp [selectedTracks, modifySession, modifyScreen, hx]
  · have hobject : p.sessions.object? x.cached = some session := hsession
    simp [cachedSession, modifySession, modifyScreen, session?, hx, Heap.object?_modifyObject,
      hobject]

theorem removeRow_eq_none : p.removeRow k row = none ↔ (p.audioTracks k).length ≤ row := by
  cases hx : p.screens[k]? with
  | none => simp [removeRow, audioTracks, hx]
  | some x => simp [removeRow, audioTracks, hx]

theorem removeRow_eq_some (h : p.removeRow k row = some p') :
    row < (p.audioTracks k).length ∧
      p' = p.modifyScreen k fun x => { x with audioTracks := x.audioTracks.eraseIdx row } := by
  simp only [removeRow, Option.bind_eq_bind, Option.bind_eq_some_iff] at h
  obtain ⟨x, hx, hsome⟩ := h
  split at hsome <;> simp only [Option.some.injEq, reduceCtorEq] at hsome
  rename_i hrow
  exact ⟨by simpa [audioTracks, hx] using hrow, hsome.symm⟩

theorem removeRow_spec (h : p.removeRow k row = some p') :
    row < (p.audioTracks k).length ∧ p'.audioTracks k = (p.audioTracks k).eraseIdx row ∧
      p'.nextPlayer = p.nextPlayer := by
  obtain ⟨hrow, rfl⟩ := removeRow_eq_some h
  refine ⟨hrow, ?_, rfl⟩
  rw [audioTracks_modifyScreen, audioTracks]
  cases p.screens[k]? <;> rfl

end Shows

section Sessions

variable {p : Phone} {k : Nat} {r : Option Nat} {d : SessionDocument} {Q : Session → Prop}

theorem forall_mem_updateClickTrack {performer : Session → String × String}
    (hfollow : ∀ s performer player, Q s → Q (s.followClickTrack d performer player))
    (h : ∀ session ∈ p.sessions, Q session) :
    ∀ session ∈ (p.updateClickTrack r performer d).sessions, Q session := by
  rw [updateClickTrack]
  split
  · exact Heap.forall_mem_modifyObject (fun s _ hs => hfollow s (performer s) p.nextPlayer hs) h
  · exact h

/-- A snapshot changes Session objects by following its click track and its
list of players. -/
theorem forall_mem_snapshot
    (hroster : ∀ s, Q s → Q { s with currentPlayerList := d.currentPlayerList })
    (hfollow : ∀ s performer player, Q s → Q (s.followClickTrack d performer player))
    (h : ∀ session ∈ p.sessions, Q session) :
    ∀ session ∈ (p.snapshot k d).sessions, Q session := by
  rw [snapshot]
  split
  · exact h
  · split
    · exact h
    · exact forall_mem_updateClickTrack hfollow h
    · refine forall_mem_updateClickTrack hfollow ?_
      exact Heap.forall_mem_modifyObject (fun s _ hs => hroster s hs) h

theorem user_snapshot : (p.snapshot k d).user = p.user := by
  simp only [snapshot, updateClickTrack]
  split
  · rfl
  · split
    · rfl
    · split <;> rfl
    · split <;> rfl

end Sessions

section Rows

variable {player : Nat} {l : List GuestTrack}

theorem map_player_rows : (rows player l).map Audio.player = List.range' player l.length := by
  have hsnd : (l.zipIdx.map fun x => player + x.2) = (l.zipIdx.map Prod.snd).map (player + ·) := by
    rw [List.map_map]
    rfl
  rw [rows, List.map_map]
  refine hsnd.trans ?_
  rw [List.zipIdx_map_snd, List.map_add_range', Nat.add_zero]

theorem length_rows (player : Nat) (l : List GuestTrack) : (rows player l).length = l.length := by
  rw [rows, List.length_map, List.length_zipIdx]

theorem map_player_rows_length (player : Nat) (l : List GuestTrack) :
    (rows player l).map Audio.player = List.range' player (rows player l).length := by
  rw [map_player_rows, length_rows]

theorem player_mem_rows {a : Audio} (h : a ∈ rows player l) :
    player ≤ a.player ∧ a.player < player + l.length := by
  have hmem := List.mem_map_of_mem (f := Audio.player) h
  rw [map_player_rows] at hmem
  simpa using List.mem_range'_1.mp hmem

end Rows

end Phone

end Tootti
