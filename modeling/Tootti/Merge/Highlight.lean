import Tootti.Machine.Run
import Tootti.Machine.Selection
import Tootti.Model.Phone

/-!
The rows that are highlighted, and the tracks that are merged.

The Merge screen and the Library let the user select several rows and keep
their lists of selected tracks in the callbacks for single rows. Reloading a
table clears its highlighting and calls no callback, and the screens reload
their tables each time they appear; the Library's `confirmTracks:` replaces
the rows of the Merge screen without reloading its table.
-/

namespace Tootti.Highlight

open Machine

structure LibraryScreen where
  audioRecordings : List Audio
  selectedRecordings : List Audio
  highlighted : List Nat

namespace LibraryScreen

def didSelectRow (row : Nat) (x : LibraryScreen) : Option LibraryScreen :=
  if row ∈ x.highlighted then none
  else
    x.audioRecordings[row]?.map fun track =>
      { x with
        selectedRecordings := x.selectedRecordings ++ [track]
        highlighted := x.highlighted ++ [row] }

def didDeselectRow (row : Nat) (x : LibraryScreen) : Option LibraryScreen :=
  if row ∈ x.highlighted then
    x.audioRecordings[row]?.map fun track =>
      { x with
        selectedRecordings := removeObject x.selectedRecordings track
        highlighted := removeObject x.highlighted row }
  else none

/-- `commitEditingStyle`, which removes the row at once and reloads. -/
def commitEditing (row : Nat) (x : LibraryScreen) : Option LibraryScreen :=
  x.audioRecordings[row]?.map fun trackToDelete =>
    { audioRecordings := x.audioRecordings.eraseIdx row
      selectedRecordings := removeObject x.selectedRecordings trackToDelete
      highlighted := [] }

def viewWillAppear (x : LibraryScreen) : LibraryScreen := { x with highlighted := [] }

def table (x : LibraryScreen) : Table Audio :=
  ⟨x.audioRecordings, x.selectedRecordings, x.highlighted⟩

end LibraryScreen

structure State where
  phone : Phone
  library : LibraryScreen
  /-- What the Merge screen's table highlights. -/
  highlighted : List Nat
  /-- The queries of `refresh:` that are not answered. -/
  refreshing : Nat
  /-- The alerts that a refresh has found no track. -/
  alerts : Nat
  /-- The rows of the deletions under way. -/
  deletions : List Nat

inductive LibraryEvent
  /-- A take is saved on the recording screen. -/
  | saved (audioName : String) (t : Nat)
  | didSelectRow (row : Nat)
  | didDeselectRow (row : Nat)
  | commitEditing (row : Nat)
  | viewWillAppear

inductive Event
  | didSelectRow (row : Nat)
  | didDeselectRow (row : Nat)
  | commitEditing (row : Nat)
  | deleted (j : Nat)
  | failed (j : Nat)
  | viewWillAppear
  | refresh
  /-- A refresh is answered, with the document if there is one. -/
  | refreshed (d : Option SessionDocument)
  | okTapped
  | confirmTracks
  | library (e : LibraryEvent)

/-- The Merge screen is loaded on phone `p`, and the Library is empty. -/
def initial (p : Phone) : State := ⟨p.viewDidLoad .merge, ⟨[], [], []⟩, [], 0, 0, []⟩

/-- The Audio that `updateLocalRecordingsWith:` is given. -/
def newRecordingAudio (p : Phone) (audioName : String) (t : Nat) : Audio :=
  ⟨audioName, p.user.uid, p.user.username, some (.document (recordingFileName t)), p.nextPlayer⟩

def stepLibrary (s : State) : LibraryEvent → Option State
  | .saved audioName t =>
      let audioRecordings := s.library.audioRecordings ++ [newRecordingAudio s.phone audioName t]
      some { s with
        phone := { s.phone with nextPlayer := s.phone.nextPlayer + 1 }
        library := { s.library with audioRecordings } }
  | .didSelectRow row => (s.library.didSelectRow row).map fun library => { s with library }
  | .didDeselectRow row => (s.library.didDeselectRow row).map fun library => { s with library }
  | .commitEditing row => (s.library.commitEditing row).map fun library => { s with library }
  | .viewWillAppear => some { s with library := s.library.viewWillAppear }

/-- The rounds of the callback of `refresh:` each add a row, and the table is
reloaded in the round that makes the rows as many as the document's entries. -/
def reloads (rows entries : Nat) : Bool :=
  (List.range entries).any fun i => rows + (i + 1) == entries

/-- Screen `k`, of session `sid`. -/
def step (sid : String) (k : Nat) (s : State) : Event → Option State
  | .didSelectRow row =>
      if row ∈ s.highlighted then none
      else
        (s.phone.didSelectRow k row).map fun phone =>
          { s with phone, highlighted := s.highlighted ++ [row] }
  | .didDeselectRow row =>
      if row ∈ s.highlighted then
        (s.phone.didDeselectRow k row).map fun phone =>
          { s with phone, highlighted := removeObject s.highlighted row }
      else none
  | .commitEditing row =>
      (s.phone.commitEditing k row).map fun (_, phone) =>
        { s with phone, deletions := s.deletions ++ [row] }
  | .deleted j => do
      let row ← s.deletions[j]?
      let phone ← s.phone.removeRow k row
      some { s with phone, deletions := s.deletions.eraseIdx j, highlighted := [] }
  | .failed j => s.deletions[j]?.map fun _ => { s with deletions := s.deletions.eraseIdx j }
  | .viewWillAppear => some { s with phone := s.phone.viewWillAppear k, highlighted := [] }
  | .refresh => some { s with phone := s.phone.refresh k, refreshing := s.refreshing + 1 }
  | .refreshed d =>
      if s.refreshing = 0 then none
      else
        match d with
        | none => some { s with refreshing := s.refreshing - 1 }
        | some d =>
            let entries := d.guestPlayerList.length
            some { s with
              phone := s.phone.finishRefresh k sid d
              highlighted :=
                if reloads (s.phone.audioTracks k).length entries then [] else s.highlighted
              refreshing := s.refreshing - 1
              alerts := if entries = 0 then s.alerts + 1 else s.alerts }
  | .okTapped =>
      if s.alerts = 0 then none else some { s with alerts := s.alerts - 1, highlighted := [] }
  | .confirmTracks =>
      some { s with phone := s.phone.confirmTracks k s.library.selectedRecordings }
  | .library e => stepLibrary s e

def merge (k : Nat) (s : State) : Table Audio :=
  ⟨s.phone.audioTracks k, s.phone.selectedTracks k, s.highlighted⟩

/-- Both screens' lists have the tracks of the highlighted rows, each once. -/
def Faithful (k : Nat) (s : State) : Prop := (merge k s).Faithful ∧ s.library.table.Faithful

/-- A table is reloaded only while its screen has nothing selected, a selected
row of the Merge screen is not deleted, and rows that come without a reload
do not change what the highlighted places show. -/
def Careful (k : Nat) (s : State) : Event → Prop
  | .viewWillAppear | .okTapped | .deleted _ => s.phone.selectedTracks k = []
  | .commitEditing row => ∀ track ∈ (s.phone.audioTracks k)[row]?, track ∉ s.phone.selectedTracks k
  | .refreshed (some d) =>
      if (s.phone.audioTracks k).length < d.guestPlayerList.length then
        s.phone.selectedTracks k = []
      else
        ∀ i ∈ s.highlighted, i < (s.phone.audioTracks k).length + d.guestPlayerList.length →
          i < (s.phone.audioTracks k).length
  | .confirmTracks =>
      ∀ track, ((merge k s).replace s.library.selectedRecordings).Highlights track ↔
        (merge k s).Highlights track
  | .library .viewWillAppear => s.library.selectedRecordings = []
  | .library (.commitEditing row) =>
      ∀ trackToDelete ∈ s.library.audioRecordings[row]?, ∀ track ∈ s.library.selectedRecordings,
        track = trackToDelete
  | _ => True

theorem reloads_iff {rows entries : Nat} : reloads rows entries = true ↔ rows < entries := by
  simp only [reloads, List.any_eq_true, List.mem_range, beq_iff_eq]
  constructor
  · rintro ⟨i, hi, hsum⟩
    omega
  · intro hlt
    exact ⟨entries - rows - 1, by omega, by omega⟩

/-! ### What a step does to the tables -/

def LibraryEffect (s : State) (e : LibraryEvent) (s' : State) : Prop :=
  let t := s.library.table
  let t' := s'.library.table
  match e with
  | .saved audioName t₀ => t' = t.replace (t.rows ++ [newRecordingAudio s.phone audioName t₀])
  | .didSelectRow row => row ∉ t.highlighted ∧ ∃ a, t.rows[row]? = some a ∧ t' = t.select row a
  | .didDeselectRow row => ∃ a, t.rows[row]? = some a ∧ t' = t.deselect row a
  | .commitEditing row => ∃ a, t.rows[row]? = some a ∧
      t' = ((t.forget a).replace (t.rows.eraseIdx row)).reload
  | .viewWillAppear => t' = t.reload

def Effect (k : Nat) (s : State) (e : Event) (s' : State) : Prop :=
  let t := merge k s
  let t' := merge k s'
  match e with
  | .didSelectRow row => row ∉ t.highlighted ∧ ∃ a, t.rows[row]? = some a ∧ t' = t.select row a
  | .didDeselectRow row => ∃ a, t.rows[row]? = some a ∧ t' = t.deselect row a
  | .commitEditing row => ∃ a, t.rows[row]? = some a ∧ t' = t.forget a
  | .deleted _ => ∃ row, t' = (t.replace (t.rows.eraseIdx row)).reload
  | .viewWillAppear | .okTapped => t' = t.reload
  | .refresh => t' = ⟨[], [], t.highlighted⟩
  | .refreshed (some d) =>
      let t₁ := t.replace (t.rows ++ Phone.rows s.phone.nextPlayer d.guestPlayerList)
      t' = if t.rows.length < d.guestPlayerList.length then t₁.reload else t₁
  | .confirmTracks => t' = t.replace s.library.table.selected
  | .failed _ | .refreshed none | .library _ => t' = t

/-- How many Audio objects a step makes. -/
def Event.made : Event → Nat
  | .refreshed (some d) => d.guestPlayerList.length
  | .library (.saved _ _) => 1
  | _ => 0

section Steps

variable {sid : String} {k : Nat} {s s' : State} {e : Event}

theorem libraryEffect_step {e : LibraryEvent} (hstep : stepLibrary s e = some s') :
    LibraryEffect s e s' := by
  cases e with
  | saved audioName t =>
      obtain rfl := Option.some.inj hstep
      rfl
  | didSelectRow row =>
      obtain ⟨library, hlibrary, rfl⟩ := Option.map_eq_some_iff.mp hstep
      rw [LibraryScreen.didSelectRow] at hlibrary
      split at hlibrary <;> simp only [Option.map_eq_some_iff, reduceCtorEq] at hlibrary
      rename_i hnew
      obtain ⟨a, ha, rfl⟩ := hlibrary
      exact ⟨hnew, a, ha, rfl⟩
  | didDeselectRow row =>
      obtain ⟨library, hlibrary, rfl⟩ := Option.map_eq_some_iff.mp hstep
      rw [LibraryScreen.didDeselectRow] at hlibrary
      split at hlibrary <;> simp only [Option.map_eq_some_iff, reduceCtorEq] at hlibrary
      obtain ⟨a, ha, rfl⟩ := hlibrary
      exact ⟨a, ha, rfl⟩
  | commitEditing row =>
      obtain ⟨library, hlibrary, rfl⟩ := Option.map_eq_some_iff.mp hstep
      obtain ⟨a, ha, rfl⟩ := Option.map_eq_some_iff.mp hlibrary
      exact ⟨a, ha, rfl⟩
  | viewWillAppear =>
      obtain rfl := Option.some.inj hstep
      rfl

theorem stepLibrary_frame {e : LibraryEvent} (hstep : stepLibrary s e = some s') :
    s'.phone = { s.phone with nextPlayer := s.phone.nextPlayer + (Event.library e).made } ∧
      s'.highlighted = s.highlighted := by
  cases e with
  | saved audioName t | viewWillAppear =>
      obtain rfl := Option.some.inj hstep
      exact ⟨rfl, rfl⟩
  | didSelectRow row | didDeselectRow row | commitEditing row =>
      obtain ⟨library, -, rfl⟩ := Option.map_eq_some_iff.mp hstep
      exact ⟨rfl, rfl⟩

/-- What a function of screen `k` leaves on it. -/
theorem merge_modifyScreen {p : Phone} {x : Screen} (hx : p.screens[k]? = some x)
    (f : Screen → Screen) (hs' : s'.phone = p.modifyScreen k f) :
    merge k s' = ⟨(f x).audioTracks, (f x).selectedTracks, s'.highlighted⟩ := by
  simp [merge, hs', Phone.audioTracks, Phone.selectedTracks, Phone.modifyScreen, hx]

theorem merge_eq {x : Screen} (hx : s.phone.screens[k]? = some x) :
    merge k s = ⟨x.audioTracks, x.selectedTracks, s.highlighted⟩ := by
  simp [merge, Phone.audioTracks, Phone.selectedTracks, hx]

theorem effect_refreshed {x : Screen} (hx : s.phone.screens[k]? = some x)
    {d : Option SessionDocument} (hstep : step sid k s (.refreshed d) = some s') :
    Effect k s (.refreshed d) s' := by
  simp only [step] at hstep
  split at hstep
  · simp at hstep
  · cases d with
    | none =>
        obtain rfl := Option.some.inj hstep
        rfl
    | some d =>
        obtain rfl := Option.some.inj hstep
        have hrows : s.phone.audioTracks k = x.audioTracks := by simp [Phone.audioTracks, hx]
        simp only [Effect, merge_eq hx, hrows, reloads_iff]
        split <;> simp [merge, Phone.audioTracks, Phone.selectedTracks, Phone.finishRefresh, hx,
          Table.reload, Table.replace]

theorem effect_step (hscreen : k < s.phone.screens.length) (hstep : step sid k s e = some s') :
    Effect k s e s' := by
  obtain ⟨x, hx⟩ : ∃ x, s.phone.screens[k]? = some x := ⟨_, List.getElem?_eq_getElem hscreen⟩
  cases e with
  | didSelectRow row =>
      rw [step] at hstep
      split at hstep <;> simp only [Option.map_eq_some_iff, reduceCtorEq] at hstep
      rename_i hnew
      obtain ⟨phone, hphone, rfl⟩ := hstep
      obtain ⟨a, ha, rfl⟩ := Option.map_eq_some_iff.mp hphone
      refine ⟨hnew, a, ha, ?_⟩
      rw [merge_modifyScreen hx _ rfl, merge_eq hx]
      rfl
  | didDeselectRow row =>
      rw [step] at hstep
      split at hstep <;> simp only [Option.map_eq_some_iff, reduceCtorEq] at hstep
      obtain ⟨phone, hphone, rfl⟩ := hstep
      obtain ⟨a, ha, rfl⟩ := Option.map_eq_some_iff.mp hphone
      refine ⟨a, ha, ?_⟩
      rw [merge_modifyScreen hx _ rfl, merge_eq hx]
      rfl
  | commitEditing row =>
      obtain ⟨⟨d, phone⟩, hphone, rfl⟩ := Option.map_eq_some_iff.mp hstep
      obtain ⟨a, -, ha, -, -, haudio, hselected, -⟩ := Phone.commitEditing_spec hphone
      refine ⟨a, ha, ?_⟩
      simp only [merge, haudio, hselected]
      rfl
  | deleted j =>
      simp only [step, Option.bind_eq_bind, Option.bind_eq_some_iff, Option.some.injEq] at hstep
      obtain ⟨row, -, phone, hphone, rfl⟩ := hstep
      refine ⟨row, ?_⟩
      rw [merge_modifyScreen hx _ (Phone.removeRow_eq_some hphone).2, merge_eq hx]
      rfl
  | failed j =>
      obtain ⟨row, -, rfl⟩ := Option.map_eq_some_iff.mp hstep
      rfl
  | viewWillAppear =>
      obtain rfl := Option.some.inj hstep
      show merge k _ = _
      rw [merge_modifyScreen hx _ rfl, merge_eq hx]
      rfl
  | refresh =>
      obtain rfl := Option.some.inj hstep
      show merge k _ = _
      rw [merge_modifyScreen hx _ rfl, merge_eq hx]
  | refreshed d => exact effect_refreshed hx hstep
  | okTapped =>
      rw [step] at hstep
      split at hstep <;> simp only [Option.some.injEq, reduceCtorEq] at hstep
      subst s'
      rfl
  | confirmTracks =>
      obtain rfl := Option.some.inj hstep
      show merge k _ = _
      rw [merge_modifyScreen hx _ rfl, merge_eq hx]
      rfl
  | library e =>
      obtain ⟨hphone, hhighlighted⟩ := stepLibrary_frame hstep
      simp only [Effect, merge, hphone, hhighlighted]
      rfl

theorem step_frame (hstep : step sid k s e = some s') :
    s'.phone.nextPlayer = s.phone.nextPlayer + e.made ∧
      s'.phone.screens.length = s.phone.screens.length ∧
        (s'.library = s.library ∨ ∃ e', e = .library e') := by
  cases e with
  | didSelectRow row | didDeselectRow row =>
      simp only [step] at hstep
      split at hstep <;> simp only [Option.map_eq_some_iff, reduceCtorEq] at hstep
      obtain ⟨phone, hphone, rfl⟩ := hstep
      obtain ⟨a, -, rfl⟩ := Option.map_eq_some_iff.mp hphone
      exact ⟨rfl, List.length_modify _ _ _, Or.inl rfl⟩
  | commitEditing row =>
      obtain ⟨⟨d, phone⟩, hphone, rfl⟩ := Option.map_eq_some_iff.mp hstep
      obtain ⟨x, track, session, -, -, -, -, rfl⟩ := Phone.commitEditing_eq_some hphone
      exact ⟨rfl, List.length_modify _ _ _, Or.inl rfl⟩
  | deleted j =>
      simp only [step, Option.bind_eq_bind, Option.bind_eq_some_iff, Option.some.injEq] at hstep
      obtain ⟨row, -, phone, hphone, rfl⟩ := hstep
      obtain ⟨-, rfl⟩ := Phone.removeRow_eq_some hphone
      exact ⟨rfl, List.length_modify _ _ _, Or.inl rfl⟩
  | failed j =>
      obtain ⟨row, -, rfl⟩ := Option.map_eq_some_iff.mp hstep
      exact ⟨rfl, rfl, Or.inl rfl⟩
  | viewWillAppear | refresh | confirmTracks =>
      obtain rfl := Option.some.inj hstep
      exact ⟨rfl, List.length_modify _ _ _, Or.inl rfl⟩
  | refreshed d =>
      simp only [step] at hstep
      split at hstep
      · simp at hstep
      · cases d with
        | none =>
            obtain rfl := Option.some.inj hstep
            exact ⟨rfl, rfl, Or.inl rfl⟩
        | some d =>
            obtain rfl := Option.some.inj hstep
            exact ⟨rfl, List.length_modify _ _ _, Or.inl rfl⟩
  | okTapped =>
      simp only [step] at hstep
      split at hstep <;> simp only [Option.some.injEq, reduceCtorEq] at hstep
      subst s'
      exact ⟨rfl, rfl, Or.inl rfl⟩
  | library e =>
      obtain ⟨hphone, -⟩ := stepLibrary_frame hstep
      rw [hphone]
      exact ⟨rfl, rfl, Or.inr ⟨e, rfl⟩⟩

/-! ### Rows are distinct -/

/-- The rows are different objects, all made before number `n`. -/
structure Fresh (n : Nat) (t : Table Audio) : Prop where
  nodup : t.rows.Nodup
  used : ∀ a ∈ t.rows, a.player < n

theorem Fresh.of_sublist {n m : Nat} {t t' : Table Audio} (h : Fresh n t) (hle : n ≤ m)
    (hrows : List.Sublist t'.rows t.rows) : Fresh m t' :=
  ⟨h.nodup.sublist hrows, fun a ha => Nat.lt_of_lt_of_le (h.used a (hrows.subset ha)) hle⟩

theorem Fresh.append {n : Nat} {t t' : Table Audio} {new : List Audio} (h : Fresh n t)
    (hrows : t'.rows = t.rows ++ new) (hnew : new.map Audio.player = List.range' n new.length) :
    Fresh (n + new.length) t' ∧ ∀ a ∈ new, a ∉ t.rows := by
  have hplayer : ∀ a ∈ new, n ≤ a.player ∧ a.player < n + new.length := by
    intro a ha
    have hmem := List.mem_map_of_mem (f := Audio.player) ha
    rw [hnew] at hmem
    exact List.mem_range'_1.mp hmem
  have hother : ∀ a ∈ new, a ∉ t.rows := fun a ha hold =>
    Nat.not_lt.mpr (hplayer a ha).1 (h.used a hold)
  have hnodup : new.Nodup := by
    refine List.Nodup.of_map Audio.player ?_
    rw [hnew]
    exact List.nodup_range'
  refine ⟨⟨?_, fun a ha => ?_⟩, hother⟩
  · rw [hrows]
    exact h.nodup.append hnodup (List.disjoint_left.mpr fun a ha hnew => hother a hnew ha)
  · rw [hrows] at ha
    rcases List.mem_append.mp ha with ha | ha
    · exact Nat.lt_add_right _ (h.used a ha)
    · exact (hplayer a ha).2

structure Distinct (k : Nat) (s : State) : Prop where
  screen : k < s.phone.screens.length
  merge : Fresh s.phone.nextPlayer (merge k s)
  library : Fresh s.phone.nextPlayer s.library.table
  places : ∀ i ∈ s.library.highlighted, i < s.library.audioRecordings.length

theorem fresh_merge_step (h : Distinct k s) (hs : Faithful k s)
    (hstep : step sid k s e = some s') : Fresh s'.phone.nextPlayer (merge k s') := by
  have heffect := effect_step h.screen hstep
  obtain ⟨hplayer, -, -⟩ := step_frame hstep
  have hle : s.phone.nextPlayer ≤ s'.phone.nextPlayer := hplayer ▸ Nat.le_add_right _ _
  have hkeep : ∀ t' : Table Audio, merge k s' = t' → List.Sublist t'.rows (merge k s).rows →
      Fresh s'.phone.nextPlayer (merge k s') :=
    fun t' ht' hrows => h.merge.of_sublist hle (ht' ▸ hrows)
  match e, heffect with
  | .didSelectRow _, ⟨_, _, _, heq⟩ => exact hkeep _ heq (List.Sublist.refl _)
  | .didDeselectRow _, ⟨_, _, heq⟩ => exact hkeep _ heq (List.Sublist.refl _)
  | .commitEditing _, ⟨_, _, heq⟩ => exact hkeep _ heq (List.Sublist.refl _)
  | .deleted _, ⟨_, heq⟩ => exact hkeep _ heq (List.eraseIdx_sublist _ _)
  | .failed _, heq => exact hkeep _ heq (List.Sublist.refl _)
  | .viewWillAppear, heq => exact hkeep _ heq (List.Sublist.refl _)
  | .okTapped, heq => exact hkeep _ heq (List.Sublist.refl _)
  | .refresh, heq => exact hkeep _ heq (List.nil_sublist _)
  | .refreshed none, heq => exact hkeep _ heq (List.Sublist.refl _)
  | .library _, heq => exact hkeep _ heq (List.Sublist.refl _)
  | .confirmTracks, heq =>
      -- what the Library has selected are some of its rows
      refine ⟨?_, fun a ha => ?_⟩
      · rw [show merge k s' = _ from heq]
        exact hs.2.once
      · rw [show merge k s' = _ from heq] at ha
        exact Nat.lt_of_lt_of_le (h.library.used a (hs.2.mem_rows ha)) hle
  | .refreshed (some d), heq =>
      have hrows : (merge k s').rows =
          (merge k s).rows ++ Phone.rows s.phone.nextPlayer d.guestPlayerList := by
        rw [show merge k s' = _ from heq]
        split <;> rfl
      rw [hplayer, Event.made, ← Phone.length_rows s.phone.nextPlayer]
      exact (h.merge.append hrows (Phone.map_player_rows_length _ _)).1

theorem library_stepLibrary (h : Distinct k s) {e : LibraryEvent}
    (hstep : stepLibrary s e = some s') : Fresh s'.phone.nextPlayer s'.library.table ∧
      ∀ i ∈ s'.library.highlighted, i < s'.library.audioRecordings.length := by
  have heffect := libraryEffect_step hstep
  obtain ⟨hphone, -⟩ := stepLibrary_frame hstep
  have hplayer : s'.phone.nextPlayer = s.phone.nextPlayer + (Event.library e).made := by rw [hphone]
  have hle : s.phone.nextPlayer ≤ s'.phone.nextPlayer := hplayer ▸ Nat.le_add_right _ _
  have hkeep : ∀ t' : Table Audio, s'.library.table = t' →
      List.Sublist t'.rows s.library.table.rows → (∀ i ∈ t'.highlighted, i < t'.rows.length) →
      Fresh s'.phone.nextPlayer s'.library.table ∧
        ∀ i ∈ s'.library.table.highlighted, i < s'.library.table.rows.length := by
    rintro t' rfl hrows hplaces
    exact ⟨h.library.of_sublist hle hrows, hplaces⟩
  match e, heffect with
  | .saved audioName t, heq =>
      have hrows : s'.library.table.rows =
          s.library.table.rows ++ [newRecordingAudio s.phone audioName t] := by
        rw [heq]
        rfl
      have happend := h.library.append hrows rfl
      have hhighlighted : s'.library.table.highlighted = s.library.table.highlighted := by
        rw [heq]
        rfl
      refine ⟨hplayer ▸ happend.1, fun i (hi : i ∈ s'.library.table.highlighted) => ?_⟩
      show i < s'.library.table.rows.length
      rw [hhighlighted] at hi
      rw [hrows, List.length_append]
      exact Nat.lt_add_right _ (h.places i hi)
  | .didSelectRow row, ⟨_, a, ha, heq⟩ =>
      refine hkeep _ heq (List.Sublist.refl _) fun i hi => ?_
      rcases List.mem_append.mp hi with hi | hi
      · exact h.places i hi
      · rw [List.mem_singleton.mp hi]
        exact (List.getElem?_eq_some_iff.mp ha).1
  | .didDeselectRow _, ⟨_, _, heq⟩ =>
      exact hkeep _ heq (List.Sublist.refl _) fun i hi => h.places i (mem_removeObject.mp hi).1
  | .commitEditing _, ⟨_, _, heq⟩ =>
      exact hkeep _ heq (List.eraseIdx_sublist _ _) fun i hi => absurd hi List.not_mem_nil
  | .viewWillAppear, heq =>
      exact hkeep _ heq (List.Sublist.refl _) fun i hi => absurd hi List.not_mem_nil

theorem Distinct.step (h : Distinct k s) (hs : Faithful k s) (hstep : step sid k s e = some s') :
    Distinct k s' := by
  obtain ⟨hplayer, hscreens, hlibrary⟩ := step_frame hstep
  have hmerge := fresh_merge_step h hs hstep
  have hscreen : k < s'.phone.screens.length := hscreens ▸ h.screen
  rcases hlibrary with hsame | ⟨e, rfl⟩
  · have hle : s.phone.nextPlayer ≤ s'.phone.nextPlayer := hplayer ▸ Nat.le_add_right _ _
    refine ⟨hscreen, hmerge, ?_, ?_⟩
    · rw [hsame]
      exact h.library.of_sublist hle (List.Sublist.refl _)
    · rw [hsame]
      exact h.places
  · obtain ⟨hfresh, hplaces⟩ := library_stepLibrary h hstep
    exact ⟨hscreen, hmerge, hfresh, hplaces⟩

/-! ### Which steps keep the lists right -/

theorem faithful_stepLibrary_iff (h : Distinct k s) (hs : s.library.table.Faithful)
    {e : LibraryEvent} (hstep : stepLibrary s e = some s') :
    s'.library.table.Faithful ↔ Careful k s (.library e) := by
  have heffect := libraryEffect_step hstep
  match e, heffect with
  | .saved audioName t, heq =>
      refine iff_of_true ?_ trivial
      have hrows : s'.library.table.rows =
          s.library.table.rows ++ [newRecordingAudio s.phone audioName t] := by
        rw [heq]
        rfl
      have happend := h.library.append hrows rfl
      rw [show s'.library.table = _ from heq, Table.faithful_append_iff hs happend.2]
      exact fun i hi _ => h.places i hi
  | .didSelectRow row, ⟨hnew, a, ha, heq⟩ =>
      exact iff_of_true (heq ▸ hs.select h.library.nodup ha hnew) trivial
  | .didDeselectRow row, ⟨a, ha, heq⟩ =>
      exact iff_of_true (heq ▸ hs.deselect h.library.nodup ha) trivial
  | .commitEditing row, ⟨a, ha, heq⟩ =>
      rw [heq, Table.faithful_reload_iff]
      have hrow : s.library.audioRecordings[row]? = some a := ha
      simp only [Careful, hrow, Option.mem_def, Option.some.injEq, forall_eq']
      exact removeObject_eq_nil_iff
  | .viewWillAppear, heq =>
      rw [show s'.library.table = _ from heq, Table.faithful_reload_iff]
      rfl

theorem faithful_refreshed_iff (h : Distinct k s) (hs : (merge k s).Faithful)
    {d : SessionDocument} (hstep : step sid k s (.refreshed (some d)) = some s') :
    (merge k s').Faithful ↔ Careful k s (.refreshed (some d)) := by
  have heq := effect_step h.screen hstep
  by_cases hlt : (s.phone.audioTracks k).length < d.guestPlayerList.length
  · have hreload : merge k s' = ((merge k s).replace ((merge k s).rows ++
        Phone.rows s.phone.nextPlayer d.guestPlayerList)).reload :=
      (show merge k s' = _ from heq).trans (if_pos hlt)
    rw [hreload, Table.faithful_reload_iff, Careful, if_pos hlt]
    rfl
  · have hkeep : merge k s' = (merge k s).replace ((merge k s).rows ++
        Phone.rows s.phone.nextPlayer d.guestPlayerList) :=
      (show merge k s' = _ from heq).trans (if_neg hlt)
    have hrows : (merge k s').rows =
        (merge k s).rows ++ Phone.rows s.phone.nextPlayer d.guestPlayerList := by
      rw [hkeep]
      rfl
    have hother := (h.merge.append hrows (Phone.map_player_rows_length _ _)).2
    rw [hkeep, Table.faithful_append_iff hs hother, Phone.length_rows, Careful, if_neg hlt]
    rfl

theorem faithful_merge_iff (h : Distinct k s) (hs : (merge k s).Faithful)
    (hstep : step sid k s e = some s') (he : ∀ e', e ≠ .library e') :
    (merge k s').Faithful ↔ Careful k s e := by
  have heffect := effect_step h.screen hstep
  match e, heffect, hstep with
  | .didSelectRow row, ⟨hnew, a, ha, heq⟩, _ =>
      exact iff_of_true (heq ▸ hs.select h.merge.nodup ha hnew) trivial
  | .didDeselectRow row, ⟨a, ha, heq⟩, _ =>
      exact iff_of_true (heq ▸ hs.deselect h.merge.nodup ha) trivial
  | .commitEditing row, ⟨a, ha, heq⟩, _ =>
      rw [heq, Table.faithful_forget_iff hs]
      have hrow : (s.phone.audioTracks k)[row]? = some a := ha
      simp only [Careful, hrow, Option.mem_def, Option.some.injEq, forall_eq']
      rfl
  | .deleted j, ⟨row, heq⟩, _ =>
      rw [heq, Table.faithful_reload_iff]
      rfl
  | .viewWillAppear, heq, _ =>
      rw [show merge k s' = _ from heq, Table.faithful_reload_iff]
      rfl
  | .okTapped, heq, _ =>
      rw [show merge k s' = _ from heq, Table.faithful_reload_iff]
      rfl
  | .refresh, heq, _ =>
      refine iff_of_true ?_ trivial
      rw [show merge k s' = _ from heq]
      exact Table.faithful_empty _
  | .refreshed (some d), _, hstep => exact faithful_refreshed_iff h hs hstep
  | .confirmTracks, heq, _ =>
      rw [show merge k s' = _ from heq]
      exact Table.faithful_replace_iff hs
  | .failed j, heq, _ =>
      rw [show merge k s' = _ from heq]
      exact iff_of_true hs trivial
  | .refreshed none, heq, _ =>
      rw [show merge k s' = _ from heq]
      exact iff_of_true hs trivial
  | .library e, _, _ => exact absurd rfl (he e)

theorem faithful_step_iff (h : Distinct k s) (hs : Faithful k s)
    (hstep : step sid k s e = some s') : Faithful k s' ↔ Careful k s e := by
  by_cases he : ∃ e', e = .library e'
  · obtain ⟨e, rfl⟩ := he
    have hsame : merge k s' = merge k s := effect_step h.screen hstep
    rw [Faithful, hsame, and_iff_right hs.1]
    exact faithful_stepLibrary_iff h hs.2 hstep
  · have hlibrary : s'.library = s.library := (step_frame hstep).2.2.resolve_right he
    rw [Faithful, hlibrary, and_iff_left hs.2]
    exact faithful_merge_iff h hs.1 hstep fun e' heq => he ⟨e', heq⟩

end Steps

theorem merge_initial (p : Phone) : merge p.screens.length (initial p) = ⟨[], [], []⟩ := by
  simp [merge, initial, Phone.viewDidLoad, Phone.audioTracks, Phone.selectedTracks]

theorem faithful_initial (p : Phone) : Faithful p.screens.length (initial p) := by
  rw [Faithful, merge_initial]
  exact ⟨Table.faithful_empty _, Table.faithful_empty _⟩

theorem distinct_initial (p : Phone) : Distinct p.screens.length (initial p) := by
  refine ⟨by simp [initial, Phone.viewDidLoad], ?_, ?_, by simp [initial]⟩
  · rw [merge_initial]
    exact ⟨List.nodup_nil, by simp⟩
  · exact ⟨List.nodup_nil, by simp [initial, LibraryScreen.table]⟩

/-- In every run from empty screens the selected tracks are those of the
highlighted rows throughout exactly if every step is careful. -/
theorem faithful_iff_careful (sid : String) (p : Phone) (es : List Event) :
    EveryStep (step sid p.screens.length) (fun _ _ s' => Faithful p.screens.length s')
        (initial p) es ↔
      Meets (step sid p.screens.length) (Careful p.screens.length) (initial p) es := by
  refine everyStep_iff_of_invariant
    (I := fun s => Distinct p.screens.length s ∧ Faithful p.screens.length s)
    (fun s e s' hs hstep => ?_) (fun s e s' hs hstep hs' => ?_)
    ⟨distinct_initial p, faithful_initial p⟩ es
  · exact faithful_step_iff hs.1 hs.2 hstep
  · exact ⟨hs.1.step hs.2 hstep, hs'⟩

/-- A user refreshes, selects the row of the only track, and comes back to the
Merge screen from another one: no row is highlighted, and the track is merged. -/
theorem selected_track_not_highlighted :
    ¬ ∀ (sid : String) (p : Phone) (es : List Event),
      EveryStep (step sid p.screens.length) (fun _ _ s' => Faithful p.screens.length s')
        (initial p) es := by
  intro h
  let bobs : GuestTrack := ⟨"take", "bob", "bob", some (.download "take")⟩
  let d : SessionDocument := ⟨"song", "host", [bobs], .empty, [], .empty, false, []⟩
  let p := (Phone.initial ⟨"ann", "ann"⟩).joinSession "s" d
  let es : List Event := [.refresh, .refreshed (some d), .didSelectRow 0]
  have hall : EveryStep (step "s" 0) (fun _ _ s' => Faithful 0 s') (initial p)
      (es ++ [.viewWillAppear]) := h "s" p _
  have hsome : (run (step "s" 0) (initial p) (es ++ [.viewWillAppear])).isSome := by decide +kernel
  obtain ⟨s, s', hs, hstep, -⟩ := exists_of_run_concat hsome
  have hselected : (s.phone.selectedTracks 0).length = 1 :=
    eq_of_map_run (f := fun s => (s.phone.selectedTracks 0).length) hs (by decide +kernel)
  have hscreens : s.phone.screens.length = 1 :=
    eq_of_map_run (f := fun s => s.phone.screens.length) hs (by decide +kernel)
  have hreload : merge 0 s' = (merge 0 s).reload := effect_step (by omega) hstep
  have hfaithful := (hall.at hs hstep).1
  rw [hreload, Table.faithful_reload_iff] at hfaithful
  have hnone : s.phone.selectedTracks 0 = [] := hfaithful
  rw [hnone] at hselected
  exact absurd hselected (by decide)

end Tootti.Highlight
