import Tootti.Machine.Run
import Tootti.Model.Phone

/-!
The tracks of one session and their files, with one operation at a time.

A track is stored twice: its file in Cloud Storage, under a path made of its
uploader, session and name, and an entry of `guestPlayerList`, which carries
the file's URL. Uploading writes both, deleting a row removes both, and each
finds its half by a key of its own.
-/

namespace Tootti.TrackStorage

open Machine

variable {α : Type}

/-- The server and the phones. `α` is what an audio file contains. -/
structure System (α : Type) where
  document : SessionDocument
  object : String → Option α
  phone : String → Phone
  /-- What was uploaded last with each entry. -/
  uploaded : GuestTrack → Option α

inductive Event (α : Type)
  | joinSession (c : String)
  | viewDidLoad (c : String) (tab : Tab)
  | viewWillAppear (c : String) (k : Nat)
  | refresh (c : String) (k : Nat)
  /-- The listener of screen `k` is given the document as it stands. -/
  | snapshot (c : String) (k : Nat)
  /-- Another operation stores a new click track. -/
  | clickTrackRef (url : AudioURL)
  /-- The rows that `confirmTracks:` places; its uploads are separate events. -/
  | confirmTracks (c : String) (k : Nat) (selectedRecordings : List Audio)
  /-- An upload of the file `content`, from the put to the array union. -/
  | uploadAudioSound (c : String) (track : Audio) (content : α)
  /-- The deletion of row `i`, from `commitEditingStyle` to its completion. -/
  | deleteRow (c : String) (k i : Nat)

namespace System

def initial (name : String → String) (d : SessionDocument) : System α where
  document := { d with guestPlayerList := [] }
  object _ := none
  phone c := .initial ⟨c, name c⟩
  uploaded _ := none

def list (s : System α) : List GuestTrack := s.document.guestPlayerList

def onPhone (s : System α) (c : String) (f : Phone → Phone) : System α :=
  { s with phone := Function.update s.phone c (f (s.phone c)) }

def upload (sid : String) (s : System α) (c : String) (track : Audio) (content : α) : System α :=
  let entry := track.uploadEntry c sid (s.phone c).user.username
  { s with
    document := { s.document with guestPlayerList := arrayUnion s.list entry }
    object := Function.update s.object (objectPath c sid track.audioName) (some content)
    uploaded := Function.update s.uploaded entry (some content) }

/-- `deleteAudioTrack:` with the list that `commitEditingStyle` made. -/
def delete (sid : String) (s : System α) (d : Deletion) : System α :=
  { s with
    document := { s.document with guestPlayerList := d.list }
    object := Function.update s.object (d.row.objectPath sid) none }

end System

def step (sid : String) (s : System α) : Event α → Option (System α)
  | .joinSession c =>
      let u := (s.phone c).user
      let l := Roster.join u.username u.uid s.document.currentPlayerList
      let s' := s.onPhone c (.joinSession sid s.document)
      some { s' with document := { s.document with currentPlayerList := l } }
  | .viewDidLoad c tab => some (s.onPhone c (.viewDidLoad tab))
  | .viewWillAppear c k => some (s.onPhone c (.viewWillAppear k))
  | .refresh c k => some (s.onPhone c fun p => (p.refresh k).finishRefresh k sid s.document)
  | .snapshot c k => some (s.onPhone c (.snapshot k s.document))
  | .clickTrackRef url => some { s with document := { s.document with clickTrackRef := url } }
  | .confirmTracks c k selected => some (s.onPhone c (.confirmTracks k selected))
  | .uploadAudioSound c track content => some (s.upload sid c track content)
  | .deleteRow c k i => do
      let (d, p) ← (s.phone c).commitEditing k i
      -- deleting an object that does not exist is an error
      let _ ← s.object (d.row.objectPath sid)
      let p ← p.removeRow k i
      some ((s.delete sid d).onPhone c fun _ => p)

/-- The entry's URL names an object that holds what was uploaded with it. -/
def Holds (s : System α) (e : GuestTrack) : Prop :=
  ∃ path content, e.url = some (.download path) ∧ s.object path = some content ∧
    s.uploaded e = some content

def Intact (s : System α) : Prop := ∀ e ∈ s.list, Holds s e

/-- The condition on an operation. An upload goes to a path at which no other
entry is stored with other audio. A deletion's list, but for the row's own
entry, has only entries whose audio is in storage and not at the path that
is deleted. -/
def Sound (sid : String) (s : System α) : Event α → Prop
  | .uploadAudioSound c track content =>
      let entry := track.uploadEntry c sid (s.phone c).user.username
      ∀ e ∈ s.list, e.url = entry.url → e = entry ∨ s.uploaded e = some content
  | .deleteRow c k i =>
      match (s.phone c).commitEditing k i with
      | none => True
      | some (d, _) => ∀ e ∈ d.base, e ≠ d.row →
          Holds s e ∧ e.url ≠ some (.download (d.row.objectPath sid))
  | _ => True

section Steps

variable {sid : String} {s s' : System α}

theorem Intact.of_same (h : Intact s) (hl : s'.list = s.list) (ho : s'.object = s.object)
    (hu : s'.uploaded = s.uploaded) : Intact s' := by
  intro e he
  obtain ⟨path, content, hurl, hobj, hup⟩ := h e (hl ▸ he)
  exact ⟨path, content, hurl, ho ▸ hobj, hu ▸ hup⟩

theorem intact_onPhone {c : String} {f : Phone → Phone} :
    Intact (s.onPhone c f) ↔ Intact s := Iff.rfl

theorem object_upload {c : String} {track : Audio} {content : α} :
    (s.upload sid c track content).object =
      Function.update s.object (objectPath c sid track.audioName) (some content) := by
  simp only [System.upload]

theorem uploaded_upload {c : String} {track : Audio} {content : α} :
    (s.upload sid c track content).uploaded =
      Function.update s.uploaded (track.uploadEntry c sid (s.phone c).user.username)
        (some content) := by
  simp only [System.upload]

theorem holds_upload_self {c : String} {track : Audio} {content : α} :
    Holds (s.upload sid c track content)
      (track.uploadEntry c sid (s.phone c).user.username) := by
  refine ⟨objectPath c sid track.audioName, content, rfl, ?_, ?_⟩
  · rw [object_upload, Function.update_self]
  · rw [uploaded_upload, Function.update_self]

/-- An upload puts its audio in place of what was stored at its path, which
an entry survives only if it is that of the same audio. -/
theorem holds_upload_iff {c : String} {track : Audio} {content : α} {e : GuestTrack}
    (h : Holds s e) (hne : e ≠ track.uploadEntry c sid (s.phone c).user.username) :
    Holds (s.upload sid c track content) e ↔
      (e.url = (track.uploadEntry c sid (s.phone c).user.username).url →
        s.uploaded e = some content) := by
  obtain ⟨path, old, hurl, hobj, hup⟩ := h
  simp only [Holds, object_upload, uploaded_upload, Function.update_of_ne hne]
  constructor
  · rintro ⟨path', content', hurl', hobj', hup'⟩ hpath
    obtain rfl := AudioURL.download.inj (Option.some.inj (hurl'.symm.trans hpath))
    rw [Function.update_self] at hobj'
    rw [hup', hobj']
  · intro hkeep
    by_cases hpath : path = objectPath c sid track.audioName
    · subst path
      exact ⟨_, content, hurl, by rw [Function.update_self], hkeep hurl⟩
    · exact ⟨path, old, hurl, by rw [Function.update_of_ne hpath, hobj], hup⟩

theorem intact_upload_iff (h : Intact s) {c : String} {track : Audio} {content : α} :
    Intact (s.upload sid c track content) ↔ Sound sid s (.uploadAudioSound c track content) := by
  constructor
  · intro hintact e he hurl
    by_cases hne : e = track.uploadEntry c sid (s.phone c).user.username
    · exact Or.inl hne
    · have hafter := hintact e (mem_arrayUnion.mpr (Or.inl he))
      exact Or.inr ((holds_upload_iff (h e he) hne).mp hafter hurl)
  · intro hsound e he
    by_cases hne : e = track.uploadEntry c sid (s.phone c).user.username
    · subst e
      exact holds_upload_self
    · have hold : e ∈ s.list := (mem_arrayUnion.mp he).resolve_right hne
      exact (holds_upload_iff (h e hold) hne).mpr fun hurl =>
        (hsound e hold hurl).resolve_left hne

/-- A deletion takes away the object at its path and nothing else. -/
theorem holds_delete_iff {d : Deletion} {e : GuestTrack} :
    Holds (s.delete sid d) e ↔
      Holds s e ∧ e.url ≠ some (.download (d.row.objectPath sid)) := by
  constructor
  · rintro ⟨path, content, hurl, hobj, hup⟩
    have hpath : path ≠ d.row.objectPath sid := by
      rintro rfl
      simp [System.delete] at hobj
    refine ⟨⟨path, content, hurl, ?_, hup⟩, by simpa [hurl] using hpath⟩
    simpa [System.delete, hpath] using hobj
  · rintro ⟨⟨path, content, hurl, hobj, hup⟩, hne⟩
    have hpath : path ≠ d.row.objectPath sid := by simpa [hurl] using hne
    exact ⟨path, content, hurl, by simpa [System.delete, hpath] using hobj, hup⟩

theorem intact_delete_iff {d : Deletion} :
    Intact (s.delete sid d) ↔ ∀ e ∈ d.base, e ≠ d.row →
      Holds s e ∧ e.url ≠ some (.download (d.row.objectPath sid)) := by
  have hmem : ∀ e, e ∈ (s.delete sid d).list ↔ e ∈ d.base ∧ e ≠ d.row := fun e => mem_removeObject
  simp only [Intact, hmem, holds_delete_iff, and_imp]

theorem intact_step_iff {e : Event α} (h : Intact s) (hstep : step sid s e = some s') :
    Intact s' ↔ Sound sid s e := by
  cases e with
  | uploadAudioSound c track content =>
      simp only [step, Option.some.injEq] at hstep
      subst s'
      exact intact_upload_iff h
  | deleteRow c k i =>
      simp only [step, Option.bind_eq_bind, Option.bind_eq_some_iff] at hstep
      obtain ⟨⟨d, p⟩, hcommit, -, -, p', -, hs'⟩ := hstep
      obtain rfl := Option.some.inj hs'
      rw [intact_onPhone, intact_delete_iff]
      simp only [Sound, hcommit]
  | joinSession | viewDidLoad | viewWillAppear | refresh | snapshot | clickTrackRef
  | confirmTracks =>
      simp only [step, Option.some.injEq] at hstep
      subst s'
      exact iff_of_true (h.of_same rfl rfl rfl) trivial

end Steps

/-- In every run, each entry of the document has its audio after every
operation, exactly when every operation is sound. -/
theorem tracks_intact_iff_sound (sid : String) (name : String → String) (d : SessionDocument)
    (es : List (Event α)) :
    EveryStep (step sid) (fun _ _ s' => Intact s') (.initial name d) es ↔
      Meets (step sid) (Sound sid) (.initial name d) es := by
  have hagree : ∀ (s : System α) e s', Intact s → step sid s e = some s' →
      (Intact s' ↔ Sound sid s e) := fun s e s' h hs => intact_step_iff h hs
  have hinitial : Intact (.initial name d : System α) := fun e he => absurd he List.not_mem_nil
  exact everyStep_iff_of_invariant hagree (fun s e s' _ _ h => h) hinitial es

/-- A user confirms a take, refreshes, and confirms it once more, so that the
row is the Library's while the cached list has the entry. Deleting the row
deletes the file and leaves the entry. -/
theorem entry_left_without_file :
    ¬ ∀ (sid : String) (name : String → String) (d : SessionDocument) (es : List (Event Nat)),
      EveryStep (step sid) (fun _ _ s' => Intact s') (.initial name d) es := by
  intro h
  let take : Audio := ⟨"take", "ann", "ann", some (.document "1.wav"), 0⟩
  let start : System Nat := .initial id ⟨"song", "host", [], .empty, [], .empty, false, []⟩
  let before : List (Event Nat) :=
    [.joinSession "ann", .viewDidLoad "ann" .merge, .confirmTracks "ann" 0 [take],
      .uploadAudioSound "ann" take 7, .refresh "ann" 0, .confirmTracks "ann" 0 [take],
      .uploadAudioSound "ann" take 7]
  let last : Event Nat := .deleteRow "ann" 0 0
  have hsome : (run (step "s") start (before ++ [last])).isSome := by decide +kernel
  obtain ⟨s, s', hs, hstep, hs'⟩ := exists_of_run_concat hsome
  have hintact : Intact s' := (h "s" id _ (before ++ [last])).at hs hstep
  have hlist : s'.list = [take.uploadEntry "ann" "s" "ann"] :=
    eq_of_map_run hs' (by decide +kernel)
  have hobject : s'.object (objectPath "ann" "s" "take") = none :=
    eq_of_map_run (f := fun s => s.object (objectPath "ann" "s" "take")) hs' (by decide +kernel)
  have hmem : take.uploadEntry "ann" "s" "ann" ∈ s'.list := by
    rw [hlist]
    exact List.mem_cons_self
  obtain ⟨path, content, hurl, hobj, -⟩ := hintact _ hmem
  rw [← AudioURL.download.inj (Option.some.inj hurl)] at hobj
  exact Option.some_ne_none _ (hobj.symm.trans hobject)

end Tootti.TrackStorage
