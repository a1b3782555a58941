import Tootti.Storage.Mixes

/-!
Merges whose insertions, export or upload fail.

`performMerge:` looks each track's file up, inserts its audio into a
composition and exports that. The look-up has two branches: a file URL's text
is taken for a path, at which there is no file, and the first audio track of
an asset without a file raises. An insertion that fails is logged and no more,
and the completion block is told of a success whatever happened.
-/

namespace Tootti.MergeOutcome

open MixStorage

variable {α : Type}

/-- A phone's files and what it can download. A path that does not begin with
a slash is one in the working directory, which has no files. -/
structure Device (α : Type) where
  documents : String
  temporary : String
  percentEncoded : String → String
  atPath : String → Option α
  download : String → Option α
  absolute : ∀ path, (atPath path).isSome → path.toList.head? = some '/'

namespace Device

variable (dev : Device α)

def path? : AudioURL → Option String
  | .document name => some (dev.documents ++ name)
  | .temporary name => some (dev.temporary ++ name)
  | .empty | .download _ => none

/-- The text of the file URL of a path. -/
def absoluteString (path : String) : String := "file://" ++ dev.percentEncoded path

/-- The audio that a URL refers to. -/
def contents : AudioURL → Option α
  | .empty => none
  | .download object => dev.download object
  | .document name => dev.atPath (dev.documents ++ name)
  | .temporary name => dev.atPath (dev.temporary ++ name)

def audio (a : Audio) : Option α := a.audioURL.bind dev.contents

/-- The audio track of `audioURLAsset`; `none` where taking it raises. A file
URL is made of the text of the track's URL, as if that were a path. -/
def asset (a : Audio) : Option α :=
  a.audioURL.bind fun url =>
    match dev.path? url with
    | some path => dev.atPath (dev.absoluteString path)
    | none => dev.contents url

end Device

/-- A selected track, and whether its insertion succeeds. -/
structure Insertion where
  track : Audio
  inserted : Bool

/-- One round of the loop of `performMerge:`. -/
def addTrack (dev : Device α) (composition : List α) (x : Insertion) : Option (List α) :=
  (dev.asset x.track).map fun audio => if x.inserted then composition ++ [audio] else composition

def composition (dev : Device α) (xs : List Insertion) : Option (List α) :=
  xs.foldlM (addTrack dev) []

/-- Which of the later stages succeed. -/
structure Outcome where
  exported : Bool
  put : Bool
  downloadURL : Bool
  updated : Bool

/-- `performMerge:hostUsername:mergedFileName:completionBlock:`, with the
result and the state its completion block finds. -/
def performMerge (dev : Device α) (c hostUid hostUsername fileName : String)
    (audioTracks : List Insertion) (exported : Bool) (s : System (List α)) :
    Option (Audio × System (List α)) :=
  (composition dev audioTracks).map fun mix =>
    let endFilePath := fileName ++ ".m4a"
    let mergedTrack : Audio :=
      ⟨"mergedtrack", hostUid, hostUsername, some (.temporary endFilePath), s.nextPlayer⟩
    -- what was exported before is removed first
    let file := if exported then some mix else none
    let folder := Function.update (s.temporary c) endFilePath file
    (mergedTrack,
      { s with temporary := Function.update s.temporary c folder, nextPlayer := s.nextPlayer + 1 })

/-- `uploadTypedAudioSound:sessionUid:audioType:completionBlock:`, and whether
the document was updated. -/
def uploadTypedAudioSound (c userUid sessionUid : String) (type : AudioType) (o : Outcome)
    (a : Audio) (s : System (List α)) : System (List α) × Bool :=
  match s.file c a.audioURL with
  | none => (s, false)
  | some mix =>
      if o.put then
        let path := objectPath userUid sessionUid a.audioName
        let s := { s with object := Function.update s.object path (some mix) }
        if o.downloadURL && o.updated then (s.setRef type (.download path), true) else (s, false)
      else (s, false)

/-- A tap of one of the two buttons, with all that comes of it. -/
structure Tap where
  type : AudioType
  c : String
  username : String
  hostUid : String
  sid : String
  selectedTracks : List Insertion
  outcome : Outcome

/-- `mergeTracks:` and `mergeForClicktrack:`; `none` when it raises. -/
def Tap.merge (dev : Device α) (t : Tap) (s : System (List α)) : Option (System (List α) × Bool) :=
  (performMerge dev t.c t.hostUid t.username t.type.mergedFileName t.selectedTracks
      t.outcome.exported s).map fun (mergedTrack, s) =>
    uploadTypedAudioSound t.c t.hostUid t.sid t.type t.outcome mergedTrack s

/-- Nothing raises, and if the document was updated, then to a mix of all the
selected tracks. -/
def Complete (dev : Device α) (t : Tap) (s : System (List α)) :
    Option (System (List α) × Bool) → Prop
  | none => False
  | some (s', false) => s'.document = s.document
  | some (s', true) => ∃ path mix, s'.ref t.type = .download path ∧ s'.object path = some mix ∧
      mix.map some = t.selectedTracks.map fun x => dev.audio x.track

/-- The track is no local one and can be downloaded. -/
def Loads (dev : Device α) (a : Audio) : Prop :=
  (∀ url ∈ a.audioURL, url.isFileURL = false) ∧ (dev.audio a).isSome

/-- The later stages all succeed. -/
def Outcome.Reported (o : Outcome) : Prop :=
  o.exported ∧ o.put ∧ o.downloadURL ∧ o.updated

/-! ### The loop -/

section Loop

variable {dev : Device α} {a : Audio} {xs : List Insertion} {mix : List α}

/-- No file's path is the text of a file URL. -/
theorem atPath_absoluteString (path : String) : dev.atPath (dev.absoluteString path) = none := by
  rw [← Option.not_isSome_iff_eq_none]
  intro hsome
  have hslash := dev.absolute _ hsome
  rw [Device.absoluteString, String.toList_append] at hslash
  simp at hslash

theorem asset_isSome_iff : (dev.asset a).isSome ↔ Loads dev a := by
  rw [Device.asset, Loads, Device.audio]
  cases a.audioURL with
  | none => simp
  | some url =>
      cases url <;> simp [Device.path?, AudioURL.isFileURL, atPath_absoluteString]

theorem asset_eq_audio (h : (dev.asset a).isSome) : dev.asset a = dev.audio a := by
  have hloads := (asset_isSome_iff.mp h).1
  rw [Device.asset, Device.audio]
  cases hurl : a.audioURL with
  | none => rfl
  | some url =>
      have hremote := hloads url hurl
      cases url with
      | empty | download => rfl
      | document | temporary => simp [AudioURL.isFileURL] at hremote

/-- The loop goes through exactly if every asset has audio, and collects the
audio of the insertions that succeed. -/
theorem foldlM_addTrack_eq_some {before : List α} :
    xs.foldlM (addTrack dev) before = some mix ↔
      (∀ x ∈ xs, (dev.asset x.track).isSome) ∧
        mix = before ++ (xs.filter Insertion.inserted).filterMap fun x => dev.asset x.track := by
  induction xs generalizing before with
  | nil => exact ⟨fun h => ⟨by simp, by simp [Option.some.inj h]⟩, fun h => by simp [h.2]⟩
  | cons x xs ih =>
      rw [List.foldlM_cons, addTrack]
      cases hasset : dev.asset x.track with
      | none => simp [hasset]
      | some audio =>
          cases hinserted : x.inserted <;> simp [hasset, hinserted, ih]

theorem composition_isSome_iff :
    (composition dev xs).isSome ↔ ∀ x ∈ xs, Loads dev x.track := by
  have hassets : (∀ x ∈ xs, (dev.asset x.track).isSome) ↔ ∀ x ∈ xs, Loads dev x.track :=
    forall₂_congr fun x _ => asset_isSome_iff
  rw [Option.isSome_iff_exists, ← hassets]
  constructor
  · rintro ⟨mix, hmix⟩
    exact (foldlM_addTrack_eq_some.mp hmix).1
  · intro h
    exact ⟨_, foldlM_addTrack_eq_some.mpr ⟨h, rfl⟩⟩

theorem map_some_filterMap {β : Type} {l : List β} {f : β → Option α}
    (h : ∀ x ∈ l, (f x).isSome) : (l.filterMap f).map some = l.map f := by
  induction l with
  | nil => rfl
  | cons x l ih =>
      obtain ⟨y, hy⟩ := Option.isSome_iff_exists.mp (h x List.mem_cons_self)
      rw [List.filterMap_cons_some hy, List.map_cons, List.map_cons, hy,
        ih fun z hz => h z (List.mem_cons_of_mem x hz)]

/-- The composition has the audio of all the tracks exactly if every insertion
succeeded. -/
theorem composition_complete_iff (h : composition dev xs = some mix) :
    (mix.map some = xs.map fun x => dev.audio x.track) ↔ ∀ x ∈ xs, x.inserted := by
  obtain ⟨hassets, rfl⟩ := foldlM_addTrack_eq_some.mp h
  rw [List.nil_append, map_some_filterMap fun x hx => hassets x (List.mem_filter.mp hx).1]
  constructor
  · intro heq
    have hlen := congrArg List.length heq
    rw [List.length_map, List.length_map] at hlen
    exact List.filter_eq_self.mp (List.filter_sublist.eq_of_length hlen)
  · intro hall
    rw [List.filter_eq_self.mpr hall]
    exact List.map_congr_left fun x hx => asset_eq_audio (hassets x hx)

end Loop

/-! ### The outcome -/

section Outcome

variable {dev : Device α} {t : Tap} {s : System (List α)} {mix : List α}

/-- What an upload of a file does to the document. -/
inductive Upload (type : AudioType) (mix : List α) (s : System (List α)) (o : Outcome) :
    System (List α) × Bool → Prop
  | stopped {s' : System (List α)} (h : ¬ (o.put ∧ o.downloadURL ∧ o.updated))
      (hdocument : s'.document = s.document) : Upload type mix s o (s', false)
  | updated {s' : System (List α)} {path : String} (h : o.put ∧ o.downloadURL ∧ o.updated)
      (href : s'.ref type = .download path) (hobject : s'.object path = some mix) :
      Upload type mix s o (s', true)

theorem upload_file {c userUid sid : String} {type : AudioType} {o : Outcome} {a : Audio}
    (hfile : s.file c a.audioURL = some mix) :
    Upload type mix s o (uploadTypedAudioSound c userUid sid type o a s) := by
  rw [uploadTypedAudioSound, hfile]
  dsimp only
  split
  · rename_i hput
    split
    · rename_i hlast
      rw [Bool.and_eq_true] at hlast
      refine .updated ⟨hput, hlast⟩ (by rw [ref_setRef, if_pos rfl]) ?_
      rw [object_setRef]
      exact Function.update_self _ _ _
    · rename_i hlast
      rw [Bool.and_eq_true] at hlast
      exact .stopped (fun h => hlast h.2) rfl
  · rename_i hput
    exact .stopped (fun h => hput h.1) rfl

theorem file_performMerge {c hostUid hostUsername fileName : String} {xs : List Insertion}
    {exported : Bool} {r : Audio × System (List α)}
    (h : performMerge dev c hostUid hostUsername fileName xs exported s = some r) :
    ∃ mix, composition dev xs = some mix ∧ r.2.document = s.document ∧
      r.2.file c r.1.audioURL = if exported then some mix else none := by
  obtain ⟨mix, hmix, rfl⟩ := Option.map_eq_some_iff.mp h
  exact ⟨mix, hmix, rfl, by simp [System.file]⟩

/-- Where the upload goes through, the document has the whole merge exactly if
the file does. -/
theorem complete_upload_iff {s' : System (List α)} {o : Outcome} {r : System (List α) × Bool}
    (h : Upload t.type mix s' o r) (hdocument : s'.document = s.document) :
    Complete dev t s (some r) ↔ (o.put ∧ o.downloadURL ∧ o.updated →
      mix.map some = t.selectedTracks.map fun x => dev.audio x.track) := by
  cases h with
  | stopped h hsame => exact iff_of_true (hsame.trans hdocument) fun hall => absurd hall h
  | updated h href hobject =>
      refine ⟨?_, fun hmix => ⟨_, mix, href, hobject, hmix h⟩⟩
      rintro ⟨path, mix', href', hobject', hmix⟩ -
      obtain rfl := AudioURL.download.inj (href.symm.trans href')
      obtain rfl := Option.some.inj (hobject.symm.trans hobject')
      exact hmix

/-- A tap of either button completes its merge exactly if every selected track
is a remote one that loads, and no insertion fails unless a later stage does. -/
theorem merge_complete_iff (dev : Device α) (t : Tap) (s : System (List α)) :
    Complete dev t s (t.merge dev s) ↔
      (∀ x ∈ t.selectedTracks, Loads dev x.track) ∧
        (t.outcome.Reported → ∀ x ∈ t.selectedTracks, x.inserted) := by
  rw [← composition_isSome_iff, Tap.merge]
  cases hmerge : performMerge dev t.c t.hostUid t.username t.type.mergedFileName t.selectedTracks
      t.outcome.exported s with
  | none =>
      have hraises := Option.map_eq_none_iff.mp hmerge
      exact iff_of_false id fun h => by simp [hraises] at h
  | some r =>
      obtain ⟨mix, hmix, hdocument, hfile⟩ := file_performMerge hmerge
      rw [and_iff_right (Option.isSome_of_mem hmix), Option.map_some]
      dsimp only
      cases hexported : t.outcome.exported with
      | false =>
          -- without a file the put fails
          rw [hexported, if_neg (by decide)] at hfile
          rw [uploadTypedAudioSound, hfile]
          exact iff_of_true hdocument fun h => absurd h.1 (by simp [hexported])
      | true =>
          rw [hexported, if_pos rfl] at hfile
          have hlater : t.outcome.Reported ↔
              (t.outcome.put ∧ t.outcome.downloadURL ∧ t.outcome.updated) := by
            rw [Outcome.Reported, hexported]
            exact and_iff_right rfl
          rw [hlater, ← composition_complete_iff hmix]
          exact complete_upload_iff (upload_file hfile) hdocument

end Outcome

/-- A phone with one recording in its Documents folder. -/
def recorded : Device Nat where
  documents := "/Documents/"
  temporary := "/tmp/"
  percentEncoded := id
  atPath path := if path = "/Documents/take.wav" then some 7 else none
  download _ := none
  absolute path h := by
    by_cases hpath : path = "/Documents/take.wav"
    · rw [hpath]
      decide
    · simp [hpath] at h

/-- A merge with a selected recording of the Library's raises. -/
theorem local_track_raises :
    ¬ ∀ (dev : Device Nat) (t : Tap) (s : System (List Nat)), t.selectedTracks ≠ [] →
      Complete dev t s (t.merge dev s) := by
  intro h
  let take : Audio := ⟨"take", "ann", "ann", some (.document "take.wav"), 0⟩
  let t : Tap := ⟨.finalMergedResultRef, "ann", "ann", "host", "s", [⟨take, true⟩],
    ⟨true, true, true, true⟩⟩
  have hraises : t.merge recorded (.initial ⟨"song", "host", [], .empty, [], .empty, false, []⟩) =
      none := by
    have hmix : composition recorded t.selectedTracks = none := by
      simp [composition, addTrack, t, take, Device.asset, Device.path?, atPath_absoluteString]
    rw [Tap.merge, performMerge, hmix]
    rfl
  have hcomplete := h recorded t (.initial ⟨"song", "host", [], .empty, [], .empty, false, []⟩)
    (List.cons_ne_nil _ _)
  rw [hraises] at hcomplete
  exact hcomplete

end Tootti.MergeOutcome
