import Mathlib.Data.List.Basic
import Std.Data.String.ToNat

/-!
`Audio.m`: the recordings and tracks the screens handle, and the names under
which their files are stored.

The source keeps every reference to an audio file as the absolute string of a
URL. Three kinds of string occur, and the empty one, so a reference is an
inductive type here; the download URL of a Cloud Storage object names the
object's path.
-/

namespace Tootti

/-- What an `audioURL`, or a reference field of a session document, says: it
is empty, or the download URL of the Cloud Storage object at a path, or a file
of the Documents or of the temporary folder. -/
inductive AudioURL
  | empty
  | download (object : String)
  | document (name : String)
  | temporary (name : String)
  deriving DecidableEq, Repr

def AudioURL.isFileURL : AudioURL → Bool
  | .document _ | .temporary _ => true
  | .empty | .download _ => false

/-- An `Audio` object. `player` is the identity of the `AVAudioPlayer` its
initialiser makes, and with it that of the object. -/
structure Audio where
  audioName : String
  performerUid : String
  performer : String
  audioURL : Option AudioURL
  player : Nat
  deriving DecidableEq, Repr

/-- An entry of a session document's `guestPlayerList`: the dictionary of a
track, with its four keys. -/
structure GuestTrack where
  audioName : String
  uid : String
  username : String
  url : Option AudioURL
  deriving DecidableEq, Repr

/-- The Audio a screen builds from a list entry, with
`initWithRemoteAudioName:performerUid:performer:audioURL:`. -/
def Audio.ofGuestTrack (player : Nat) (e : GuestTrack) : Audio where
  audioName := e.audioName
  performerUid := e.uid
  performer := e.username
  audioURL := e.url
  player := player

/-- `playerDict` of `commitEditingStyle`: the entry a row's Audio would have. -/
def Audio.playerDict (a : Audio) : GuestTrack where
  audioName := a.audioName
  uid := a.performerUid
  username := a.performer
  url := a.audioURL

@[simp] theorem playerDict_ofGuestTrack (player : Nat) (e : GuestTrack) :
    (Audio.ofGuestTrack player e).playerDict = e := rfl

/-! ### Cloud Storage paths -/

/-- `standardizedPathForString:` of the vendored `FIRStoragePath`: the
nonempty components between slashes. -/
def standardizedPath (path : List Char) : List Char :=
  ['/'].intercalate ((path.splitOn '/').filter (· ≠ []))

/-- The object a `gs://` reference to `userUid/sessionUid/audioName.wav`
names. `pathFromGSURI:` scans the object's name up to the first line break. -/
@[irreducible] def objectPath (userUid sessionUid audioName : String) : String :=
  String.ofList (standardizedPath
    ((userUid ++ "/" ++ sessionUid ++ "/" ++ audioName ++ ".wav").toList.takeWhile (· ≠ '\n')))

-- Two names can lead to one object.
example : objectPath "u" "s" "/take" = objectPath "u" "s" "take" := by decide +kernel

/-- Where `uploadAudioSound:` and `deleteAudioTrack:` look for the track of a
list entry. -/
def GuestTrack.objectPath (sessionUid : String) (e : GuestTrack) : String :=
  Tootti.objectPath e.uid sessionUid e.audioName

/-- The entry `uploadAudioSound:` adds to the session document once the file
is stored and its download URL is known. -/
def Audio.uploadEntry (a : Audio) (userUid sessionUid username : String) : GuestTrack where
  audioName := a.audioName
  uid := userUid
  username := username
  url := some (.download (objectPath userUid sessionUid a.audioName))

/-! ### Files of recordings

A recording is written to a file named after the moment it was prepared,
`timeIntervalSince1970` printed by `%f`. The moment is counted in
microseconds here, so that printing it loses nothing. -/

def microDigits (n : Nat) : List Char :=
  [n / 100000 % 10, n / 10000 % 10, n / 1000 % 10, n / 100 % 10, n / 10 % 10, n % 10].map
    Nat.digitChar

/-- `%f` of a time. -/
def timeText (t : Nat) : List Char :=
  Nat.toDigits 10 (t / 1000000) ++ '.' :: microDigits (t % 1000000)

/-- The file name `prepareForNewRecording` makes at time `t`. -/
def recordingFileName (t : Nat) : String := String.ofList (timeText t) ++ ".wav"

theorem digitChar_inj {m n : Nat} (hm : m < 10) (hn : n < 10)
    (h : Nat.digitChar m = Nat.digitChar n) : m = n := by
  have hall : ∀ m < 10, ∀ n < 10, Nat.digitChar m = Nat.digitChar n → m = n := by decide
  exact hall m hm n hn h

theorem microDigits_inj {m n : Nat} (hm : m < 1000000) (hn : n < 1000000)
    (h : microDigits m = microDigits n) : m = n := by
  simp only [microDigits, List.map_cons, List.map_nil, List.cons.injEq, and_true] at h
  obtain ⟨h5, h4, h3, h2, h1, h0⟩ := h
  have d5 := digitChar_inj (Nat.mod_lt _ (by decide)) (Nat.mod_lt _ (by decide)) h5
  have d4 := digitChar_inj (Nat.mod_lt _ (by decide)) (Nat.mod_lt _ (by decide)) h4
  have d3 := digitChar_inj (Nat.mod_lt _ (by decide)) (Nat.mod_lt _ (by decide)) h3
  have d2 := digitChar_inj (Nat.mod_lt _ (by decide)) (Nat.mod_lt _ (by decide)) h2
  have d1 := digitChar_inj (Nat.mod_lt _ (by decide)) (Nat.mod_lt _ (by decide)) h1
  have d0 := digitChar_inj (Nat.mod_lt _ (by decide)) (Nat.mod_lt _ (by decide)) h0
  omega

/-- The whole seconds of a printed time are what stands before its point. -/
theorem takeWhile_timeText (t : Nat) :
    (timeText t).takeWhile (· ≠ '.') = Nat.toDigits 10 (t / 1000000) := by
  have hdigits : ∀ c ∈ Nat.toDigits 10 (t / 1000000), (decide (c ≠ '.')) = true := by
    intro c hc
    have hd := Nat.isDigit_of_mem_toDigits (by decide) (by decide) hc
    simpa using fun hdot : c = '.' => by simp [hdot] at hd
  rw [timeText, List.takeWhile_append_of_pos hdigits]
  simp

theorem timeText_inj {s t : Nat} (h : timeText s = timeText t) : s = t := by
  have hsec : Nat.toDigits 10 (s / 1000000) = Nat.toDigits 10 (t / 1000000) := by
    rw [← takeWhile_timeText, ← takeWhile_timeText, h]
  have hdiv : s / 1000000 = t / 1000000 := by
    apply Nat.repr_injective
    rw [Nat.repr_eq_ofList_toDigits, Nat.repr_eq_ofList_toDigits, hsec]
  have hmicro : microDigits (s % 1000000) = microDigits (t % 1000000) := by
    rw [timeText, timeText, hsec, List.append_cancel_left_eq] at h
    exact (List.cons.inj h).2
  have hmod := microDigits_inj (Nat.mod_lt _ (by decide)) (Nat.mod_lt _ (by decide)) hmicro
  omega

theorem recordingFileName_inj {s t : Nat} : recordingFileName s = recordingFileName t ↔ s = t := by
  refine ⟨fun h => timeText_inj ?_, fun h => h ▸ rfl⟩
  have hlist := congrArg String.toList h
  simpa [recordingFileName] using hlist

end Tootti
