import Mathlib.Data.List.TakeWhile
import Tootti.Machine.Components
import Tootti.Machine.Run
import Tootti.Model.Audio

/-!
Which tracks share an object of Cloud Storage.

The name of an object is made of a user, a session and the name of a track,
which the user has typed. The reference to it takes the text up to the first
line break, and of that what stands between slashes. So some track names lead
to one object, but never those of different users or sessions.
-/

namespace Tootti.ObjectStore

open Machine

/-- A text that is one component as it stands. -/
structure Plain (text : String) : Prop where
  no_slash : '/' ∉ text.toList
  no_newline : '\n' ∉ text.toList

/-- The identifier of a document. -/
structure Identifier where
  text : String
  ne_empty : text ≠ ""
  plain : Plain text

/-- Whom `uploadAudioSound:`, `uploadTypedAudioSound:` and `deleteAudioTrack:`
are called for, and the name of the Audio. -/
structure Track where
  userUid : Identifier
  sessionUid : Identifier
  audioName : String

def Track.path (t : Track) : String := objectPath t.userUid.text t.sessionUid.text t.audioName

/-- What a reference takes of the name of a track. -/
def nameComponents (audioName : String) : List (List Char) :=
  components '/' ((audioName ++ ".wav").toList.takeWhile (· ≠ '\n'))

def Track.key (t : Track) : String × String × List (List Char) :=
  (t.userUid.text, t.sessionUid.text, nameComponents t.audioName)

def Track.parts (t : Track) : List (List Char) :=
  t.userUid.text.toList :: t.sessionUid.text.toList :: nameComponents t.audioName

theorem Identifier.toList_ne_nil (u : Identifier) : u.text.toList ≠ [] :=
  fun h => u.ne_empty (String.toList_eq_nil_iff.mp h)

theorem Identifier.components_eq (u : Identifier) :
    components '/' u.text.toList = [u.text.toList] :=
  components_of_not_mem u.plain.no_slash u.toList_ne_nil

theorem Plain.takeWhile_append {text : String} (h : Plain text) (xs : List Char) :
    (text.toList ++ xs).takeWhile (· ≠ '\n') = text.toList ++ xs.takeWhile (· ≠ '\n') :=
  List.takeWhile_append_of_pos fun c hc =>
    decide_eq_true fun heq : c = '\n' => h.no_newline (heq ▸ hc)

theorem Track.parts_spec (t : Track) : ∀ c ∈ t.parts, c ≠ [] ∧ '/' ∉ c := by
  intro c hc
  rcases List.mem_cons.mp hc with rfl | hc
  · exact ⟨t.userUid.toList_ne_nil, t.userUid.plain.no_slash⟩
  · rcases List.mem_cons.mp hc with rfl | hc
    · exact ⟨t.sessionUid.toList_ne_nil, t.sessionUid.plain.no_slash⟩
    · exact components_spec hc

theorem Track.parts_eq_iff (t t' : Track) : t.parts = t'.parts ↔ t.key = t'.key := by
  simp only [Track.parts, Track.key, List.cons.injEq, Prod.mk.injEq, String.toList_inj]

theorem Track.path_eq (t : Track) : t.path = String.ofList (['/'].intercalate t.parts) := by
  have htext : (t.userUid.text ++ "/" ++ t.sessionUid.text ++ "/" ++ t.audioName ++ ".wav").toList =
      t.userUid.text.toList ++ '/' :: (t.sessionUid.text.toList ++ '/' ::
        (t.audioName ++ ".wav").toList) := by
    simp
  have hparts : components '/' ((t.userUid.text ++ "/" ++ t.sessionUid.text ++ "/" ++
      t.audioName ++ ".wav").toList.takeWhile (· ≠ '\n')) = t.parts := by
    have hcut : ((t.userUid.text.toList ++ '/' :: (t.sessionUid.text.toList ++ '/' ::
        (t.audioName ++ ".wav").toList)).takeWhile (· ≠ '\n')) =
        t.userUid.text.toList ++ '/' :: (t.sessionUid.text.toList ++ '/' ::
          (t.audioName ++ ".wav").toList.takeWhile (· ≠ '\n')) := by
      rw [t.userUid.plain.takeWhile_append, List.takeWhile_cons_of_pos (by decide),
        t.sessionUid.plain.takeWhile_append, List.takeWhile_cons_of_pos (by decide)]
    rw [htext, hcut, components_append_cons, components_append_cons, t.userUid.components_eq,
      t.sessionUid.components_eq]
    rfl
  rw [← hparts, Track.path, objectPath]
  rfl

/-- Two tracks share an object exactly if they are of one user and one
session, and the references take the same of their names. -/
theorem Track.path_eq_iff (t t' : Track) : t.path = t'.path ↔ t.key = t'.key := by
  rw [← t.parts_eq_iff t', t.path_eq, t'.path_eq, String.ofList_inj]
  refine ⟨fun h => ?_, fun h => by rw [h]⟩
  -- the components can be read off the path
  rw [← components_intercalate t.parts_spec, h, components_intercalate t'.parts_spec]

/-! ### Runs of uploads and deletions -/

variable {γ : Type*}

/-- A call that went through, with the content of the file it stores. -/
inductive Event (γ : Type*)
  | uploadAudioSound (t : Track) (content : γ)
  | uploadTypedAudioSound (t : Track) (content : γ)
  | deleteAudioTrack (t : Track)

def Event.put : Event γ → Put Track γ
  | .uploadAudioSound t content | .uploadTypedAudioSound t content => ⟨t, some content⟩
  | .deleteAudioTrack t => ⟨t, none⟩

/-- `putFile:` replaces what was there, and deleting an object that is not
there fails. -/
def step (object : String → Option γ) : Event γ → Option (String → Option γ)
  | .uploadAudioSound t content | .uploadTypedAudioSound t content =>
      some (Function.update object t.path (some content))
  | .deleteAudioTrack t =>
      (object t.path).map fun _ => Function.update object t.path none

theorem step_eq_some {object object' : String → Option γ} {e : Event γ}
    (h : step object e = some object') :
    object' = Function.update object e.put.item.path e.put.content := by
  cases e with
  | uploadAudioSound t content | uploadTypedAudioSound t content => exact (Option.some.inj h).symm
  | deleteAudioTrack t =>
      obtain ⟨content, -, rfl⟩ := Option.map_eq_some_iff.mp h
      rfl

theorem run_eq_storeOf {object : String → Option γ} {es : List (Event γ)}
    (h : run step (fun _ => none) es = some object) :
    object = storeOf Track.path (es.map Event.put) := by
  refine run_history (I := fun past object => object = storeOf Track.path (past.map Event.put))
    (fun past object e object' _ hobject hstep => ?_) [] h rfl
  rw [step_eq_some hstep, hobject, List.map_append, List.map_singleton, storeOf_concat]

/-- After any uploads and deletions of any users in any sessions, the object
of a track holds what was last put there for the same user and session under a
name of the same components. -/
theorem object_eq_lastPut {object : String → Option γ} {es : List (Event γ)}
    (h : run step (fun _ => none) es = some object) (t : Track) :
    object t.path = lastPut Track.key (es.map Event.put) t := by
  rw [run_eq_storeOf h]
  exact storeOf_name Track.path_eq_iff (es.map Event.put) t

def ann : Identifier := ⟨"a", by decide, ⟨by decide, by decide⟩⟩

def bob : Identifier := ⟨"b", by decide, ⟨by decide, by decide⟩⟩

def song : Identifier := ⟨"s", by decide, ⟨by decide, by decide⟩⟩

/-- Ann's second take replaces her first one, and Bob's does not. -/
def threeTakes : List (Event Nat) :=
  [.uploadAudioSound ⟨ann, song, "take"⟩ 1, .uploadAudioSound ⟨ann, song, "/take"⟩ 2,
    .uploadAudioSound ⟨bob, song, "take"⟩ 3]

theorem object_eq_lastPut_three_takes :
    ∃ object, run step (fun _ => none) threeTakes = some object ∧
      object (Track.path ⟨ann, song, "take"⟩) = some 2 := by
  refine ⟨_, rfl, ?_⟩
  rw [object_eq_lastPut (show run step (fun _ => none) threeTakes = some _ from rfl)]
  decide +kernel

end Tootti.ObjectStore
