import Mathlib.Data.List.Induction
import Tootti.Model.Session

/-!
The final mix and the click track.

`Merge.m` renders the selected tracks into a file of the temporary folder and
calls the result `mergedtrack`. The Merge screen's two buttons run it with
file names of their own and upload the result, each for its own field of the
session document. Cloud Storage sees the result's name and not the file's.
-/

namespace Tootti.MixStorage

open Machine

variable {α : Type}

/-- `audioType`: the field of the document that refers to the upload. -/
inductive AudioType
  | finalMergedResultRef
  | clickTrackRef
  deriving DecidableEq, Repr

/-- The server, and the temporary folder of each device. `α` is what an audio
file contains. -/
structure System (α : Type) where
  document : SessionDocument
  object : String → Option α
  temporary : String → String → Option α
  nextPlayer : Nat

namespace System

def initial (d : SessionDocument) : System α := ⟨d, fun _ => none, fun _ _ => none, 0⟩

def ref (s : System α) : AudioType → AudioURL
  | .finalMergedResultRef => s.document.finalMergedResultRef
  | .clickTrackRef => s.document.clickTrackRef

def setRef (s : System α) (type : AudioType) (url : AudioURL) : System α :=
  match type with
  | .finalMergedResultRef => { s with document := { s.document with finalMergedResultRef := url } }
  | .clickTrackRef => { s with document := { s.document with clickTrackRef := url } }

def file (s : System α) (c : String) : Option AudioURL → Option α
  | some (.temporary name) => s.temporary c name
  | _ => none

end System

/-- `performMerge:hostUsername:mergedFileName:completionBlock:` on device `c`.
`render` is what the export makes of the tracks. -/
def performMerge (c hostUid hostUsername fileName : String) (audioTracks : List Audio)
    (render : List Audio → α) (s : System α) : Audio × System α :=
  let endFilePath := fileName ++ ".m4a"
  let mergedTrack : Audio :=
    ⟨"mergedtrack", hostUid, hostUsername, some (.temporary endFilePath), s.nextPlayer⟩
  let folder := Function.update (s.temporary c) endFilePath (some (render audioTracks))
  (mergedTrack,
    { s with temporary := Function.update s.temporary c folder, nextPlayer := s.nextPlayer + 1 })

/-- `uploadTypedAudioSound:sessionUid:audioType:completionBlock:`; without a
file the put fails and the document is left alone. -/
def uploadTypedAudioSound (c userUid sessionUid : String) (type : AudioType) (a : Audio)
    (s : System α) : System α :=
  match s.file c a.audioURL with
  | none => s
  | some content =>
      let path := objectPath userUid sessionUid a.audioName
      { s with object := Function.update s.object path (some content) }.setRef type (.download path)

/-- A completed tap of one of the two buttons, on the device of user `c`. -/
structure Merge (α : Type) where
  type : AudioType
  c : String
  username : String
  selectedTracks : List Audio
  render : List Audio → α

def AudioType.mergedFileName : AudioType → String
  | .finalMergedResultRef => "finalMergedTrack"
  | .clickTrackRef => "mergedClickTrack"

/-- `mergeTracks:` and `mergeForClicktrack:`, which differ in the name of the
file and the field. -/
def merge (hostUid sid : String) (s : System α) (m : Merge α) : System α :=
  let (mergedTrack, s) :=
    performMerge m.c hostUid m.username m.type.mergedFileName m.selectedTracks m.render s
  uploadTypedAudioSound m.c hostUid sid m.type mergedTrack s

def Merge.mix (m : Merge α) : α := m.render m.selectedTracks

def lastMix (type : AudioType) (ms : List (Merge α)) : Option α :=
  ((ms.filter fun m => m.type = type).getLast?).map Merge.mix

/-- The object a reference names holds `mix`. -/
def Refers (s : System α) (type : AudioType) (mix : α) : Prop :=
  ∃ path, s.ref type = .download path ∧ s.object path = some mix

/-- Each reference names an object that holds the last mix of its type. -/
def Accurate (s : System α) (ms : List (Merge α)) : Prop :=
  ∀ type mix, lastMix type ms = some mix → Refers s type mix

/-- The one object that both types are uploaded to. -/
def mixPath (hostUid sid : String) : String := objectPath hostUid sid "mergedtrack"

section Merge

variable {hostUid sid : String} {s : System α} {m : Merge α} {type : AudioType}

@[simp] theorem object_setRef (url : AudioURL) : (s.setRef type url).object = s.object := by
  cases type <;> rfl

theorem ref_setRef (type' : AudioType) (url : AudioURL) :
    (s.setRef type url).ref type' = if type' = type then url else s.ref type' := by
  cases type <;> cases type' <;> rfl

theorem file_performMerge (c hostUsername fileName : String) (tracks : List Audio)
    (render : List Audio → α) :
    (performMerge c hostUid hostUsername fileName tracks render s).2.file c
        (performMerge c hostUid hostUsername fileName tracks render s).1.audioURL =
      some (render tracks) := by
  simp [performMerge, System.file]

theorem merge_eq (hostUid sid : String) (s : System α) (m : Merge α) :
    ∃ temporary nextPlayer, merge hostUid sid s m =
      (System.mk s.document (Function.update s.object (mixPath hostUid sid) (some m.mix))
        temporary nextPlayer).setRef m.type (.download (mixPath hostUid sid)) := by
  let merged :=
    (performMerge m.c hostUid m.username m.type.mergedFileName m.selectedTracks m.render s).2
  refine ⟨merged.temporary, merged.nextPlayer, ?_⟩
  unfold merge uploadTypedAudioSound
  dsimp only
  rw [file_performMerge]
  rfl

/-- Whatever its type, an operation leaves its mix at the one path. -/
theorem object_merge : (merge hostUid sid s m).object (mixPath hostUid sid) = some m.mix := by
  obtain ⟨temporary, nextPlayer, h⟩ := merge_eq hostUid sid s m
  rw [h, object_setRef]
  exact Function.update_self _ _ _

theorem ref_merge :
    (merge hostUid sid s m).ref type =
      if type = m.type then .download (mixPath hostUid sid) else s.ref type := by
  obtain ⟨temporary, nextPlayer, h⟩ := merge_eq hostUid sid s m
  rw [h, ref_setRef]
  split
  · rfl
  · cases type <;> rfl

end Merge

theorem lastMix_append {type : AudioType} {ms : List (Merge α)} {m : Merge α} :
    lastMix type (ms ++ [m]) = if m.type = type then some m.mix else lastMix type ms := by
  by_cases h : m.type = type <;> simp [lastMix, h]

/-- After a run the path holds the last mix of all, and every reference that
was set names the path. -/
structure Shared (hostUid sid : String) (s : System α) (ms : List (Merge α)) : Prop where
  object : ∀ m ∈ ms.getLast?, s.object (mixPath hostUid sid) = some m.mix
  ref : ∀ type, (lastMix type ms).isSome → s.ref type = .download (mixPath hostUid sid)

theorem shared_merges (hostUid sid : String) (d : SessionDocument) (ms : List (Merge α)) :
    Shared hostUid sid (ms.foldl (merge hostUid sid) (.initial d)) ms := by
  induction ms using List.reverseRecOn with
  | nil => exact ⟨by simp, by simp [lastMix]⟩
  | append_singleton ms m ih =>
      rw [List.foldl_append, List.foldl_cons, List.foldl_nil]
      refine ⟨?_, fun type hsome => ?_⟩
      · rintro m' hm
        rw [List.getLast?_concat] at hm
        rw [← Option.some.inj hm]
        exact object_merge
      · rw [ref_merge]
        rw [lastMix_append] at hsome
        by_cases h : m.type = type
        · rw [if_pos h.symm]
        · rw [if_neg h] at hsome
          rw [if_neg (Ne.symm h)]
          exact ih.ref type hsome

theorem lastMix_of_getLast {ms : List (Merge α)} {m : Merge α} (h : m ∈ ms.getLast?) :
    lastMix m.type ms = some m.mix := by
  obtain ⟨init, rfl⟩ := List.getLast?_eq_some_iff.mp h
  rw [lastMix_append, if_pos rfl]

/-- For every sequence of operations, the references are accurate exactly if
the last mix of one type and that of the other are the same audio, in case
there are both. -/
theorem mixes_accurate_iff_equal (hostUid sid : String) (d : SessionDocument)
    (ms : List (Merge α)) :
    Accurate (ms.foldl (merge hostUid sid) (.initial d)) ms ↔
      ∀ a ∈ lastMix .finalMergedResultRef ms, ∀ b ∈ lastMix .clickTrackRef ms, a = b := by
  have hshared := shared_merges hostUid sid d ms
  constructor
  · intro hacc a ha b hb
    obtain ⟨path, hpath, hobj⟩ := hacc _ a ha
    obtain ⟨path', hpath', hobj'⟩ := hacc _ b hb
    rw [hshared.ref _ (Option.isSome_of_mem ha)] at hpath
    rw [hshared.ref _ (Option.isSome_of_mem hb)] at hpath'
    obtain rfl := AudioURL.download.inj hpath
    obtain rfl := AudioURL.download.inj hpath'
    exact Option.some.inj (hobj.symm.trans hobj')
  · intro hequal type mix hmix
    have hall : ∀ type type' a b, lastMix type ms = some a → lastMix type' ms = some b → a = b := by
      intro type type' a b ha hb
      cases type <;> cases type'
      · exact Option.some.inj (ha.symm.trans hb)
      · exact hequal a ha b hb
      · exact (hequal b hb a ha).symm
      · exact Option.some.inj (ha.symm.trans hb)
    refine ⟨_, hshared.ref type (Option.isSome_of_mem hmix), ?_⟩
    cases hlast : ms.getLast? with
    | none =>
        rw [List.getLast?_eq_none_iff.mp hlast] at hmix
        simp [lastMix] at hmix
    | some m =>
        rw [hshared.object m hlast]
        exact congrArg some (hall m.type type m.mix mix (lastMix_of_getLast hlast) hmix)

/-- A final mix and then a click track of another selection: the reference to
the final mix leads to the click track. -/
theorem final_mix_overwritten :
    ¬ ∀ (hostUid sid : String) (d : SessionDocument) (ms : List (Merge Nat)),
      Accurate (ms.foldl (merge hostUid sid) (.initial d)) ms := by
  intro h
  let take (n : Nat) : Audio := ⟨toString n, "ann", "ann", some (.download (toString n)), n⟩
  let tap (type : AudioType) (selected : List Audio) : Merge Nat :=
    ⟨type, "host", "host", selected, List.length⟩
  let taps := [tap .finalMergedResultRef [take 1, take 2], tap .clickTrackRef [take 1]]
  let d : SessionDocument := ⟨"song", "host", [], .empty, [], .empty, false, []⟩
  obtain ⟨path, hpath, hobj⟩ := h "host" "s" d taps .finalMergedResultRef 2 rfl
  have hshared := shared_merges "host" "s" d taps
  rw [hshared.ref .finalMergedResultRef rfl] at hpath
  obtain rfl := AudioURL.download.inj hpath
  have hlast := hshared.object (tap .clickTrackRef [take 1]) rfl
  exact absurd (Option.some.inj (hobj.symm.trans hlast)) (by decide)

end Tootti.MixStorage
