import Tootti.Machine.Shared
import Tootti.Model.Session

/-!
The roster operations on shared dictionaries.

`currentPlayerList` is an array of mutable dictionaries, and the copies the
operations make of it are shallow: a status is changed in the dictionaries of
the old list too, and an entry is removed by deep equality with one of the old
list. The operations are followed here reference by reference. What they come
down to on the values is what `Model.Session` says of them.
-/

namespace Tootti.Operations

open Machine

abbrev PlayerArray := Shared Player

/-- The new local list, and the list that is sent, if there is one. -/
structure Result where
  currentPlayerList : PlayerArray
  sent : Option Roster

/-- `isEqualToString:` on an entry's uid. -/
def hasUid (uid : Option String) (p : Player) : Bool := some p.uid = uid

def updateSessionActivityStatus (status : Bool) (uid : Option String) (l : PlayerArray) : Result :=
  let l := l.update (hasUid uid) fun p => { p with status }
  ⟨l, some l.value⟩

/-- `none` when storing a missing username or uid raises. -/
def updateCurrentPlayerListWithActivity (isActive : Bool) (username uid : Option String)
    (l : PlayerArray) : Option Result :=
  let currentPlayerListCopy :=
    if isActive then
      match username, uid with
      | some username, some uid => some (l.addNew ⟨username, uid, false⟩)
      | _, _ => none
    else some (l.remove (hasUid uid))
  currentPlayerListCopy.map fun l => ⟨l, some l.value⟩

/-- The list that the two joins make of a document; every read of the document
makes new dictionaries. -/
def join (performer performerUid : String) (d : SessionDocument) : Result :=
  let checker := d.currentPlayerList.all fun p => p.uid ≠ performerUid
  let cpl := Shared.ofList d.currentPlayerList
  if checker then
    let cpl := cpl.addNew ⟨performer, performerUid, false⟩
    ⟨cpl, some cpl.value⟩
  else ⟨cpl, none⟩

def joinSession (performer performerUid : String) (d : SessionDocument) : Result :=
  join performer performerUid d

def joinPastSession (performer performerUid : String) (d : SessionDocument) : Result :=
  join performer performerUid d

/-! ### What the operations come down to -/

section Values

variable {username uid : Option String} {performer performerUid : String} {l : PlayerArray}
  {d : SessionDocument} {r : Result}

theorem value_updateSessionActivityStatus (status : Bool) :
    (updateSessionActivityStatus status uid l).currentPlayerList.value =
      Roster.setStatus status uid l.value := by
  have hset : Roster.setStatus status uid l.value =
      l.value.map fun p => if hasUid uid p then { p with status } else p := by
    refine List.map_congr_left fun p _ => ?_
    by_cases hp : some p.uid = uid <;> simp [hasUid, hp]
  have hloop := Shared.value_update (p := hasUid uid) (f := fun p => { p with status })
    (fun _ => rfl) (fun _ => rfl) l
  exact hloop.trans hset.symm

theorem value_remove : (l.remove (hasUid uid)).value = Roster.removePlayer uid l.value := by
  have hloop : (fun (copy : Roster) p => if hasUid uid p then removeObject copy p else copy) =
      fun copy p => if some p.uid = uid then removeObject copy p else copy := by
    funext copy p
    by_cases hp : some p.uid = uid <;> simp [hasUid, hp]
  rw [Shared.value_remove, hloop]
  rfl

theorem value_updateCurrentPlayerListWithActivity (isActive : Bool) :
    (updateCurrentPlayerListWithActivity isActive username uid l).map
        (fun r => r.currentPlayerList.value) =
      Roster.withActivity isActive username uid l.value := by
  cases isActive with
  | false => exact congrArg some value_remove
  | true =>
      cases username with
      | none => rfl
      | some username =>
          cases uid with
          | none => rfl
          | some uid => exact congrArg some (Shared.value_addNew _ l)

theorem checker_eq_not_contains :
    (d.currentPlayerList.all fun p => p.uid ≠ performerUid) =
      !d.currentPlayerList.contains performerUid := by
  rw [Roster.contains, List.not_any_eq_all_not]
  congr 1
  funext p
  exact decide_not

theorem value_join :
    (join performer performerUid d).currentPlayerList.value =
      d.currentPlayerList.join performer performerUid := by
  simp only [join, checker_eq_not_contains, Roster.join, Roster.addPlayer]
  cases d.currentPlayerList.contains performerUid <;> simp

end Values

/-! ### What each operation does -/

/-- The operation turned the list `l` into `expected`, sent that list exactly if it
`writes` at all, and left the entries of all but the one user as they were. -/
structure Does (uid : String) (l expected : Roster) (writes : Prop) (r : Result) : Prop where
  value : r.currentPlayerList.value = expected
  sent : writes → r.sent = some r.currentPlayerList.value
  unsent : ¬ writes → r.sent = none
  others : ∀ u ≠ uid, (r.currentPlayerList.value.filter fun p => p.uid = u) =
    l.filter fun p => p.uid = u

section Does

variable {uid username performer performerUid : String} {d : SessionDocument}

theorem does_updateSessionActivityStatus (status : Bool) (l : PlayerArray) :
    Does uid l.value (l.value.map fun p => if p.uid = uid then { p with status } else p) True
      (updateSessionActivityStatus status (some uid) l) := by
  refine ⟨?_, fun _ => rfl, fun h => absurd trivial h, fun u hu => ?_⟩
  · rw [value_updateSessionActivityStatus, Roster.setStatus_some]
    rfl
  · rw [value_updateSessionActivityStatus]
    exact Roster.entriesOf_setStatus_of_ne hu

theorem does_updateCurrentPlayerList {isActive : Bool} {l : PlayerArray} {expected : Roster}
    (h : Roster.withActivity isActive (some username) (some uid) l.value = some expected)
    (hothers : ∀ u ≠ uid, Roster.entriesOf u expected = Roster.entriesOf u l.value) :
    ∃ r, updateCurrentPlayerListWithActivity isActive (some username) (some uid) l = some r ∧
      Does uid l.value expected True r := by
  rw [← value_updateCurrentPlayerListWithActivity, Option.map_eq_some_iff] at h
  obtain ⟨r, hr, rfl⟩ := h
  refine ⟨r, hr, rfl, fun _ => ?_, fun hnot => absurd trivial hnot, hothers⟩
  obtain ⟨l', -, rfl⟩ := Option.map_eq_some_iff.mp hr
  rfl

/-- The joins write the list only where they have added to it. -/
theorem sent_join : (join performer performerUid d).sent =
    if d.currentPlayerList.contains performerUid then none
    else some (join performer performerUid d).currentPlayerList.value := by
  simp only [join, checker_eq_not_contains]
  cases d.currentPlayerList.contains performerUid <;> rfl

theorem does_join (d : SessionDocument) :
    Does uid d.currentPlayerList
      (if ∃ p ∈ d.currentPlayerList, p.uid = uid then d.currentPlayerList
        else d.currentPlayerList ++ [⟨username, uid, false⟩])
      (¬ ∃ p ∈ d.currentPlayerList, p.uid = uid) (join username uid d) := by
  have hmem := @Roster.contains_eq_true uid d.currentPlayerList
  refine ⟨?_, fun hnew => ?_, fun hin => ?_, fun u hu => ?_⟩
  · rw [value_join, Roster.join]
    by_cases hin : d.currentPlayerList.contains uid = true
    · rw [if_pos hin, if_pos (hmem.mp hin)]
    · rw [if_neg hin, if_neg (mt hmem.mpr hin)]
      rfl
  · rw [sent_join, if_neg (mt hmem.mp hnew)]
  · rw [sent_join, if_pos (hmem.mpr (not_not.mp hin))]
  · rw [value_join]
    exact Roster.entriesOf_join_of_ne hu

end Does

/-- For every list of players, with whatever entries and dictionaries in
common, each operation does what it is for and nothing to anybody else. The joins
write only a list they have added to. -/
theorem operations_exact (l : PlayerArray) (d : SessionDocument) (username uid : String)
    (status : Bool) :
    (∃ r, updateCurrentPlayerListWithActivity false (some username) (some uid) l = some r ∧
      Does uid l.value (l.value.filter fun p => p.uid ≠ uid) True r) ∧
    (∃ r, updateCurrentPlayerListWithActivity true (some username) (some uid) l = some r ∧
      Does uid l.value (l.value ++ [⟨username, uid, false⟩]) True r) ∧
    Does uid l.value (l.value.map fun p => if p.uid = uid then { p with status } else p) True
      (updateSessionActivityStatus status (some uid) l) ∧
    (∀ joins ∈ [joinSession, joinPastSession],
      Does uid d.currentPlayerList
        (if ∃ p ∈ d.currentPlayerList, p.uid = uid then d.currentPlayerList
          else d.currentPlayerList ++ [⟨username, uid, false⟩])
        (¬ ∃ p ∈ d.currentPlayerList, p.uid = uid) (joins username uid d)) := by
  refine ⟨?_, ?_, does_updateSessionActivityStatus status l, fun joins hjoins => ?_⟩
  · refine does_updateCurrentPlayerList (congrArg some (Roster.removePlayer_some uid l.value)) ?_
    exact fun u hu => own_dropKey_of_ne hu
  · refine does_updateCurrentPlayerList rfl fun u hu => ?_
    exact Roster.entriesOf_addPlayer_of_ne hu
  · simp only [List.mem_cons, List.not_mem_nil, or_false] at hjoins
    rcases hjoins with rfl | rfl
    · exact does_join d
    · exact does_join d

end Tootti.Operations
