import Mathlib.Data.List.Nodup
import Tootti.Machine.Keyed
import Tootti.Model.Audio

/-!
`Session.m`: the session document, the object the screens keep of it, and the
operations on its list of players.

Every roster operation computes a new list from the object's own copy, keeps
it, and sends the whole list to the document. The functions here compute the
list; who sends what when is the matter of the modules that use them. A uid
or a username read from the user defaults may be missing: no string is equal
to a missing one, and storing one in a dictionary raises.
-/

namespace Tootti

open Machine

structure Player where
  username : String
  uid : String
  status : Bool
  deriving DecidableEq, Repr

abbrev Roster := List Player

structure SessionDocument where
  sessionName : String
  hostUid : String
  guestPlayerList : List GuestTrack
  clickTrackRef : AudioURL
  recordedAudioDict : List (String × String)
  finalMergedResultRef : AudioURL
  hostStartRecording : Bool
  currentPlayerList : Roster
  deriving DecidableEq, Repr

structure Session where
  uid : String
  sessionName : String
  hostUid : String
  guestPlayerList : List GuestTrack
  clickTrack : Option Audio
  recordedAudioDict : List (String × String)
  finalMergedResult : Option Audio
  hostStartRecording : Bool
  currentPlayerList : Roster
  deriving DecidableEq, Repr

/-- `docData` of `saveSessionToDatabase:`. -/
def Session.docData (s : Session) : SessionDocument where
  sessionName := s.sessionName
  hostUid := s.hostUid
  guestPlayerList := s.guestPlayerList
  clickTrackRef := .empty
  recordedAudioDict := s.recordedAudioDict
  finalMergedResultRef := .empty
  hostStartRecording := false
  currentPlayerList := s.currentPlayerList

/-- The signed-in user: `uid` and `username` of the user defaults. -/
structure User where
  uid : String
  username : String
  deriving DecidableEq, Repr

/-- The object `joinSession:` and `joinPastSession:` build from the document
they found, with the list of players `cpl`. Its two Audios get the players
`player` and `player + 1`. -/
def SessionDocument.joined (d : SessionDocument) (uid : String) (user : User) (player : Nat)
    (cpl : List Player) : Session where
  uid := uid
  sessionName := d.sessionName
  hostUid := d.hostUid
  guestPlayerList := d.guestPlayerList
  clickTrack := some ⟨"click-track.wav", user.uid, user.username, some d.clickTrackRef, player⟩
  recordedAudioDict := d.recordedAudioDict
  finalMergedResult :=
    some ⟨"merged-song.wav", user.uid, user.username, some d.finalMergedResultRef, player + 1⟩
  hostStartRecording := false
  currentPlayerList := cpl

/-! ### Roster operations -/

namespace Roster

abbrev entriesOf (uid : String) (l : Roster) : Roster := own Player.uid uid l

/-- The `NO` branch of `updateCurrentPlayerListWithActivity:`: the loop runs
over the old list and removes from a copy of it. -/
def removePlayer (uid : Option String) (l : Roster) : Roster :=
  l.foldl (fun copy p => if some p.uid = uid then removeObject copy p else copy) l

/-- The `YES` branch: `addObject:` without looking for an older entry. -/
def addPlayer (username uid : String) (l : Roster) : Roster := l ++ [⟨username, uid, false⟩]

/-- The loop of `updateSessionActivityStatus:`, which overwrites the status
of every entry with the given uid. -/
def setStatus (status : Bool) (uid : Option String) (l : Roster) : Roster :=
  l.map fun p => if some p.uid = uid then { p with status } else p

/-- The loop of `joinSession:` and `joinPastSession:` that looks for the
joining user, called `checker` there with the opposite sense. -/
def contains (uid : String) (l : Roster) : Bool := l.any fun p => p.uid = uid

/-- `cpl` of `joinSession:` and `joinPastSession:`. -/
def join (username uid : String) (l : Roster) : Roster :=
  if l.contains uid then l else addPlayer username uid l

/-- The list `updateCurrentPlayerListWithActivity:username:uid:` computes;
`none` when storing a missing username or uid raises. -/
def withActivity (isActive : Bool) (username uid : Option String) (l : Roster) : Option Roster :=
  if isActive then
    match username, uid with
    | some username, some uid => some (addPlayer username uid l)
    | _, _ => none
  else some (removePlayer uid l)

/-- The loop deletes nothing but the entries it finds. -/
theorem removePlayer_eq_filter (uid : Option String) (l : Roster) :
    removePlayer uid l = l.filter fun p => some p.uid ≠ uid := by
  have hloop := foldl_removeObject (fun p : Player => decide (some p.uid = uid)) l l
  simp only [decide_eq_true_eq] at hloop
  rw [removePlayer, hloop]
  refine List.filter_congr fun p hp => ?_
  by_cases hu : some p.uid = uid <;> simp [hu, hp]

theorem removePlayer_some (uid : String) (l : Roster) :
    removePlayer (some uid) l = dropKey Player.uid uid l := by
  rw [removePlayer_eq_filter, dropKey]
  simp only [ne_eq, Option.some.injEq]

theorem removePlayer_eq_self_iff {uid : String} {l : Roster} :
    removePlayer (some uid) l = l ↔ l.contains uid = false := by
  rw [removePlayer_some, dropKey, List.filter_eq_self]
  simp [contains]

theorem setStatus_some (status : Bool) (uid : String) (l : Roster) :
    setStatus status (some uid) l = updateKey Player.uid uid (fun p => { p with status }) l := by
  simp [setStatus, updateKey]

theorem contains_eq_true {uid : String} {l : Roster} :
    l.contains uid = true ↔ ∃ p ∈ l, p.uid = uid := by
  simp [contains]

theorem contains_eq_false {uid : String} {l : Roster} :
    l.contains uid = false ↔ l.entriesOf uid = [] := by
  simp [contains, own_eq_nil]

theorem contains_iff_mem {uid : String} {l : Roster} :
    l.contains uid = true ↔ uid ∈ l.map Player.uid := by
  rw [contains_eq_true, List.mem_map]

/-- A status is nobody's uid. -/
theorem map_uid_setStatus (status : Bool) (uid : Option String) (l : Roster) :
    (setStatus status uid l).map Player.uid = l.map Player.uid := by
  rw [setStatus, List.map_map]
  refine List.map_congr_left fun p _ => ?_
  show (if some p.uid = uid then { p with status } else p).uid = p.uid
  split <;> rfl

theorem contains_removePlayer (uid : String) (l : Roster) :
    (removePlayer (some uid) l).contains uid = false := by
  rw [contains_eq_false, removePlayer_some, entriesOf, own_dropKey_self]

theorem contains_join (username uid : String) (l : Roster) :
    (join username uid l).contains uid := by
  rw [join]
  split
  · assumption
  · exact contains_eq_true.mpr ⟨_, List.mem_append_right _ List.mem_cons_self, rfl⟩

/-- No two entries have one uid. -/
def Distinct (l : Roster) : Prop := (l.map Player.uid).Nodup

instance (l : Roster) : Decidable l.Distinct := inferInstanceAs (Decidable (List.Nodup _))

section Distinct

variable {uid username : String} {l : Roster}

theorem distinct_removePlayer (uid : String) (h : l.Distinct) :
    (removePlayer (some uid) l).Distinct := by
  rw [removePlayer_some]
  exact h.sublist (List.filter_sublist.map Player.uid)

theorem distinct_setStatus_iff {status : Bool} {u : Option String} :
    (setStatus status u l).Distinct ↔ l.Distinct := by
  rw [Distinct, map_uid_setStatus, Distinct]

/-- Adding a player keeps a list distinct exactly if the player is not in it. -/
theorem distinct_addPlayer_iff (h : l.Distinct) :
    (addPlayer username uid l).Distinct ↔ l.contains uid = false := by
  rw [← Bool.not_eq_true, contains_iff_mem, Distinct, addPlayer, List.map_append, List.nodup_append]
  constructor
  · rintro ⟨-, -, hne⟩ hin
    exact hne uid hin uid List.mem_cons_self rfl
  · intro hout
    refine ⟨h, List.nodup_singleton _, fun a ha b hb => ?_⟩
    obtain rfl := List.mem_singleton.mp hb
    exact fun heq => hout (heq ▸ ha)

theorem distinct_join (h : l.Distinct) : (join username uid l).Distinct := by
  rw [join]
  split
  · exact h
  · rename_i hout
    exact (distinct_addPlayer_iff h).mpr (by simpa using hout)

end Distinct

def AgreeExcept (uid : String) (l m : Roster) : Prop :=
  ∀ u ≠ uid, l.entriesOf u = m.entriesOf u

instance (uid : String) (l m : Roster) : Decidable (AgreeExcept uid l m) :=
  decidable_of_iff (∀ u ∈ (l ++ m).map Player.uid, u ≠ uid → l.entriesOf u = m.entriesOf u)
    forall_own_eq_iff.symm

section Entries

variable {uid u username : String} {status : Bool} {l : Roster}

@[simp] theorem entriesOf_removePlayer_self : entriesOf uid (removePlayer (some uid) l) = [] := by
  rw [removePlayer_some, entriesOf, own_dropKey_self]

theorem entriesOf_removePlayer_of_ne (h : u ≠ uid) :
    entriesOf u (removePlayer (some uid) l) = entriesOf u l := by
  rw [removePlayer_some, entriesOf, own_dropKey_of_ne h]

@[simp] theorem entriesOf_addPlayer_self :
    entriesOf uid (addPlayer username uid l) = entriesOf uid l ++ [⟨username, uid, false⟩] := by
  have hkey : Player.uid ⟨username, uid, false⟩ = uid := rfl
  rw [addPlayer, entriesOf, own_append, own_singleton_self hkey]

theorem entriesOf_addPlayer_of_ne (h : u ≠ uid) :
    entriesOf u (addPlayer username uid l) = entriesOf u l := by
  have hkey : Player.uid ⟨username, uid, false⟩ ≠ u := h.symm
  rw [addPlayer, entriesOf, own_append, own_singleton_of_ne hkey, List.append_nil]

@[simp] theorem entriesOf_setStatus_self :
    entriesOf uid (setStatus status (some uid) l) =
      (entriesOf uid l).map fun p => { p with status } := by
  have hkey : ∀ p : Player, Player.uid { p with status } = p.uid := fun _ => rfl
  rw [setStatus_some, entriesOf, own_updateKey_self hkey]

theorem entriesOf_setStatus_of_ne (h : u ≠ uid) :
    entriesOf u (setStatus status (some uid) l) = entriesOf u l := by
  have hkey : ∀ p : Player, Player.uid { p with status } = p.uid := fun _ => rfl
  rw [setStatus_some, entriesOf, own_updateKey_of_ne hkey h]

theorem entriesOf_join_of_ne (h : u ≠ uid) : entriesOf u (join username uid l) = entriesOf u l := by
  rw [join]
  split
  · rfl
  · exact entriesOf_addPlayer_of_ne h

end Entries

end Roster

/-! ### The operations on the object -/

def Session.updateSessionActivityStatus (status : Bool) (uid : Option String) (s : Session) :
    Session :=
  { s with currentPlayerList := s.currentPlayerList.setStatus status uid }

/-- `updateCurrentPlayerListWithActivity:username:uid:`; the list it sends is
the new local one. `none` when it raises. -/
def Session.updateCurrentPlayerListWithActivity (isActive : Bool) (username uid : Option String)
    (s : Session) : Option Session :=
  (s.currentPlayerList.withActivity isActive username uid).map fun l =>
    { s with currentPlayerList := l }

/-- Whether a listener's snapshot names another click track than its Session
has. A missing Session or click track differs from every reference. -/
def SessionDocument.newClickTrack (d : SessionDocument) (s : Option Session) : Bool :=
  some d.clickTrackRef ≠ (s.bind Session.clickTrack).bind Audio.audioURL

/-- What a listener does to its Session then; `performer` gives the uid and
the name under which the screen files the click track. -/
def Session.followClickTrack (d : SessionDocument) (performer : String × String) (player : Nat)
    (s : Session) : Session :=
  { s with
    clickTrack :=
      some ⟨"click-track.wav", performer.1, performer.2, some d.clickTrackRef, player⟩
    guestPlayerList := d.guestPlayerList }

/-! ### Session objects in memory

Session objects are changed in place by whoever holds a reference, so they
live in a list and a reference is a position in it. -/

abbrev Heap := List Session

def Heap.object? (h : Heap) (r : Option Nat) : Option Session := r.bind (h[·]?)

/-- A message to the missing object does nothing. -/
def Heap.modifyObject (h : Heap) (r : Option Nat) (f : Session → Session) : Heap :=
  match r with
  | none => h
  | some i => h.modify i f

namespace Heap

variable {h : Heap} {r q : Option Nat} {f g : Session → Session}

theorem object?_modifyObject :
    (h.modifyObject r f).object? q = if r = q then (h.object? q).map f else h.object? q := by
  cases r with
  | none => cases q <;> rfl
  | some i =>
      cases q with
      | none => rfl
      | some j =>
          show (h.modify i f)[j]? = if some i = some j then (h[j]?).map f else h[j]?
          rw [List.getElem?_modify]
          by_cases hij : i = j <;> simp [hij]

/-- A change that leaves an object's uid leaves the uid of every object. -/
theorem map_uid_object?_modifyObject (hf : ∀ s, h.object? r = some s → (f s).uid = s.uid) :
    ((h.modifyObject r f).object? q).map Session.uid = (h.object? q).map Session.uid := by
  rw [object?_modifyObject]
  split
  · rename_i hrq
    subst q
    cases hs : h.object? r with
    | none => rfl
    | some s => exact congrArg some (hf s hs)
  · rfl

/-- A reference to a place in the heap is not a missing one. -/
theorem eq_none_of_object?_eq_none (hr : ∀ i ∈ r, i < h.length) (hs : h.object? r = none) :
    r = none := by
  cases r with
  | none => rfl
  | some i =>
      have hlt := hr i rfl
      have hobject : h.object? (some i) = some h[i] := List.getElem?_eq_getElem hlt
      exact absurd (hobject.symm.trans hs) (Option.some_ne_none h[i])

theorem mem_of_object? {s : Session} (hs : h.object? r = some s) : s ∈ h := by
  obtain ⟨i, -, hi⟩ := Option.bind_eq_some_iff.mp hs
  exact List.mem_of_getElem? hi

theorem forall_mem_modifyObject {Q : Session → Prop}
    (hf : ∀ s, h.object? r = some s → Q s → Q (f s)) (hQ : ∀ s ∈ h, Q s) :
    ∀ s ∈ h.modifyObject r f, Q s := by
  intro s hs
  obtain ⟨j, hj⟩ := List.mem_iff_getElem?.mp hs
  have hobject : (h.modifyObject r f).object? (some j) = some s := hj
  rw [object?_modifyObject] at hobject
  split at hobject
  · rename_i hj
    rw [← hj] at hobject
    obtain ⟨s', hs', rfl⟩ := Option.map_eq_some_iff.mp hobject
    exact hf s' hs' (hQ s' (mem_of_object? hs'))
  · exact hQ s (mem_of_object? hobject)

theorem length_modifyObject : (h.modifyObject r f).length = h.length := by
  cases r with
  | none => rfl
  | some i => exact List.length_modify f h i

theorem modifyObject_congr (hfg : ∀ s, h.object? r = some s → f s = g s) :
    h.modifyObject r f = h.modifyObject r g := by
  cases r with
  | none => rfl
  | some i =>
      refine List.ext_getElem? fun j => ?_
      show (h.modifyObject (some i) f).object? (some j) =
        (h.modifyObject (some i) g).object? (some j)
      rw [object?_modifyObject, object?_modifyObject]
      split
      · rename_i hij
        rw [← hij]
        cases hs : h.object? (some i) with
        | none => rfl
        | some s => exact congrArg some (hfg s hs)
      · rfl

theorem modifyObject_id (hf : ∀ s, h.object? r = some s → f s = s) : h.modifyObject r f = h := by
  rw [modifyObject_congr (g := id) hf]
  cases r with
  | none => rfl
  | some i => exact List.modify_id i h

end Heap

end Tootti
