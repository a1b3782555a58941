import Tootti.Model.Session

/-!
Two ways to remove a player, on strings that are objects.

`deleteGuestPerformer:` looks for a uid by `==`, which asks whether two strings
are one object; `updateCurrentPlayerListWithActivity:` looks for it by
`isEqualToString:`, which compares their characters. Both then delete by
`removeObject:`, for which two dictionaries are equal if their strings are. A
string here is the identity of an object, of any type, and `content` tells the
characters of each.
-/

namespace Tootti.Deletions

open Machine

structure PlayerObject (ι : Type*) where
  username : ι
  uid : ι
  status : Bool

/-- No comparison of this module asks which object a `url` is. -/
structure GuestTrackObject (ι : Type*) where
  audioName : ι
  uid : ι
  username : ι
  url : Option AudioURL

/-- The two lists of a Session object. -/
structure Lists (ι : Type*) where
  guestPlayerList : List (GuestTrackObject ι)
  currentPlayerList : List (PlayerObject ι)

section Deletions

variable {ι : Type*} (content : ι → String)

def PlayerObject.value (p : PlayerObject ι) : Player :=
  ⟨content p.username, content p.uid, p.status⟩

def GuestTrackObject.value (e : GuestTrackObject ι) : GuestTrack :=
  ⟨content e.audioName, content e.uid, content e.username, e.url⟩

/-- The loop over a list that deletes from a copy of it. -/
def deleteFrom {α β : Type*} [DecidableEq β] (value : α → β) (p : α → Bool) (l : List α) : List α :=
  l.foldl (fun copy x => if p x then removeEqual value copy x else copy) l

/-- `==`, for which nil is no object. -/
def same [DecidableEq ι] (uid : Option ι) (s : ι) : Bool := some s = uid

def isEqualToString (uid : Option ι) (s : ι) : Bool := some (content s) = uid.map content

/-- The lists it leaves, and sends. -/
def deleteGuestPerformer [DecidableEq ι] (uid : Option ι) (s : Lists ι) : Lists ι where
  guestPlayerList :=
    deleteFrom (GuestTrackObject.value content) (fun e => same uid e.uid) s.guestPlayerList
  currentPlayerList :=
    deleteFrom (PlayerObject.value content) (fun p => same uid p.uid) s.currentPlayerList

/-- The list it leaves, and sends; `none` when storing a missing username or uid
raises. -/
def updateCurrentPlayerListWithActivity (isActive : Bool) (username uid : Option ι)
    (l : List (PlayerObject ι)) : Option (List (PlayerObject ι)) :=
  if isActive then
    match username, uid with
    | some username, some uid => some (l ++ [⟨username, uid, false⟩])
    | _, _ => none
  else some (deleteFrom (PlayerObject.value content) (fun p => isEqualToString content uid p.uid) l)

/-- The two leave equal lists of players, and `deleteGuestPerformer:` the tracks
of the other users, in order. -/
structure Agree [DecidableEq ι] (uid : Option ι) (s : Lists ι) : Prop where
  currentPlayerList : ∀ username,
    some ((deleteGuestPerformer content uid s).currentPlayerList.map (PlayerObject.value content)) =
      (updateCurrentPlayerListWithActivity content false username uid s.currentPlayerList).map
        (List.map (PlayerObject.value content))
  guestPlayerList :
    (deleteGuestPerformer content uid s).guestPlayerList.map (GuestTrackObject.value content) =
      (s.guestPlayerList.filter fun e => !isEqualToString content uid e.uid).map
        (GuestTrackObject.value content)

/-- Every entry with the characters of the uid is equal to one whose uid is that
very object. -/
def Identified {α β : Type*} (key : α → ι) (value : α → β) (uid : Option ι) (l : List α) : Prop :=
  ∀ x ∈ l, some (content (key x)) = uid.map content →
    ∃ y ∈ l, some (key y) = uid ∧ value x = value y

/-! ### One list -/

section List

variable {α β : Type*} [DecidableEq β] {content} {uid : Option ι} {key : α → ι} {value : α → β}

/-- Entries are found by characters, and so are all that are equal to them. -/
theorem deleteFrom_isEqualToString
    (hkey : ∀ x y, value x = value y → content (key x) = content (key y)) (l : List α) :
    deleteFrom value (fun x => isEqualToString content uid (key x)) l =
      l.filter fun x => !isEqualToString content uid (key x) := by
  rw [deleteFrom, foldl_removeEqual]
  refine List.filter_congr fun x hx => congrArg not ?_
  rw [Bool.eq_iff_iff]
  simp only [List.any_eq_true, Bool.and_eq_true, decide_eq_true_eq, isEqualToString]
  constructor
  · rintro ⟨y, -, hy, hxy⟩
    rw [hkey x y hxy, hy]
  · exact fun h => ⟨x, hx, h, rfl⟩

/-- Entries are found by identity: that deletes all entries of the user only if
each is equal to one that is found. -/
theorem deleteFrom_same_iff [DecidableEq ι]
    (hkey : ∀ x y, value x = value y → content (key x) = content (key y)) (l : List α) :
    (deleteFrom value (fun x => same uid (key x)) l).map value =
        (l.filter fun x => !isEqualToString content uid (key x)).map value ↔
      Identified content key value uid l := by
  have hfound (x y : α) (hxy : value x = value y) : isEqualToString content uid (key x) =
      isEqualToString content uid (key y) := by
    rw [isEqualToString, isEqualToString, hkey x y hxy]
  rw [deleteFrom, foldl_removeEqual, map_filter_eq_iff]
  case hp =>
    intro x y hxy
    rw [hxy]
  case hq =>
    intro x y hxy
    rw [hfound x y hxy]
  refine forall₂_congr fun x _ => ?_
  rw [Bool.not_inj_iff, Bool.eq_iff_iff]
  simp only [List.any_eq_true, Bool.and_eq_true, decide_eq_true_eq, same, isEqualToString]
  refine ⟨fun h => h.mpr, fun h => ⟨?_, h⟩⟩
  -- an entry that is equal to one found has the same characters
  rintro ⟨y, -, hy, hxy⟩
  rw [hkey x y hxy, ← hy, Option.map_some]

end List

/-! ### Both lists -/

variable {content}

theorem PlayerObject.content_uid (p q : PlayerObject ι) (h : p.value content = q.value content) :
    content p.uid = content q.uid :=
  congrArg Player.uid h

theorem GuestTrackObject.content_uid (e f : GuestTrackObject ι)
    (h : e.value content = f.value content) : content e.uid = content f.uid :=
  congrArg GuestTrack.uid h

/-- On the characters, this is what the operation does in the other modules. -/
theorem map_value_updateCurrentPlayerListWithActivity (isActive : Bool) (username uid : Option ι)
    (l : List (PlayerObject ι)) :
    (updateCurrentPlayerListWithActivity content isActive username uid l).map
        (List.map (PlayerObject.value content)) =
      Roster.withActivity isActive (username.map content) (uid.map content)
        (l.map (PlayerObject.value content)) := by
  cases isActive with
  | true =>
      cases username with
      | none => rfl
      | some username =>
          cases uid with
          | none => rfl
          | some uid => exact congrArg some List.map_append
  | false =>
      refine congrArg some ?_
      rw [deleteFrom_isEqualToString PlayerObject.content_uid, Roster.removePlayer_eq_filter,
        List.filter_map]
      refine congrArg (List.map _) (List.filter_congr fun p _ => ?_)
      rw [Function.comp_apply, isEqualToString, ← decide_not]
      rfl

theorem agree_iff_identified [DecidableEq ι] (content : ι → String) (uid : Option ι)
    (s : Lists ι) :
    Agree content uid s ↔
      Identified content PlayerObject.uid (PlayerObject.value content) uid s.currentPlayerList ∧
        Identified content GuestTrackObject.uid (GuestTrackObject.value content) uid
          s.guestPlayerList := by
  rw [← deleteFrom_same_iff PlayerObject.content_uid,
    ← deleteFrom_same_iff GuestTrackObject.content_uid,
    ← deleteFrom_isEqualToString PlayerObject.content_uid]
  exact ⟨fun h => ⟨Option.some.inj (h.currentPlayerList none), h.guestPlayerList⟩,
    fun h => ⟨fun _ => congrArg some h.1, h.2⟩⟩

end Deletions

/-- The uid of an entry that a snapshot brought, and the same characters in another object. -/
theorem other_object_not_deleted :
    let content : Nat → String := fun s => if s = 0 then "ann" else "u"
    let s : Lists Nat := ⟨[], [⟨0, 1, false⟩]⟩
    (deleteGuestPerformer content (some 2) s).currentPlayerList.length = 1 ∧
      (updateCurrentPlayerListWithActivity content false (some 0) (some 2)
        s.currentPlayerList).map List.length = some 0 ∧
      ¬ Agree content (some 2) s := by
  refine ⟨by decide, by decide, fun h => ?_⟩
  exact absurd (h.currentPlayerList none) (by decide)

end Tootti.Deletions
