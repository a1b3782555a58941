import Mathlib.Data.List.Perm.Basic
import Tootti.Machine.Run
import Tootti.Model.Phone

/-!
Deletions of rows of the Merge screen that are under way together.

A swipe asks the server to delete a row's track, and the answer removes the
row with the index the swipe had. Until then other answers and refreshes
change the rows, and nothing adjusts the index.
-/

namespace Tootti.RowDeletion

open Machine

/-- A deletion under way: the row's index at the swipe, the row's track, and
whether since then a row not below it was removed or the rows were cleared. -/
structure Pending where
  row : Nat
  track : Audio
  disturbed : Bool

def Pending.clear (q : Pending) : Pending := { q with disturbed := true }

def Pending.remove (row : Nat) (q : Pending) : Pending :=
  { q with disturbed := q.disturbed || row ≤ q.row }

structure State where
  phone : Phone
  /-- The queries of `refresh:` that are not answered. -/
  refreshing : Nat
  deletions : List Pending
  raised : Bool

inductive Event
  | commitEditing (row : Nat)
  | refresh
  /-- A refresh is answered, with the document if there is one. -/
  | refreshed (d : Option SessionDocument)
  | deleted (j : Nat)
  | failed (j : Nat)

def initial (p : Phone) : State := ⟨p, 0, [], false⟩

/-- Screen `k`, of session `sid`. Nothing happens after an exception. -/
def step (sid : String) (k : Nat) (s : State) (e : Event) : Option State :=
  if s.raised then none
  else
    match e with
    | .commitEditing row => do
        let track ← (s.phone.audioTracks k)[row]?
        let (_, phone) ← s.phone.commitEditing k row
        some { s with phone, deletions := s.deletions ++ [⟨row, track, false⟩] }
    | .refresh =>
        some { s with
          phone := s.phone.refresh k
          refreshing := s.refreshing + 1
          deletions := s.deletions.map .clear }
    | .refreshed d =>
        if s.refreshing = 0 then none
        else
          let phone := match d with
            | none => s.phone
            | some d => s.phone.finishRefresh k sid d
          some { s with phone, refreshing := s.refreshing - 1 }
    | .deleted j => do
        let q ← s.deletions[j]?
        match s.phone.removeRow k q.row with
        | none => some { s with raised := true }
        | some phone =>
            let deletions := (s.deletions.eraseIdx j).map (.remove q.row)
            some { s with phone, deletions }
    | .failed j => s.deletions[j]?.map fun _ => { s with deletions := s.deletions.eraseIdx j }

/-- `l'` is `l` without the track, or `l` if the track is not in it. -/
def Removes (track : Audio) (l l' : List Audio) : Prop :=
  (∃ i : Nat, l[i]? = some track ∧ l' = l.eraseIdx i) ∨ track ∉ l ∧ l' = l

/-- The completion of a deletion removes the track of its row. -/
def Right (k : Nat) (s : State) (e : Event) (s' : State) : Prop :=
  match e with
  | .deleted j => ∀ q ∈ s.deletions[j]?,
      s'.raised = false ∧ Removes q.track (s.phone.audioTracks k) (s'.phone.audioTracks k)
  | .failed _ => s'.phone.audioTracks k = s.phone.audioTracks k
  | _ => True

/-- The track is where it was at the swipe. -/
def InPlace (k : Nat) (s : State) : Event → Prop
  | .deleted j => ∀ q ∈ s.deletions[j]?, (s.phone.audioTracks k)[q.row]? = some q.track
  | _ => True

/-- Since the swipe there was no refresh, and no row was removed at or above
the row's. -/
def Undisturbed (s : State) : Event → Prop
  | .deleted j => ∀ q ∈ s.deletions[j]?, q.disturbed = false
  | _ => True

instance (k : Nat) (s : State) : (e : Event) → Decidable (InPlace k s e)
  | .deleted j =>
      inferInstanceAs
        (Decidable (∀ q ∈ s.deletions[j]?, (s.phone.audioTracks k)[q.row]? = some q.track))
  | .commitEditing _ | .refresh | .refreshed _ | .failed _ => .isTrue trivial

instance (s : State) : (e : Event) → Decidable (Undisturbed s e)
  | .deleted j => inferInstanceAs (Decidable (∀ q ∈ s.deletions[j]?, q.disturbed = false))
  | .commitEditing _ | .refresh | .refreshed _ | .failed _ => .isTrue trivial

/-- Removing by index removes a given track exactly if the track is there. -/
theorem removes_eraseIdx_iff {track : Audio} {l : List Audio} {row : Nat} (h : row < l.length) :
    Removes track l (l.eraseIdx row) ↔ l[row]? = some track := by
  refine ⟨?_, fun hrow => Or.inl ⟨row, hrow, rfl⟩⟩
  rintro (⟨i, hi, herase⟩ | ⟨-, hsame⟩)
  · obtain ⟨hlt, rfl⟩ := List.getElem?_eq_some_iff.mp hi
    -- what is taken out makes the list again, either way
    have hrow := List.getElem_cons_eraseIdx_perm h
    have htrack := List.getElem_cons_eraseIdx_perm hlt
    rw [herase] at hrow
    have hcount := (hrow.trans htrack.symm).count_eq l[row]
    rw [List.count_cons_self, List.count_cons] at hcount
    have heq : l[i] = l[row] := by
      by_contra hne
      simp [hne] at hcount
    rw [List.getElem?_eq_getElem h, heq]
  · have hlen := congrArg List.length hsame
    rw [List.length_eraseIdx_of_lt h] at hlen
    omega

/-! ### Steps -/

section Steps

variable {sid : String} {k : Nat} {s s' : State} {e : Event}

/-- What a completion does, once it is known which deletion it completes. -/
theorem step_deleted {j : Nat} (hstep : step sid k s (.deleted j) = some s') :
    ∃ q, s.deletions[j]? = some q ∧
      ((s.phone.audioTracks k).length ≤ q.row ∧ s' = { s with raised := true } ∨
        q.row < (s.phone.audioTracks k).length ∧ s'.raised = false ∧
          s'.deletions = (s.deletions.eraseIdx j).map (.remove q.row) ∧
          s'.phone.audioTracks k = (s.phone.audioTracks k).eraseIdx q.row ∧
          s'.phone.nextPlayer = s.phone.nextPlayer) := by
  rw [step] at hstep
  split at hstep
  · simp at hstep
  · rename_i hraised
    simp only [Option.bind_eq_bind, Option.bind_eq_some_iff] at hstep
    obtain ⟨q, hq, hstep⟩ := hstep
    refine ⟨q, hq, ?_⟩
    split at hstep <;> rename_i hphone
    · exact Or.inl ⟨Phone.removeRow_eq_none.mp hphone, (Option.some.inj hstep).symm⟩
    · obtain ⟨hlt, hrows, hplayer⟩ := Phone.removeRow_spec hphone
      obtain rfl := Option.some.inj hstep
      exact Or.inr ⟨hlt, Bool.eq_false_iff.mpr hraised, rfl, hrows, hplayer⟩

theorem right_iff_inPlace (hstep : step sid k s e = some s') : Right k s e s' ↔ InPlace k s e := by
  cases e with
  | deleted j =>
      obtain ⟨q, hq, h⟩ := step_deleted hstep
      simp only [Right, InPlace, hq, Option.mem_def, Option.some.injEq, forall_eq']
      rcases h with ⟨hle, rfl⟩ | ⟨hlt, hraised, -, hrows, -⟩
      · simp [List.getElem?_eq_none hle]
      · rw [hrows, removes_eraseIdx_iff hlt]
        exact and_iff_right hraised
  | failed j =>
      rw [step] at hstep
      split at hstep
      · simp at hstep
      · obtain ⟨q, -, rfl⟩ := Option.map_eq_some_iff.mp hstep
        exact iff_of_true rfl trivial
  | commitEditing | refresh | refreshed => exact Iff.rfl

/-- The rows are different objects, which were made before now. -/
structure Distinct (k : Nat) (p : Phone) : Prop where
  nodup : ((p.audioTracks k).map Audio.player).Nodup
  made : ∀ a ∈ p.audioTracks k, a.player < p.nextPlayer

/-- Where the tracks of the deletions under way are. A disturbed one has gone
up, if it is there at all. -/
structure Tracked (k : Nat) (s : State) : Prop where
  distinct : Distinct k s.phone
  made : ∀ q ∈ s.deletions, q.track.player < s.phone.nextPlayer
  still : ∀ q ∈ s.deletions, q.disturbed = false → (s.phone.audioTracks k)[q.row]? = some q.track
  moved : ∀ q ∈ s.deletions, q.disturbed = true →
    ∀ i : Nat, (s.phone.audioTracks k)[i]? = some q.track → i < q.row

theorem Distinct.unique {p : Phone} (h : Distinct k p) {a : Audio} {i j : Nat}
    (hi : (p.audioTracks k)[i]? = some a) (hj : (p.audioTracks k)[j]? = some a) : i = j := by
  obtain ⟨hlt, -⟩ := List.getElem?_eq_some_iff.mp hi
  exact (List.getElem?_inj hlt h.nodup.of_map).mp (hi.trans hj.symm)

theorem Tracked.commitEditing {row : Nat} (h : Tracked k s)
    (hstep : step sid k s (.commitEditing row) = some s') : Tracked k s' := by
  rw [step] at hstep
  split at hstep
  · simp at hstep
  · simp only [Option.bind_eq_bind, Option.bind_eq_some_iff, Option.some.injEq] at hstep
    obtain ⟨track, htrack, ⟨d, phone⟩, hcommit, rfl⟩ := hstep
    obtain ⟨-, -, -, -, -, hrows, -, -, hplayer⟩ := Phone.commitEditing_spec hcommit
    have hnew : ∀ q ∈ s.deletions ++ [⟨row, track, false⟩],
        q ∈ s.deletions ∨ q = ⟨row, track, false⟩ := fun q hq => by simpa using hq
    refine ⟨⟨hrows ▸ h.distinct.nodup, ?_⟩, fun q hq => ?_, fun q hq hstill => ?_,
      fun q hq hmoved => ?_⟩
    · rw [hrows, hplayer]
      exact h.distinct.made
    · rw [hplayer]
      rcases hnew q hq with hq | rfl
      · exact h.made q hq
      · exact h.distinct.made track (List.mem_of_getElem? htrack)
    · rw [hrows]
      rcases hnew q hq with hq | rfl
      · exact h.still q hq hstill
      · exact htrack
    · rw [hrows]
      rcases hnew q hq with hq | rfl
      · exact h.moved q hq hmoved
      · simp at hmoved

/-- Rows that are made later are appended, and are no deletion's tracks. -/
theorem Tracked.finishRefresh {d : SessionDocument} {n : Nat} (h : Tracked k s) :
    Tracked k { s with phone := s.phone.finishRefresh k sid d, refreshing := n } := by
  obtain ⟨new, hsub, hrows⟩ := Phone.audioTracks_finishRefresh (k := k) (p := s.phone) sid d
  have hplayer : (s.phone.finishRefresh k sid d).nextPlayer =
      s.phone.nextPlayer + d.guestPlayerList.length := rfl
  have hnew : ∀ a ∈ new, s.phone.nextPlayer ≤ a.player ∧
      a.player < s.phone.nextPlayer + d.guestPlayerList.length :=
    fun a ha => Phone.player_mem_rows (hsub.subset ha)
  refine ⟨⟨?_, fun a ha => ?_⟩, fun q hq => ?_, fun q hq hstill => ?_, fun q hq hmoved i hi => ?_⟩
  · rw [hrows, List.map_append, List.nodup_append]
    have hfresh := hsub.map Audio.player
    rw [Phone.map_player_rows] at hfresh
    refine ⟨h.distinct.nodup, (List.nodup_range' (s := _)).sublist hfresh, fun m hm n hn => ?_⟩
    obtain ⟨a, ha, rfl⟩ := List.mem_map.mp hm
    obtain ⟨b, hb, rfl⟩ := List.mem_map.mp hn
    exact Nat.ne_of_lt (Nat.lt_of_lt_of_le (h.distinct.made a ha) (hnew b hb).1)
  · rw [hplayer]
    rcases List.mem_append.mp (hrows ▸ ha) with ha | ha
    · exact Nat.lt_of_lt_of_le (h.distinct.made a ha) (Nat.le_add_right _ _)
    · exact (hnew a ha).2
  · exact Nat.lt_of_lt_of_le (h.made q hq) (Nat.le_add_right _ _)
  · have hplace := h.still q hq hstill
    obtain ⟨hlt, -⟩ := List.getElem?_eq_some_iff.mp hplace
    rw [hrows, List.getElem?_append_left hlt]
    exact hplace
  · rw [hrows] at hi
    by_cases hlt : i < (s.phone.audioTracks k).length
    · rw [List.getElem?_append_left hlt] at hi
      exact h.moved q hq hmoved i hi
    · rw [List.getElem?_append_right (Nat.le_of_not_lt hlt)] at hi
      exact absurd (h.made q hq) (Nat.not_lt.mpr (hnew _ (List.mem_of_getElem? hi)).1)

theorem Tracked.deleted {j : Nat} (h : Tracked k s)
    (hstep : step sid k s (.deleted j) = some s') : Tracked k s' := by
  obtain ⟨r, hr, ⟨-, rfl⟩ | ⟨hlt, -, hdeletions, hrows, hplayer⟩⟩ := step_deleted hstep
  · exact ⟨h.distinct, h.made, h.still, h.moved⟩
  -- the deletions that remain, before they were marked
  have hold : ∀ q' ∈ s'.deletions, ∃ q ∈ s.deletions, q.remove r.row = q' := by
    intro q' hq'
    rw [hdeletions] at hq'
    obtain ⟨q, hq, rfl⟩ := List.mem_map.mp hq'
    exact ⟨q, List.mem_of_mem_eraseIdx hq, rfl⟩
  refine ⟨⟨?_, fun a ha => ?_⟩, fun q' hq' => ?_, fun q' hq' hstill => ?_,
    fun q' hq' hmoved i hi => ?_⟩
  · rw [hrows]
    exact h.distinct.nodup.sublist ((List.eraseIdx_sublist _ _).map Audio.player)
  · rw [hplayer]
    exact h.distinct.made a (List.mem_of_mem_eraseIdx (hrows ▸ ha))
  · obtain ⟨q, hq, rfl⟩ := hold q' hq'
    rw [hplayer]
    exact h.made q hq
  · obtain ⟨q, hq, rfl⟩ := hold q' hq'
    obtain ⟨hbefore, habove⟩ : q.disturbed = false ∧ q.row < r.row := by
      simpa [Pending.remove] using hstill
    rw [hrows]
    exact (List.getElem?_eraseIdx_of_lt habove).trans (h.still q hq hbefore)
  · obtain ⟨q, hq, rfl⟩ := hold q' hq'
    show i < q.row
    rw [hrows, List.getElem?_eraseIdx] at hi
    have hmark : q.disturbed = true ∨ r.row ≤ q.row := by simpa [Pending.remove] using hmoved
    cases hbefore : q.disturbed with
    | true =>
        -- it had gone up already
        split at hi
        · exact h.moved q hq hbefore i hi
        · exact Nat.lt_of_succ_lt (h.moved q hq hbefore (i + 1) hi)
    | false =>
        have hle : r.row ≤ q.row := by simpa [hbefore] using hmark
        have hplace := h.still q hq hbefore
        split at hi
        · rename_i hir
          have := h.distinct.unique hi hplace
          omega
        · have := h.distinct.unique hi hplace
          omega

theorem Tracked.step (h : Tracked k s) (hstep : step sid k s e = some s') : Tracked k s' := by
  cases e with
  | commitEditing row => exact h.commitEditing hstep
  | deleted j => exact h.deleted hstep
  | refresh =>
      unfold RowDeletion.step at hstep
      split at hstep
      · simp at hstep
      · obtain rfl := Option.some.inj hstep
        refine ⟨⟨by simp, by simp⟩, fun q' hq' => ?_, fun q' hq' hstill => ?_, by simp⟩
        · obtain ⟨q, hq, rfl⟩ := List.mem_map.mp hq'
          exact h.made q hq
        · obtain ⟨q, -, rfl⟩ := List.mem_map.mp hq'
          simp [Pending.clear] at hstill
  | refreshed d =>
      unfold RowDeletion.step at hstep
      split at hstep
      · simp at hstep
      · dsimp only at hstep
        split at hstep
        · simp at hstep
        · obtain rfl := Option.some.inj hstep
          cases d with
          | none => exact ⟨h.distinct, h.made, h.still, h.moved⟩
          | some d => exact h.finishRefresh
  | failed j =>
      unfold RowDeletion.step at hstep
      split at hstep
      · simp at hstep
      · obtain ⟨q, -, rfl⟩ := Option.map_eq_some_iff.mp hstep
        have hold : ∀ q ∈ s.deletions.eraseIdx j, q ∈ s.deletions :=
          fun q hq => List.mem_of_mem_eraseIdx hq
        exact ⟨h.distinct, fun q hq => h.made q (hold q hq),
          fun q hq => h.still q (hold q hq), fun q hq => h.moved q (hold q hq)⟩

theorem everyStep_right_iff (s : State) (es : List Event) :
    EveryStep (step sid k) (Right k) s es ↔ Meets (step sid k) (InPlace k) s es := by
  have hagree : ∀ s e s', True → step sid k s e = some s' → (Right k s e s' ↔ InPlace k s e) :=
    fun s e s' _ hstep => right_iff_inPlace hstep
  exact everyStep_iff_of_invariant hagree (fun _ _ _ _ _ _ => trivial) trivial es

theorem inPlace_iff_undisturbed (h : Tracked k s) : InPlace k s e ↔ Undisturbed s e := by
  cases e with
  | deleted j =>
      refine forall₂_congr fun q hq => ?_
      have hmem : q ∈ s.deletions := List.mem_of_getElem? hq
      cases hmark : q.disturbed with
      | false => exact iff_of_true (h.still q hmem hmark) rfl
      | true =>
          refine iff_of_false (fun hplace => ?_) (by simp)
          exact absurd (h.moved q hmem hmark q.row hplace) (Nat.lt_irrefl _)
  | commitEditing | refresh | refreshed | failed => exact Iff.rfl

end Steps

/-- In every run of the Merge screen, each completed deletion removes its own
track exactly if the track is where it was at the swipe. Where the rows are
different objects at first, that is exactly if no completed deletion comes
after a refresh, or after the removal of a row at or above its own. -/
theorem deletion_removes_its_track_iff (sid : String) (k : Nat) (p : Phone) (es : List Event) :
    (EveryStep (step sid k) (Right k) (initial p) es ↔
      Meets (step sid k) (InPlace k) (initial p) es) ∧
    (Distinct k p → (EveryStep (step sid k) (Right k) (initial p) es ↔
      Meets (step sid k) Undisturbed (initial p) es)) := by
  refine ⟨everyStep_right_iff (initial p) es, fun hdistinct => ?_⟩
  have hagree : ∀ s e s', Tracked k s → step sid k s e = some s' →
      (Right k s e s' ↔ Undisturbed s e) :=
    fun s e s' h hstep => (right_iff_inPlace hstep).trans (inPlace_iff_undisturbed h)
  have hinitial : Tracked k (initial p) :=
    ⟨hdistinct, by simp [initial], by simp [initial], by simp [initial]⟩
  exact everyStep_iff_of_invariant hagree (fun _ _ _ h hstep _ => h.step hstep) hinitial es

/-- The Merge screen of a user who joined a session and confirmed tracks. -/
def confirmed (tracks : List Audio) : Phone :=
  let d : SessionDocument := ⟨"song", "host", [], .empty, [], .empty, false, []⟩
  let p := ((Phone.initial ⟨"ann", "ann"⟩).joinSession "s" d).viewDidLoad .merge
  { p.confirmTracks 0 tracks with nextPlayer := p.nextPlayer + tracks.length }

def take (n : Nat) : Audio := ⟨toString n, "ann", "ann", some (.document (toString n)), n + 2⟩

/-- Two deletions, completed from below. -/
theorem deletions_from_below :
    EveryStep (step "s" 0) (Right 0) (initial (confirmed [take 0, take 1, take 2]))
      [.commitEditing 0, .commitEditing 1, .deleted 1, .deleted 0] := by
  let es : List Event := [.commitEditing 0, .commitEditing 1, .deleted 1, .deleted 0]
  refine ((deletion_removes_its_track_iff "s" 0 _ es).2 ⟨by decide, by decide⟩).mpr ?_
  decide

/-- The row of the second take is deleted after that of the first, and its
completion removes the third take. -/
theorem another_track_removed :
    ¬ ∀ (sid : String) (k : Nat) (p : Phone) (es : List Event),
      EveryStep (step sid k) (Right k) (initial p) es := by
  intro h
  have hall := h "s" 0 (confirmed [take 0, take 1, take 2])
    [.commitEditing 0, .commitEditing 1, .deleted 0, .deleted 0]
  exact absurd ((everyStep_right_iff _ _).mp hall) (by decide)

end Tootti.RowDeletion
