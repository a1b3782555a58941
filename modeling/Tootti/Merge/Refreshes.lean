import Tootti.Machine.Run
import Tootti.Model.Phone

/-!
Refreshing the Merge screen several times.

`refresh:` clears the rows when it is tapped and adds rows when its read
returns, without looking whether another refresh has added some in between. The
table is reloaded, and the activity indicator stopped, in the round that makes
the rows as many as the entries of the document; without entries the indicator
is stopped at once, and the table reloaded with the alert's button.
-/

namespace Tootti.Refreshes

open Machine

structure State where
  phone : Phone
  /-- The reads that have not returned. -/
  refreshing : Nat
  /-- The alerts that the session has no tracks. -/
  alerts : Nat
  /-- The table shows the rows there are. -/
  reloaded : Bool
  /-- The indicator, which all refreshes share, is animating. -/
  spinning : Bool

inductive Event
  | refresh
  /-- A read returns; all of them bring the same document. -/
  | refreshed
  | okTapped
  deriving DecidableEq, Repr

/-- What a round of the loop does to `reloaded` and `spinning`. -/
def round (rows entries : Nat) (flags : Bool × Bool) (i : Nat) : Bool × Bool :=
  if rows + (i + 1) = entries then (true, false) else (false, flags.2)

def rounds (rows entries : Nat) (flags : Bool × Bool) : Bool × Bool :=
  (List.range entries).foldl (round rows entries) flags

section Runs

variable (k : Nat) (sid : String) (d : SessionDocument)

/-- Screen `k`, in session `sid` with document `d`. -/
def step (s : State) : Event → Option State
  | .refresh =>
    some { s with
      phone := s.phone.refresh k
      refreshing := s.refreshing + 1
      reloaded := s.reloaded && (s.phone.audioTracks k).isEmpty
      spinning := true }
  | .refreshed =>
    if s.refreshing = 0 then none
    else
      let entries := d.guestPlayerList.length
      let flags := rounds (s.phone.audioTracks k).length entries (s.reloaded, s.spinning)
      some
        { phone := s.phone.finishRefresh k sid d
          refreshing := s.refreshing - 1
          alerts := if entries = 0 then s.alerts + 1 else s.alerts
          reloaded := flags.1
          spinning := if entries = 0 then false else flags.2 }
  | .okTapped =>
    if s.alerts = 0 then none else some { s with alerts := s.alerts - 1, reloaded := true }

/-- The screen before the first tap, with any rows. -/
def start (p : Phone) : State := ⟨p, 0, 0, true, false⟩

/-- One row for each entry of the document in its order, shown, and no indicator. -/
structure Right (s : State) : Prop where
  rows_eq : (s.phone.audioTracks k).map Audio.playerDict = d.guestPlayerList
  reloaded : s.reloaded = true
  stopped : s.spinning = false

variable {k sid d} {s s' t : State} {e : Event} {es : List Event}

/-! ### What a step does -/

theorem map_playerDict_rows (player : Nat) (l : List GuestTrack) :
    (Phone.rows player l).map Audio.playerDict = l := by
  rw [Phone.rows, List.map_map]
  exact List.zipIdx_map_fst 0 l

theorem audioTracks_finishRefresh_of_lt {p : Phone} (hk : k < p.screens.length) :
    (p.finishRefresh k sid d).audioTracks k =
      p.audioTracks k ++ Phone.rows p.nextPlayer d.guestPlayerList := by
  simp [Phone.audioTracks, Phone.finishRefresh, List.getElem?_eq_getElem hk]

theorem step_refreshed (h : step k sid d s .refreshed = some s') :
    s.refreshing ≠ 0 ∧ s'.phone = s.phone.finishRefresh k sid d ∧
      s'.refreshing = s.refreshing - 1 ∧
      (s'.reloaded, s'.spinning) =
        (if d.guestPlayerList = [] then (s.reloaded, false)
          else rounds (s.phone.audioTracks k).length d.guestPlayerList.length
            (s.reloaded, s.spinning)) ∧
      s'.alerts = if d.guestPlayerList = [] then s.alerts + 1 else s.alerts := by
  simp only [step] at h
  split at h
  · cases h
  · rename_i hsome
    obtain rfl := Option.some.inj h
    refine ⟨hsome, rfl, rfl, ?_, ?_⟩ <;>
      by_cases hd : d.guestPlayerList = [] <;> simp [hd, rounds]

theorem step_okTapped (h : step k sid d s .okTapped = some s') :
    s.alerts ≠ 0 ∧ s' = { s with alerts := s.alerts - 1, reloaded := true } := by
  simp only [step] at h
  split at h
  · cases h
  · rename_i hsome
    exact ⟨hsome, (Option.some.inj h).symm⟩

theorem screens_step (h : step k sid d s e = some s') :
    s'.phone.screens.length = s.phone.screens.length := by
  cases e with
  | refresh =>
      obtain rfl := Option.some.inj h
      simp [Phone.refresh, Phone.modifyScreen]
  | refreshed =>
      rw [(step_refreshed h).2.1]
      simp [Phone.finishRefresh]
  | okTapped => rw [(step_okTapped h).2]

/-- The reads begun and the reads returned balance. -/
theorem refreshing_step (h : step k sid d s e = some s') :
    s'.refreshing + [e].count .refreshed = s.refreshing + [e].count .refresh := by
  cases e with
  | refresh =>
      obtain rfl := Option.some.inj h
      rfl
  | refreshed =>
      obtain ⟨hsome, -, hless, -⟩ := step_refreshed h
      have hone : [Event.refreshed].count .refreshed = 1 := rfl
      have hnone : [Event.refreshed].count .refresh = 0 := rfl
      omega
  | okTapped =>
      rw [(step_okTapped h).2]
      rfl

theorem refreshing_run (hrun : run (step k sid d) s es = some t) :
    t.refreshing + es.count .refreshed = s.refreshing + es.count .refresh := by
  refine run_history (I := fun past m =>
    m.refreshing + past.count .refreshed = s.refreshing + past.count .refresh)
    (fun past m e m' _ hm hstep => ?_) [] hrun rfl
  have hone := refreshing_step hstep
  rw [List.count_append, List.count_append]
  omega

theorem screens_run (h : run (step k sid d) s es = some t) :
    t.phone.screens.length = s.phone.screens.length :=
  run_invariant (I := fun m => m.phone.screens.length = s.phone.screens.length)
    (fun _ _ _ hm hstep => (screens_step hstep).trans hm) h rfl

/-! ### With entries -/

theorem rounds_of_empty {entries : Nat} (h : entries ≠ 0) (flags : Bool × Bool) :
    rounds 0 entries flags = (true, false) := by
  obtain ⟨n, rfl⟩ := Nat.exists_eq_succ_of_ne_zero h
  rw [rounds, List.range_succ, List.foldl_append]
  simp [round]

/-- Since the last tap `m` reads have returned, each of which added its rows. -/
structure Returned (k : Nat) (d : SessionDocument) (m : Nat) (s : State) : Prop where
  rows_eq : (s.phone.audioTracks k).map Audio.playerDict =
    (List.replicate m d.guestPlayerList).flatten
  shown : m = 1 → s.reloaded = true ∧ s.spinning = false
  no_alert : s.alerts = 0
  screen : k < s.phone.screens.length

theorem Returned.of_refresh (hs : s.alerts = 0) (hk : k < s.phone.screens.length)
    (hstep : step k sid d s .refresh = some s') : Returned k d 0 s' := by
  have hscreen : k < s'.phone.screens.length := by rwa [screens_step hstep]
  obtain rfl := Option.some.inj hstep
  refine ⟨?_, fun hone => absurd hone Nat.zero_ne_one, hs, hscreen⟩
  exact congrArg (List.map Audio.playerDict) Phone.audioTracks_refresh

theorem Returned.of_step {m : Nat} (hd : d.guestPlayerList ≠ []) (h : Returned k d m s)
    (he : e ≠ .refresh) (hstep : step k sid d s e = some s') :
    Returned k d (m + [e].count .refreshed) s' := by
  cases e with
  | refresh => exact absurd rfl he
  | refreshed =>
      obtain ⟨-, hphone, -, hflags, halerts⟩ := step_refreshed hstep
      rw [if_neg hd] at hflags halerts
      constructor
      case rows_eq =>
        rw [hphone, audioTracks_finishRefresh_of_lt h.screen, List.map_append, h.rows_eq,
          map_playerDict_rows]
        exact (List.flatten_concat (L := List.replicate m _)).symm.trans
          (by rw [← List.replicate_succ']; rfl)
      case shown =>
        intro hone
        have hzero : m = 0 := by
          have hcount : [Event.refreshed].count .refreshed = 1 := rfl
          omega
        have hnone : (s.phone.audioTracks k).length = 0 := by
          have hlength := congrArg List.length h.rows_eq
          simpa [hzero] using hlength
        rw [hnone, rounds_of_empty (mt List.length_eq_zero_iff.mp hd)] at hflags
        exact Prod.mk.inj hflags
      case no_alert => rw [halerts, h.no_alert]
      case screen => rw [screens_step hstep]; exact h.screen
  | okTapped => exact absurd h.no_alert (step_okTapped hstep).1

theorem Returned.of_run (hd : d.guestPlayerList ≠ []) (h : Returned k d 0 s)
    (hes : .refresh ∉ es) (hrun : run (step k sid d) s es = some t) :
    Returned k d (es.count .refreshed) t := by
  refine run_history (I := fun past m => Returned k d (past.count .refreshed) m)
    (fun past m e m' he hm hstep => ?_) [] hrun h
  rw [List.count_append]
  exact hm.of_step hd (fun hrefresh => hes (hrefresh ▸ he)) hstep

theorem Returned.right_iff {m : Nat} (hd : d.guestPlayerList ≠ []) (h : Returned k d m s) :
    Right k d s ↔ m = 1 := by
  constructor
  · intro hright
    have hlength := congrArg List.length (h.rows_eq.symm.trans hright.rows_eq)
    have hpos := List.length_pos_iff.mpr hd
    rw [List.length_flatten, List.map_replicate, List.sum_replicate_nat] at hlength
    exact Nat.eq_of_mul_eq_mul_right hpos (by omega)
  · rintro rfl
    obtain ⟨hreloaded, hstopped⟩ := h.shown rfl
    exact ⟨by rw [h.rows_eq]; simp, hreloaded, hstopped⟩

theorem no_alert_run (hd : d.guestPlayerList ≠ []) (hs : s.alerts = 0)
    (hrun : run (step k sid d) s es = some t) : t.alerts = 0 := by
  refine run_invariant (I := fun m => m.alerts = 0) (fun m e m' hm hstep => ?_) hrun hs
  cases e with
  | refresh =>
      obtain rfl := Option.some.inj hstep
      exact hm
  | refreshed =>
      obtain ⟨-, -, -, -, halerts⟩ := step_refreshed hstep
      rw [halerts, if_neg hd, hm]
  | okTapped => exact absurd hm (step_okTapped hstep).1

/-! ### Without entries -/

/-- No rows, and an indicator only while a read is under way. -/
structure Bare (k : Nat) (s : State) : Prop where
  no_rows : s.phone.audioTracks k = []
  stopped : s.refreshing = 0 → s.spinning = false
  screen : k < s.phone.screens.length

theorem Bare.of_refresh (hk : k < s.phone.screens.length)
    (hstep : step k sid d s .refresh = some s') : Bare k s' := by
  have hscreen : k < s'.phone.screens.length := by rwa [screens_step hstep]
  obtain rfl := Option.some.inj hstep
  exact ⟨Phone.audioTracks_refresh, fun hzero => absurd hzero (Nat.succ_ne_zero _), hscreen⟩

theorem Bare.of_step (hd : d.guestPlayerList = []) (h : Bare k s)
    (hstep : step k sid d s e = some s') :
    Bare k s' ∧ (s'.reloaded = true ↔ s.reloaded = true ∨ e = .okTapped) := by
  have hscreen : k < s'.phone.screens.length := by
    rw [screens_step hstep]
    exact h.screen
  cases e with
  | refresh =>
      refine ⟨Bare.of_refresh h.screen hstep, ?_⟩
      obtain rfl := Option.some.inj hstep
      simp [h.no_rows]
  | refreshed =>
      obtain ⟨-, hphone, -, hflags, -⟩ := step_refreshed hstep
      rw [if_pos hd] at hflags
      obtain ⟨hreloaded, hstopped⟩ := Prod.mk.inj hflags
      refine ⟨⟨?_, fun _ => hstopped, hscreen⟩, by simp [hreloaded]⟩
      rw [hphone, audioTracks_finishRefresh_of_lt h.screen, h.no_rows, hd]
      rfl
  | okTapped =>
      obtain ⟨-, rfl⟩ := step_okTapped hstep
      exact ⟨⟨h.no_rows, h.stopped, hscreen⟩, by simp⟩

theorem Bare.of_run (hd : d.guestPlayerList = []) (h : Bare k s)
    (hrun : run (step k sid d) s es = some t) :
    Bare k t ∧ (t.reloaded = true ↔ s.reloaded = true ∨ .okTapped ∈ es) := by
  refine run_history (I := fun past m =>
    Bare k m ∧ (m.reloaded = true ↔ s.reloaded = true ∨ .okTapped ∈ past))
    (fun past m e m' _ hm hstep => ?_) [] hrun ⟨h, by simp⟩
  obtain ⟨hbare, hone⟩ := hm.1.of_step hd hstep
  refine ⟨hbare, ?_⟩
  rw [hone, hm.2, List.mem_append, List.mem_singleton, or_assoc, eq_comm (a := e)]

/-! ### Runs -/

/-- Nothing can happen before the first tap. -/
theorem exists_cons_of_run {p : Phone} (hes : es ≠ [])
    (hrun : run (step k sid d) (start p) es = some t) :
    ∃ s' rest, es = .refresh :: rest ∧ step k sid d (start p) .refresh = some s' ∧
      run (step k sid d) s' rest = some t := by
  obtain ⟨e, rest, rfl⟩ := List.exists_cons_of_ne_nil hes
  obtain ⟨s', hstep, hrest⟩ := run_cons_eq_some.mp hrun
  cases e with
  | refresh => exact ⟨s', rest, rfl, hstep, hrest⟩
  | refreshed => exact absurd rfl (step_refreshed hstep).1
  | okTapped => exact absurd rfl (step_okTapped hstep).1

/-- Without tracks the rows are gone with the first tap, and the table shows
that if there were none, or at the alert's button. -/
theorem right_iff_of_no_entries {p : Phone} (hd : d.guestPlayerList = [])
    (hk : k < p.screens.length) (hes : es ≠ [])
    (hrun : run (step k sid d) (start p) es = some t) (hdone : t.refreshing = 0) :
    Right k d t ↔ p.audioTracks k = [] ∨ .okTapped ∈ es := by
  obtain ⟨s', rest, rfl, hstep, hrest⟩ := exists_cons_of_run hes hrun
  obtain ⟨ht, hshown⟩ := (Bare.of_refresh hk hstep).of_run hd hrest
  obtain rfl := Option.some.inj hstep
  have hright : Right k d t ↔ t.reloaded = true :=
    ⟨Right.reloaded, fun h => ⟨by rw [ht.no_rows, hd]; rfl, h, ht.stopped hdone⟩⟩
  rw [hright, hshown]
  simp [start]

/-- With tracks it matters how many reads return after the last tap. -/
theorem right_iff_of_entries {p : Phone} (hd : d.guestPlayerList ≠ [])
    (hk : k < p.screens.length) {before after : List Event} (hafter : .refresh ∉ after)
    (hrun : run (step k sid d) (start p) (before ++ .refresh :: after) = some t)
    (hdone : t.refreshing = 0) :
    Right k d t ↔ before.count .refresh = before.count .refreshed := by
  obtain ⟨m, hbefore, hlast⟩ := run_append_eq_some.mp hrun
  obtain ⟨m', hstep, hrest⟩ := run_cons_eq_some.mp hlast
  have hscreen : k < m.phone.screens.length := by rwa [screens_run hbefore]
  have hcleared : Returned k d 0 m' := .of_refresh (no_alert_run hd rfl hbefore) hscreen hstep
  rw [(hcleared.of_run hd hafter hrest).right_iff hd]
  -- as many reads return after the last tap as were under way, and its own
  have hbegun := refreshing_run hbefore
  have hreturned := refreshing_run hlast
  rw [hdone, List.count_cons_self, List.count_eq_zero.mpr hafter,
    List.count_cons_of_ne (by decide)] at hreturned
  have hstart : (start p).refreshing = 0 := rfl
  omega

end Runs

/-! ### Two runs -/

/-- A phone on its Merge screen, which has no rows. -/
def mergeOpened : Phone := ⟨⟨"h", "ann"⟩, [], none, [⟨.merge, none, [], []⟩], 0⟩

def oneTrack : SessionDocument :=
  { sessionName := "jam"
    hostUid := "h"
    guestPlayerList := [⟨"take", "h", "ann", some (.download "h/s/take.wav")⟩]
    clickTrackRef := .empty
    recordedAudioDict := []
    finalMergedResultRef := .empty
    hostStartRecording := false
    currentPlayerList := [] }

end Tootti.Refreshes
