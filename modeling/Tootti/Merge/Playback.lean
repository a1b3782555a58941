import Tootti.Machine.Keyed
import Tootti.Machine.Run
import Mathlib.Algebra.Order.Field.Rat
import Mathlib.Tactic.Linarith

/-!
Playing the selected tracks on the Merge screen.

A tap on play starts every selected track from its beginning, and a timer looks
once a second whether any of them still plays. Pausing, seeking and the timer
itself work on the tracks that are selected at that moment, which need not be
the ones that were started; rewind and forward start the tracks, and a timer,
without looking at what is playing.
-/

namespace Tootti.Playback

open Machine

/-- `AVAudioPlayer`, whose position stays inside the sound. -/
structure AVAudioPlayer where
  duration : ℚ
  currentTime : ℚ
  isPlaying : Bool
  nonneg : 0 ≤ currentTime
  le_duration : currentTime ≤ duration

namespace AVAudioPlayer

def clamp (p : AVAudioPlayer) (time : ℚ) : ℚ := max 0 (min p.duration time)

def setCurrentTime (time : ℚ) (p : AVAudioPlayer) : AVAudioPlayer :=
  { p with
    currentTime := p.clamp time
    nonneg := le_max_left _ _
    le_duration := max_le (p.nonneg.trans p.le_duration) (min_le_left _ _) }

def play (p : AVAudioPlayer) : AVAudioPlayer := { p with isPlaying := true }

/-- `stop` and `pause`, which both leave the position. -/
def stop (p : AVAudioPlayer) : AVAudioPlayer := { p with isPlaying := false }

end AVAudioPlayer

/-- The part of the Merge screen that plays. A track is the identity of its
object; `timers` are the timers that are scheduled and not invalidated. -/
structure MergePlayer (τ : Type*) where
  audioTracks : List τ
  selectedTracks : List τ
  player : τ → AVAudioPlayer
  isMergePlaying : Bool
  timers : List Nat
  playbackTimer : Option Nat
  nextTimer : Nat

variable {τ : Type*} [DecidableEq τ]

namespace MergePlayer

/-- A loop over the selected tracks that does `f` to the player of each. -/
def forSelected (f : AVAudioPlayer → AVAudioPlayer) (s : MergePlayer τ) : MergePlayer τ :=
  { s with
    player := s.selectedTracks.foldl
      (fun player track => Function.update player track (f (player track))) s.player }

def schedule (s : MergePlayer τ) : MergePlayer τ :=
  { s with
    timers := s.timers ++ [s.nextTimer]
    playbackTimer := some s.nextTimer
    nextTimer := s.nextTimer + 1 }

/-- `[self.playbackTimer invalidate]`. -/
def invalidate (s : MergePlayer τ) : MergePlayer τ :=
  { s with timers := s.timers.filter fun n => some n ≠ s.playbackTimer }

/-- What `playAllTracks` does to a player. -/
def startTrack (p : AVAudioPlayer) : AVAudioPlayer := (p.stop.setCurrentTime 0).play

def playAllTracks (s : MergePlayer τ) : MergePlayer τ :=
  if s.selectedTracks = [] then { s with isMergePlaying := false }
  else (s.forSelected startTrack).schedule

def anySelectedPlaying (s : MergePlayer τ) : Bool :=
  s.selectedTracks.any fun track => (s.player track).isPlaying

def checkPlayback (s : MergePlayer τ) : MergePlayer τ :=
  if s.anySelectedPlaying then s else { s.invalidate with isMergePlaying := false }

def pauseAllTracks (s : MergePlayer τ) : MergePlayer τ :=
  { (s.forSelected AVAudioPlayer.stop) with isMergePlaying := false }.invalidate

def adjustTrack (delta : ℚ) (p : AVAudioPlayer) : AVAudioPlayer :=
  p.stop.setCurrentTime (p.stop.currentTime + delta)

def adjustAllTracks (delta : ℚ) (s : MergePlayer τ) : MergePlayer τ :=
  s.forSelected (adjustTrack delta)

def play (s : MergePlayer τ) : MergePlayer τ :=
  if s.isMergePlaying then { s with isMergePlaying := false }.pauseAllTracks
  else { s with isMergePlaying := true }.playAllTracks

def rewind (s : MergePlayer τ) : MergePlayer τ := (s.adjustAllTracks (-10)).playAllTracks

def forward (s : MergePlayer τ) : MergePlayer τ := (s.adjustAllTracks 10).playAllTracks

end MergePlayer

inductive Event (τ : Type*)
  | play
  | rewind
  | forward
  | didSelectRow (row : Nat)
  | didDeselectRow (row : Nat)
  /-- A track that plays reaches its end; its cell sets it back. -/
  | finished (track : τ)
  /-- A timer that is scheduled fires. -/
  | tick (timer : Nat)

open MergePlayer in
def step (s : MergePlayer τ) : Event τ → Option (MergePlayer τ)
  | .play => some s.play
  | .rewind => some s.rewind
  | .forward => some s.forward
  | .didSelectRow row =>
    s.audioTracks[row]?.map fun track =>
      { s with selectedTracks := s.selectedTracks ++ [track] }
  | .didDeselectRow row =>
    s.audioTracks[row]?.map fun track =>
      { s with selectedTracks := removeObject s.selectedTracks track }
  | .finished track =>
    if (s.player track).isPlaying then
      some { s with player :=
        Function.update s.player track ((s.player track).stop.setCurrentTime 0) }
    else none
  | .tick timer => if timer ∈ s.timers then some s.checkPlayback else none

/-! ### The players -/

/-- A loop over the selected tracks reaches a track as often as it is selected. -/
theorem player_forSelected (f : AVAudioPlayer → AVAudioPlayer) (s : MergePlayer τ) (track : τ) :
    (s.forSelected f).player track = f^[s.selectedTracks.count track] (s.player track) := by
  have hfold (tracks : List τ) (player : τ → AVAudioPlayer) :
      tracks.foldl (fun player t => Function.update player t (f (player t))) player track =
        f^[tracks.count track] (player track) := by
    induction tracks generalizing player with
    | nil => rfl
    | cons first tracks ih =>
        rw [List.foldl_cons, ih]
        by_cases h : first = track
        · subst first
          rw [Function.update_self, List.count_cons_self, Function.iterate_succ_apply]
        · rw [Function.update_of_ne (Ne.symm h), List.count_cons_of_ne h]
  exact hfold s.selectedTracks s.player

theorem player_forSelected_of_notMem {f : AVAudioPlayer → AVAudioPlayer} {s : MergePlayer τ}
    {track : τ} (h : track ∉ s.selectedTracks) :
    (s.forSelected f).player track = s.player track := by
  rw [player_forSelected, List.count_eq_zero_of_not_mem h, Function.iterate_zero_apply]

theorem exists_player_forSelected (f : AVAudioPlayer → AVAudioPlayer) {s : MergePlayer τ}
    {track : τ} (h : track ∈ s.selectedTracks) :
    ∃ p, (s.forSelected f).player track = f p := by
  obtain ⟨n, hn⟩ := Nat.exists_eq_succ_of_ne_zero (List.count_pos_iff.mpr h).ne'
  rw [player_forSelected, hn, Function.iterate_succ_apply']
  exact ⟨_, rfl⟩

theorem AVAudioPlayer.clamp_eq_zero {p : AVAudioPlayer} {time : ℚ} :
    p.clamp time = 0 ↔ p.duration ≤ 0 ∨ time ≤ 0 := by
  rw [clamp, max_eq_left_iff, min_le_iff]

theorem currentTime_startTrack (p : AVAudioPlayer) :
    (MergePlayer.startTrack p).currentTime = 0 :=
  AVAudioPlayer.clamp_eq_zero.mpr (.inr le_rfl)

section Operations

variable {s : MergePlayer τ}

theorem playAllTracks_of_none (h : s.selectedTracks = []) :
    s.playAllTracks = { s with isMergePlaying := false } :=
  if_pos h

theorem playAllTracks_of_some (h : s.selectedTracks ≠ []) :
    s.playAllTracks = (s.forSelected MergePlayer.startTrack).schedule :=
  if_neg h

/-- A selected track plays from its beginning, whatever was done to it before. -/
theorem player_playAllTracks {track : τ} (h : track ∈ s.selectedTracks) :
    (s.playAllTracks.player track).isPlaying = true ∧
      (s.playAllTracks.player track).currentTime = 0 := by
  rw [playAllTracks_of_some (List.ne_nil_of_mem h)]
  obtain ⟨p, hp⟩ := exists_player_forSelected MergePlayer.startTrack h
  change ((s.forSelected _).player track).isPlaying = true ∧
    ((s.forSelected _).player track).currentTime = 0
  rw [hp]
  exact ⟨rfl, currentTime_startTrack p⟩

end Operations

/-! ### Rewind and forward -/

/-- Each selected track plays on `delta` seconds from where it was, and tracks that
were at the same place are at the same place. -/
def Moved (s s' : MergePlayer τ) (delta : ℚ) : Prop :=
  (∀ track ∈ s.selectedTracks, (s'.player track).isPlaying = true ∧
    (s'.player track).currentTime =
      (s.player track).clamp ((s.player track).currentTime + delta)) ∧
  ∀ track ∈ s.selectedTracks, ∀ other ∈ s.selectedTracks,
    (s.player track).currentTime = (s.player other).currentTime →
    (s'.player track).currentTime = (s'.player other).currentTime

/-- Both start the tracks again, so a track is right only if its place would be
its beginning. -/
theorem moved_seek_iff (s : MergePlayer τ) (delta : ℚ) :
    Moved s (s.adjustAllTracks delta).playAllTracks delta ↔
      ∀ track ∈ s.selectedTracks,
        (s.player track).clamp ((s.player track).currentTime + delta) = 0 := by
  have hstart (track : τ) (h : track ∈ s.selectedTracks) :=
    player_playAllTracks (s := s.adjustAllTracks delta) h
  constructor
  case mp =>
    intro h track htrack
    rw [← (h.1 track htrack).2, (hstart track htrack).2]
  case mpr =>
    intro h
    refine ⟨fun track htrack => ⟨(hstart track htrack).1, ?_⟩, fun track ht other ho _ => ?_⟩
    · rw [(hstart track htrack).2, h track htrack]
    · rw [(hstart track ht).2, (hstart other ho).2]

/-- Rewind moves the tracks by ten seconds exactly if none is past its tenth
second, forward exactly if no track has any length. -/
theorem moved_rewind_forward_iff (s : MergePlayer τ) :
    (Moved s s.rewind (-10) ↔
      ∀ track ∈ s.selectedTracks, (s.player track).currentTime ≤ 10) ∧
    (Moved s s.forward 10 ↔
      ∀ track ∈ s.selectedTracks, (s.player track).duration = 0) := by
  constructor
  · rw [MergePlayer.rewind, moved_seek_iff]
    refine forall₂_congr fun track _ => ?_
    have hle := (s.player track).le_duration
    rw [AVAudioPlayer.clamp_eq_zero]
    constructor
    · rintro (h | h) <;> linarith
    · exact fun h => .inr (by linarith)
  · rw [MergePlayer.forward, moved_seek_iff]
    refine forall₂_congr fun track _ => ?_
    have hle := (s.player track).le_duration
    have hnonneg := (s.player track).nonneg
    rw [AVAudioPlayer.clamp_eq_zero]
    constructor
    · rintro (h | h) <;> linarith
    · exact fun h => .inl h.le

/-- Rewind from the fiftieth second of a hundred plays from the beginning. -/
theorem rewind_starts_over :
    let s : MergePlayer Unit :=
      { audioTracks := [()], selectedTracks := [()]
        player := fun _ => ⟨100, 50, true, by decide +kernel, by decide +kernel⟩
        isMergePlaying := true, timers := [0], playbackTimer := some 0, nextTimer := 1 }
    (s.rewind.player ()).currentTime = 0 ∧
      (s.player ()).clamp ((s.player ()).currentTime + -10) = 40 := by
  decide +kernel

/-! ### The timer and the flag -/

namespace MergePlayer

/-- At most one timer, which is scheduled exactly while the screen says that it
plays; and silence while it does not. -/
structure Consistent (s : MergePlayer τ) : Prop where
  one_timer : s.timers.length ≤ 1
  playing_iff : s.isMergePlaying = true ↔ s.timers ≠ []
  silent : s.isMergePlaying = false → ∀ track, (s.player track).isPlaying = false

/-- The timer that is scheduled is the one that can be invalidated. -/
structure Inv (s : MergePlayer τ) : Prop where
  consistent : s.Consistent
  current : ∀ n ∈ s.timers, s.playbackTimer = some n

/-- The screen before anything is played, with any selection and any positions. -/
structure Idle (s : MergePlayer τ) : Prop where
  not_playing : s.isMergePlaying = false
  no_timer : s.timers = []
  silent : ∀ track, (s.player track).isPlaying = false

omit [DecidableEq τ] in
theorem Idle.inv {s : MergePlayer τ} (h : s.Idle) : s.Inv where
  consistent := {
    one_timer := by simp [h.no_timer]
    playing_iff := by simp [h.not_playing, h.no_timer]
    silent := fun _ => h.silent }
  current n hn := by simp [h.no_timer] at hn

/-- Whether an event can come without harm: seeking only when nothing is selected
and nothing plays, pausing only while every playing track is selected, and the
timer may find the selected tracks silent only if the others are silent too. -/
def Careful (s : MergePlayer τ) : Event τ → Prop
  | .play => s.isMergePlaying = true →
      ∀ track, (s.player track).isPlaying = true → track ∈ s.selectedTracks
  | .rewind | .forward => s.isMergePlaying = false ∧ s.selectedTracks = []
  | .tick _ =>
      (∃ track ∈ s.selectedTracks, (s.player track).isPlaying = true) ∨
        ∀ track, (s.player track).isPlaying = false
  | _ => True

end MergePlayer

open MergePlayer

section Step

variable {s : MergePlayer τ}

omit [DecidableEq τ] in
theorem timers_invalidate (h : ∀ n ∈ s.timers, s.playbackTimer = some n) :
    s.invalidate.timers = [] := by
  refine List.filter_eq_nil_iff.mpr fun n hn => ?_
  simp [h n hn]

omit [DecidableEq τ] in
theorem timers_eq_nil_iff (h : s.Consistent) : s.timers = [] ↔ s.isMergePlaying = false := by
  rw [← Bool.not_eq_true, h.playing_iff, ne_eq, not_not]

omit [DecidableEq τ] in
/-- Without the flag, there must be silence and no timer. -/
theorem consistent_stopped_iff (hflag : s.isMergePlaying = false) :
    s.Consistent ↔ s.timers = [] ∧ ∀ track, (s.player track).isPlaying = false :=
  ⟨fun h => ⟨(timers_eq_nil_iff h).mpr hflag, h.silent hflag⟩,
    fun h => ⟨by simp [h.1], by simp [hflag, h.1], fun _ => h.2⟩⟩

/-- `playAllTracks` looks at no timer: there must be none before, and the flag
must be set unless nothing is selected. -/
theorem consistent_playAllTracks_iff (s : MergePlayer τ) :
    s.playAllTracks.Consistent ↔ s.timers = [] ∧
      if s.selectedTracks = [] then ∀ track, (s.player track).isPlaying = false
      else s.isMergePlaying = true := by
  by_cases hnone : s.selectedTracks = []
  · rw [playAllTracks_of_none hnone, if_pos hnone]
    exact consistent_stopped_iff rfl
  · rw [playAllTracks_of_some hnone, if_neg hnone]
    have htimers : (s.forSelected startTrack).schedule.timers = s.timers ++ [s.nextTimer] := rfl
    constructor
    · intro h
      have hone := h.one_timer
      rw [htimers, List.length_append, List.length_singleton] at hone
      refine ⟨List.length_eq_zero_iff.mp (by omega), ?_⟩
      exact h.playing_iff.mpr (by simp [htimers])
    · rintro ⟨hnil, hflag⟩
      refine ⟨by simp [htimers, hnil], iff_of_true hflag (by simp [htimers]), fun hstopped => ?_⟩
      exact absurd (hflag.symm.trans hstopped) (by decide)

theorem consistent_seek_iff (h : s.Inv) (delta : ℚ) :
    (s.adjustAllTracks delta).playAllTracks.Consistent ↔
      s.isMergePlaying = false ∧ s.selectedTracks = [] := by
  have htimers := timers_eq_nil_iff h.consistent
  rw [consistent_playAllTracks_iff]
  change (s.timers = [] ∧ if s.selectedTracks = [] then _ else s.isMergePlaying = true) ↔ _
  split_ifs with hnone
  · have hsame : (s.adjustAllTracks delta).player = s.player := by
      simp [adjustAllTracks, forSelected, hnone]
    rw [hsame, htimers]
    exact ⟨fun hsilent => ⟨hsilent.1, hnone⟩,
      fun hstopped => ⟨hstopped.1, h.consistent.silent hstopped.1⟩⟩
  · rw [htimers]
    simp [hnone]

theorem consistent_play_of_stopped (h : s.Inv) (hflag : s.isMergePlaying = false) :
    s.play.Consistent := by
  have htimers := (timers_eq_nil_iff h.consistent).mpr hflag
  rw [MergePlayer.play, if_neg (by simp [hflag]), consistent_playAllTracks_iff]
  refine ⟨htimers, ?_⟩
  split_ifs
  · exact h.consistent.silent hflag
  · rfl

theorem isPlaying_forSelected_stop (s : MergePlayer τ) (track : τ) :
    ((s.forSelected AVAudioPlayer.stop).player track).isPlaying = false ↔
      ((s.player track).isPlaying = true → track ∈ s.selectedTracks) := by
  by_cases h : track ∈ s.selectedTracks
  · obtain ⟨p, hp⟩ := exists_player_forSelected AVAudioPlayer.stop h
    simp [hp, AVAudioPlayer.stop, h]
  · simp [player_forSelected_of_notMem h, h]

theorem consistent_play_of_playing (h : s.Inv) (hflag : s.isMergePlaying = true) :
    s.play.Consistent ↔
      ∀ track, (s.player track).isPlaying = true → track ∈ s.selectedTracks := by
  have hplay : s.play = { s with isMergePlaying := false }.pauseAllTracks := if_pos hflag
  have htimers : s.play.timers = [] := by
    rw [hplay]
    exact timers_invalidate (s := { (s.forSelected AVAudioPlayer.stop) with
      isMergePlaying := false }) h.current
  rw [consistent_stopped_iff (by rw [hplay]; rfl), and_iff_right htimers, hplay]
  exact forall_congr' fun track => isPlaying_forSelected_stop s track

omit [DecidableEq τ] in
theorem consistent_tick_iff (h : s.Inv) :
    s.checkPlayback.Consistent ↔
      (∃ track ∈ s.selectedTracks, (s.player track).isPlaying = true) ∨
        ∀ track, (s.player track).isPlaying = false := by
  have hany : s.anySelectedPlaying = true ↔
      ∃ track ∈ s.selectedTracks, (s.player track).isPlaying = true := List.any_eq_true
  rw [checkPlayback]
  split_ifs with hsome
  · exact ⟨fun _ => .inl (hany.mp hsome), fun _ => h.consistent⟩
  · rw [← hany, or_iff_right hsome, consistent_stopped_iff rfl]
    exact and_iff_right (timers_invalidate h.current)

omit [DecidableEq τ] in
/-- A change that leaves the timers and starts nothing. -/
theorem MergePlayer.Consistent.of_same {s' : MergePlayer τ} (h : s.Consistent)
    (hflag : s'.isMergePlaying = s.isMergePlaying) (htimers : s'.timers = s.timers)
    (hplayer : ∀ track, (s.player track).isPlaying = false →
      (s'.player track).isPlaying = false) : s'.Consistent where
  one_timer := htimers ▸ h.one_timer
  playing_iff := by rw [hflag, htimers, h.playing_iff]
  silent hstopped track := hplayer track (h.silent (hflag ▸ hstopped) track)

theorem step_finished {s' : MergePlayer τ} {track : τ} (h : step s (.finished track) = some s') :
    s' = { s with player :=
      Function.update s.player track ((s.player track).stop.setCurrentTime 0) } := by
  obtain ⟨-, hs'⟩ := Option.ite_none_right_eq_some.mp h
  exact (Option.some.inj hs').symm

theorem step_tick {s' : MergePlayer τ} {timer : Nat} (h : step s (.tick timer) = some s') :
    s' = s.checkPlayback := by
  obtain ⟨-, hs'⟩ := Option.ite_none_right_eq_some.mp h
  exact (Option.some.inj hs').symm

/-- Each event keeps the screen consistent exactly if it comes without harm. -/
theorem consistent_step_iff {s' : MergePlayer τ} {e : Event τ} (h : s.Inv)
    (hstep : step s e = some s') : s'.Consistent ↔ s.Careful e := by
  cases e with
  | play =>
      obtain rfl := Option.some.inj hstep
      cases hflag : s.isMergePlaying with
      | true =>
          rw [consistent_play_of_playing h hflag, Careful]
          exact ⟨fun hall _ => hall, fun hall => hall hflag⟩
      | false =>
          exact ⟨fun _ hplaying => by simp [hflag] at hplaying,
            fun _ => consistent_play_of_stopped h hflag⟩
  | rewind =>
      obtain rfl := Option.some.inj hstep
      exact consistent_seek_iff h (-10)
  | forward =>
      obtain rfl := Option.some.inj hstep
      exact consistent_seek_iff h 10
  | didSelectRow row =>
      obtain ⟨track, -, rfl⟩ := Option.map_eq_some_iff.mp hstep
      exact iff_of_true (h.consistent.of_same rfl rfl fun _ hsilent => hsilent) trivial
  | didDeselectRow row =>
      obtain ⟨track, -, rfl⟩ := Option.map_eq_some_iff.mp hstep
      exact iff_of_true (h.consistent.of_same rfl rfl fun _ hsilent => hsilent) trivial
  | finished track =>
      obtain rfl := step_finished hstep
      refine iff_of_true (h.consistent.of_same rfl rfl fun other hsilent => ?_) trivial
      by_cases hother : other = track
      · subst other
        simp [AVAudioPlayer.setCurrentTime, AVAudioPlayer.stop]
      · simpa [hother] using hsilent
  | tick timer =>
      obtain rfl := step_tick hstep
      exact consistent_tick_iff h

/-- The field for the timer is set with each timer, and a consistent screen has
no other. -/
theorem inv_playAllTracks (h : ∀ n ∈ s.timers, s.playbackTimer = some n)
    (hafter : s.playAllTracks.Consistent) : s.playAllTracks.Inv := by
  refine ⟨hafter, ?_⟩
  have hnil := ((consistent_playAllTracks_iff s).mp hafter).1
  by_cases hnone : s.selectedTracks = []
  · rw [playAllTracks_of_none hnone]
    exact h
  · rw [playAllTracks_of_some hnone]
    intro n hn
    have htimers : n ∈ s.timers ++ [s.nextTimer] := hn
    rw [hnil, List.nil_append, List.mem_singleton] at htimers
    rw [htimers]
    rfl

theorem inv_step {s' : MergePlayer τ} {e : Event τ} (h : s.Inv) (hstep : step s e = some s')
    (hafter : s'.Consistent) : s'.Inv := by
  cases e with
  | play =>
      obtain rfl := Option.some.inj hstep
      cases hflag : s.isMergePlaying with
      | true =>
          refine ⟨hafter, fun n hn => ?_⟩
          have hstopped : s.play.isMergePlaying = false := by
            rw [MergePlayer.play, if_pos hflag]
            rfl
          rw [(timers_eq_nil_iff hafter).mpr hstopped] at hn
          exact absurd hn List.not_mem_nil
      | false =>
          rw [MergePlayer.play, if_neg (by simp [hflag])] at hafter ⊢
          exact inv_playAllTracks (s := { s with isMergePlaying := true }) h.current hafter
  | rewind =>
      obtain rfl := Option.some.inj hstep
      exact inv_playAllTracks (s := s.adjustAllTracks (-10)) h.current hafter
  | forward =>
      obtain rfl := Option.some.inj hstep
      exact inv_playAllTracks (s := s.adjustAllTracks 10) h.current hafter
  | didSelectRow row =>
      obtain ⟨track, -, rfl⟩ := Option.map_eq_some_iff.mp hstep
      exact ⟨hafter, h.current⟩
  | didDeselectRow row =>
      obtain ⟨track, -, rfl⟩ := Option.map_eq_some_iff.mp hstep
      exact ⟨hafter, h.current⟩
  | finished track =>
      obtain rfl := step_finished hstep
      exact ⟨hafter, h.current⟩
  | tick timer =>
      obtain rfl := step_tick hstep
      refine ⟨hafter, fun n hn => ?_⟩
      rw [checkPlayback] at hn ⊢
      split_ifs at hn ⊢
      · exact h.current n hn
      · exact h.current n (List.mem_of_mem_filter hn)

end Step

/-- From a screen on which nothing plays, the player stays consistent as long as
no event comes that does harm, and no longer. -/
theorem consistent_iff_careful {s : MergePlayer τ} (h : s.Idle) (es : List (Event τ)) :
    EveryStep step (fun _ _ s' => s'.Consistent) s es ↔ Meets step Careful s es :=
  everyStep_iff_of_invariant (I := Inv) (fun _ _ _ h hstep => consistent_step_iff h hstep)
    (fun _ _ _ h hstep hafter => inv_step h hstep hafter) h.inv es

/-- The screen with one track of a hundred seconds, at its fiftieth. -/
def oneTrack : MergePlayer Unit where
  audioTracks := [()]
  selectedTracks := []
  player _ := ⟨100, 50, false, by decide +kernel, by decide +kernel⟩
  isMergePlaying := false
  timers := []
  playbackTimer := none
  nextTimer := 0

theorem consistent_one_track :
    EveryStep step (fun _ _ s' => s'.Consistent) oneTrack [.didSelectRow 0, .play, .tick 0] ↔
      Meets step Careful oneTrack [.didSelectRow 0, .play, .tick 0] :=
  consistent_iff_careful ⟨rfl, rfl, fun _ => rfl⟩ _

/-- Rewind on an idle screen starts a timer that the flag does not know of. -/
theorem seek_leaves_timers :
    ¬ ∀ (s : MergePlayer Unit) (es : List (Event Unit)), s.Idle →
      EveryStep step (fun _ _ s' => s'.Consistent) s es := by
  intro h
  have hall : EveryStep step (fun _ _ s' => s'.Consistent) oneTrack
    ([.didSelectRow 0] ++ .rewind :: []) := h _ _ ⟨rfl, rfl, fun _ => rfl⟩
  have hend : (run step oneTrack ([.didSelectRow 0] ++ [.rewind])).map
    (fun s => (s.timers.length, s.isMergePlaying)) = some (1, false) := by decide +kernel
  have hsome : (run step oneTrack ([.didSelectRow 0] ++ [.rewind])).isSome := by decide +kernel
  obtain ⟨m, t, hselected, hrewound, hrun⟩ := exists_of_run_concat hsome
  have hconsistent := hall.at hselected hrewound
  obtain ⟨hlength, hflag⟩ := Prod.mk.inj
    (eq_of_map_run (f := fun s : MergePlayer Unit => (s.timers.length, s.isMergePlaying)) hrun hend)
  have htimers : t.timers ≠ [] := List.ne_nil_of_length_pos (by omega)
  rw [hconsistent.playing_iff.mpr htimers] at hflag
  exact Bool.noConfusion hflag

end Tootti.Playback
