import Tootti.Merge.Playback

/-!
The play buttons of the rows.

A row of the Library or of the Merge screen is shown by a cell, which plays
the row's track and shows whether it does. A table uses its cells again: a
cell that is not shown any more is given another row, with the image that its
button had. A track that ends tells the cell that was given its player last;
and the tracks of the Library that were confirmed are rows of the Merge screen
too, whose own button starts and stops them all.
-/

namespace Tootti.Buttons

open Machine Playback

variable {τ : Type*}

/-- An `AudioCell` or a `MergeAudioCell`. -/
structure Cell (τ : Type*) where
  cellPlayer : Option τ
  /-- The image is `stop.circle`, and not `play.circle`. -/
  stops : Bool

/-- A track is the identity of its player. -/
structure State (τ : Type*) where
  screen : MergePlayer τ
  cell : Nat → Cell τ
  /-- The cells that show a row now, of both tables. -/
  visible : List Nat
  delegate : τ → Option Nat

inductive Event (τ : Type*)
  /-- A new or a used cell for a row, whose Audio may have no player. -/
  | cellForRow (c : Nat) (p : Option τ)
  | didEndDisplaying (c : Nat)
  /-- `played` is the answer of the player's `play`. -/
  | playAudio (c : Nat) (played : Bool)
  /-- A track that plays reaches its end. -/
  | finished (p : τ)
  /-- Something else happens on the Merge screen. -/
  | merge (e : Playback.Event τ)

namespace State

def playing (s : State τ) (c : Nat) : Bool :=
  (s.cell c).cellPlayer.any fun p => (s.screen.player p).isPlaying

def setStops (s : State τ) (c : Nat) (stops : Bool) : State τ :=
  { s with cell := Function.update s.cell c { s.cell c with stops } }

/-- A player is sent to its beginning and told to play. -/
def start (played : Bool) (x : AVAudioPlayer) : AVAudioPlayer :=
  if played then (x.setCurrentTime 0).play else x.setCurrentTime 0

variable [DecidableEq τ]

/-- A message to a player. -/
def tell (s : State τ) (p : τ) (f : AVAudioPlayer → AVAudioPlayer) : State τ :=
  { s with screen :=
    { s.screen with player := Function.update s.screen.player p (f (s.screen.player p)) } }

def cellForRow (s : State τ) (c : Nat) (p : Option τ) : State τ :=
  { s with
    cell := Function.update s.cell c { s.cell c with cellPlayer := p }
    visible := s.visible ++ [c]
    delegate := fun q => if p = some q then some c else s.delegate q }

def playAudio (s : State τ) (c : Nat) (played : Bool) : State τ :=
  match (s.cell c).cellPlayer with
  | none => s.setStops c true
  | some p =>
      if (s.screen.player p).isPlaying then (s.tell p AVAudioPlayer.stop).setStops c false
      else (s.tell p (start played)).setStops c true

/-- `audioPlayerDidFinishPlaying:successfully:`, which sets back the player
that the cell has by then. -/
def didFinishPlaying (s : State τ) (c : Nat) : State τ :=
  let s := match (s.cell c).cellPlayer with
    | none => s
    | some q => s.tell q (AVAudioPlayer.setCurrentTime 0)
  s.setStops c false

end State

variable [DecidableEq τ]

def step (s : State τ) : Event τ → Option (State τ)
  | .cellForRow c p => if c ∈ s.visible then none else some (s.cellForRow c p)
  | .didEndDisplaying c => some { s with visible := removeObject s.visible c }
  | .playAudio c played => if c ∈ s.visible then some (s.playAudio c played) else none
  | .finished p =>
      if (s.screen.player p).isPlaying then
        let s := s.tell p AVAudioPlayer.stop
        some (match s.delegate p with
          | none => s
          | some c => s.didFinishPlaying c)
      else none
  | .merge (.finished _) => none
  | .merge e => (Playback.step s.screen e).map fun screen => { s with screen }

/-- Each button that is seen says whether its row's track plays. -/
def Faithful (s : State τ) : Prop := ∀ c ∈ s.visible, (s.cell c).stops = s.playing c

/-- What an event of the Merge screen has the selected tracks do. -/
def told (s : MergePlayer τ) : Playback.Event τ → Option Bool
  | .play => some !s.isMergePlaying
  | .rewind | .forward => some true
  | _ => none

/-- A cell is given a row whose track does what its image says, a button is
tapped that no other cell doubles and whose track starts if it has to, a track
that ends has no other cell than the one that is told, and that one no other
track that plays; and the Merge screen's buttons find the tracks they start or
stop so, unless no cell shows them. -/
def Careful (s : State τ) : Event τ → Prop
  | .cellForRow c p => (s.cell c).stops = p.any fun p => (s.screen.player p).isPlaying
  | .didEndDisplaying _ => True
  | .playAudio c played => ∃ p, (s.cell c).cellPlayer = some p ∧
      ((s.screen.player p).isPlaying = false → played = true) ∧
      ∀ c' ∈ s.visible, c' ≠ c → (s.cell c').cellPlayer ≠ some p
  | .finished p => ∀ c ∈ s.visible,
      if s.delegate p = some c then
        ∀ q ∈ (s.cell c).cellPlayer, (s.screen.player q).isPlaying = true → q = p
      else (s.cell c).cellPlayer ≠ some p
  | .merge e => ∀ b ∈ told s.screen e, ∀ c ∈ s.visible, ∀ p ∈ (s.cell c).cellPlayer,
      p ∈ s.screen.selectedTracks → (s.screen.player p).isPlaying = b

/-! ### What a step does to the players -/

section Players

variable {s s' : MergePlayer τ}

theorem isPlaying_playAllTracks (p : τ) : (s.playAllTracks.player p).isPlaying =
    if p ∈ s.selectedTracks then true else (s.player p).isPlaying := by
  split_ifs with hp
  · exact (player_playAllTracks hp).1
  · rw [MergePlayer.playAllTracks]
    split_ifs
    · rfl
    · exact congrArg AVAudioPlayer.isPlaying (player_forSelected_of_notMem hp)

theorem isPlaying_seek (delta : ℚ) (p : τ) :
    ((s.adjustAllTracks delta).playAllTracks.player p).isPlaying =
      if p ∈ s.selectedTracks then true else (s.player p).isPlaying := by
  rw [isPlaying_playAllTracks]
  split_ifs with hp hp' hp'
  · rfl
  · exact absurd hp hp'
  · exact absurd hp' hp
  · exact congrArg AVAudioPlayer.isPlaying (player_forSelected_of_notMem hp')

theorem isPlaying_pauseAllTracks (p : τ) : (s.pauseAllTracks.player p).isPlaying =
    if p ∈ s.selectedTracks then false else (s.player p).isPlaying := by
  change ((s.forSelected AVAudioPlayer.stop).player p).isPlaying = _
  split_ifs with hp
  · exact (isPlaying_forSelected_stop s p).mpr fun _ => hp
  · exact congrArg AVAudioPlayer.isPlaying (player_forSelected_of_notMem hp)

theorem isPlaying_of_step {e : Playback.Event τ} (he : ∀ p, e ≠ .finished p)
    (hstep : Playback.step s e = some s') (p : τ) : (s'.player p).isPlaying =
      if p ∈ s.selectedTracks then (told s e).getD (s.player p).isPlaying
      else (s.player p).isPlaying := by
  cases e with
  | play =>
      obtain rfl := Option.some.inj hstep
      rw [MergePlayer.play, told]
      cases hflag : s.isMergePlaying with
      | true => exact isPlaying_pauseAllTracks (s := { s with isMergePlaying := false }) p
      | false => exact isPlaying_playAllTracks (s := { s with isMergePlaying := true }) p
  | rewind =>
      obtain rfl := Option.some.inj hstep
      exact isPlaying_seek (-10) p
  | forward =>
      obtain rfl := Option.some.inj hstep
      exact isPlaying_seek 10 p
  | didSelectRow row | didDeselectRow row =>
      obtain ⟨track, -, rfl⟩ := Option.map_eq_some_iff.mp hstep
      exact (ite_self _).symm
  | finished track => exact absurd rfl (he track)
  | tick timer =>
      obtain rfl := step_tick hstep
      rw [MergePlayer.checkPlayback]
      split_ifs <;> rfl

end Players

/-! ### Which steps keep the buttons right -/

section Step

variable {s s' : State τ}

theorem isPlaying_tell (s : State τ) (p q : τ) (f : AVAudioPlayer → AVAudioPlayer) :
    ((s.tell p f).screen.player q).isPlaying =
      if q = p then (f (s.screen.player p)).isPlaying else (s.screen.player q).isPlaying := by
  change (Function.update s.screen.player p _ q).isPlaying = _
  split_ifs with hq
  · subst q
    rw [Function.update_self]
  · rw [Function.update_of_ne hq]

omit [DecidableEq τ] in
theorem playing_eq {c : Nat} {p : τ} (hp : (s.cell c).cellPlayer = some p) :
    s.playing c = (s.screen.player p).isPlaying := by
  rw [State.playing, hp, Option.any_some]

omit [DecidableEq τ] in
theorem cellPlayer_setStops (s : State τ) (c d : Nat) (stops : Bool) :
    ((s.setStops c stops).cell d).cellPlayer = (s.cell d).cellPlayer := by
  change (Function.update s.cell c _ d).cellPlayer = _
  by_cases hd : d = c
  · subst d
    rw [Function.update_self]
  · rw [Function.update_of_ne hd]

omit [DecidableEq τ] in
theorem stops_setStops (s : State τ) (c d : Nat) (stops : Bool) :
    ((s.setStops c stops).cell d).stops =
      if some c = some d then stops else (s.cell d).stops := by
  change (Function.update s.cell c _ d).stops = _
  split_ifs with hd
  · obtain rfl := Option.some.inj hd
    rw [Function.update_self]
  · rw [Function.update_of_ne fun h => hd (congrArg some h.symm)]

/-- A step that turns one player, and sets the image of one button at most. -/
theorem faithful_iff_of_change (hs : Faithful s) {p : τ} {c : Option Nat} {b stops : Bool}
    (hvisible : s'.visible = s.visible)
    (hcell : ∀ d, (s'.cell d).cellPlayer = (s.cell d).cellPlayer)
    (hstops : ∀ d, (s'.cell d).stops = if c = some d then stops else (s.cell d).stops)
    (hplayer : ∀ q, (s'.screen.player q).isPlaying =
      if q = p then b else (s.screen.player q).isPlaying) :
    Faithful s' ↔ ∀ d ∈ s.visible,
      if c = some d then stops = s'.playing d
      else (s.cell d).cellPlayer = some p → (s.screen.player p).isPlaying = b := by
  rw [Faithful, hvisible]
  refine forall₂_congr fun d hd => ?_
  rw [hstops]
  split_ifs with hdc
  · rfl
  · rw [hs d hd, State.playing, State.playing, hcell]
    cases hp : (s.cell d).cellPlayer with
    | none => simp
    | some q =>
        rw [Option.any_some, Option.any_some, hplayer]
        split_ifs with hq
        · subst q
          exact ⟨fun h _ => h, fun h => h rfl⟩
        · exact iff_of_true rfl fun h => absurd (Option.some.inj h) hq

theorem faithful_cellForRow_iff (hs : Faithful s) {c : Nat} (hc : c ∉ s.visible) (p : Option τ) :
    Faithful (s.cellForRow c p) ↔ Careful s (.cellForRow c p) := by
  have hother : ∀ d ∈ s.visible, (s.cellForRow c p).cell d = s.cell d := by
    intro d hd
    have hne : d ≠ c := ne_of_mem_of_not_mem hd hc
    exact Function.update_of_ne hne _ _
  have hself : (s.cellForRow c p).cell c = { s.cell c with cellPlayer := p } :=
    Function.update_self ..
  constructor
  · intro h
    have hnew := h c (List.mem_append_right _ List.mem_cons_self)
    rw [State.playing, hself] at hnew
    exact hnew
  · intro h d hd
    rcases List.mem_append.mp hd with hd | hd
    · rw [State.playing, hother d hd]
      exact hs d hd
    · obtain rfl := List.mem_singleton.mp hd
      rw [State.playing, hself]
      exact h

theorem faithful_press_iff (hs : Faithful s) {c : Nat} (hc : c ∈ s.visible) {p : τ}
    (hp : (s.cell c).cellPlayer = some p) (f : AVAudioPlayer → AVAudioPlayer) (stops : Bool) :
    Faithful ((s.tell p f).setStops c stops) ↔
      stops = (f (s.screen.player p)).isPlaying ∧
        ∀ d ∈ s.visible, d ≠ c → (s.cell d).cellPlayer = some p →
          (s.screen.player p).isPlaying = (f (s.screen.player p)).isPlaying := by
  have hself : ((s.tell p f).setStops c stops).playing c = (f (s.screen.player p)).isPlaying := by
    rw [State.playing, cellPlayer_setStops]
    change Option.any _ (s.cell c).cellPlayer = _
    rw [hp, Option.any_some]
    exact (isPlaying_tell s p p f).trans (if_pos rfl)
  have hvisible : ((s.tell p f).setStops c stops).visible = s.visible := rfl
  rw [faithful_iff_of_change hs hvisible
    (fun d => cellPlayer_setStops _ c d _) (fun d => stops_setStops _ c d _)
    (fun q => isPlaying_tell s p q f)]
  constructor
  · intro h
    refine ⟨?_, fun d hd hdc => ?_⟩
    · have hcell := h c hc
      rwa [if_pos rfl, hself] at hcell
    · have hcell := h d hd
      rwa [if_neg fun heq => hdc (Option.some.inj heq).symm] at hcell
  · rintro ⟨hstops, hother⟩ d hd
    split_ifs with hdc
    · rw [← Option.some.inj hdc, hself]
      exact hstops
    · exact hother d hd fun heq => hdc (congrArg some heq.symm)

theorem faithful_playAudio_iff (hs : Faithful s) {c : Nat} (hc : c ∈ s.visible) (played : Bool) :
    Faithful (s.playAudio c played) ↔ Careful s (.playAudio c played) := by
  cases hp : (s.cell c).cellPlayer with
  | none =>
      have hafter : s.playAudio c played = s.setStops c true := by rw [State.playAudio, hp]
      rw [hafter]
      -- the image says that a track plays, and there is none
      refine iff_of_false (fun h => ?_) fun h => ?_
      · have hcell := h c hc
        rw [stops_setStops, if_pos rfl, State.playing, cellPlayer_setStops, hp] at hcell
        exact Bool.noConfusion hcell
      · obtain ⟨p, hcell, -⟩ := h
        exact absurd (hp.symm.trans hcell) (Option.some_ne_none p).symm
  | some p =>
      have hcareful : Careful s (.playAudio c played) ↔
          ((s.screen.player p).isPlaying = false → played = true) ∧
            ∀ d ∈ s.visible, d ≠ c → (s.cell d).cellPlayer ≠ some p := by
        simp [Careful, hp]
      have hafter : s.playAudio c played =
          if (s.screen.player p).isPlaying then (s.tell p AVAudioPlayer.stop).setStops c false
          else (s.tell p (State.start played)).setStops c true := by
        rw [State.playAudio, hp]
      rw [hcareful, hafter]
      cases hplays : (s.screen.player p).isPlaying with
      | true =>
          rw [if_pos rfl, faithful_press_iff hs hc hp, hplays]
          simp [AVAudioPlayer.stop]
      | false =>
          have hstart : (State.start played (s.screen.player p)).isPlaying = played := by
            cases played with
            | true => rfl
            | false => exact hplays
          rw [if_neg Bool.false_ne_true, faithful_press_iff hs hc hp, hplays, hstart]
          cases played <;> simp

/-- The end of a track. -/
structure Finished (s : State τ) (p : τ) (s' : State τ) : Prop where
  visible : s'.visible = s.visible
  cellPlayer : ∀ d, (s'.cell d).cellPlayer = (s.cell d).cellPlayer
  stops : ∀ d, (s'.cell d).stops = if s.delegate p = some d then false else (s.cell d).stops
  isPlaying : ∀ q, (s'.screen.player q).isPlaying =
    if q = p then false else (s.screen.player q).isPlaying

theorem didFinishPlaying_eq (s : State τ) (c : Nat) :
    ∃ player, s.didFinishPlaying c =
      { s with screen := { s.screen with player } }.setStops c false ∧
        ∀ q, (player q).isPlaying = (s.screen.player q).isPlaying := by
  rw [State.didFinishPlaying]
  cases (s.cell c).cellPlayer with
  | none => exact ⟨s.screen.player, rfl, fun _ => rfl⟩
  | some q =>
      refine ⟨_, rfl, fun q' => (isPlaying_tell s q q' _).trans ?_⟩
      split_ifs with hq
      · rw [hq]
        rfl
      · rfl

theorem finished_step {p : τ} (hplays : (s.screen.player p).isPlaying = true)
    (hstep : step s (.finished p) = some s') : Finished s p s' := by
  rw [step, if_pos hplays] at hstep
  obtain rfl := Option.some.inj hstep
  have hstop : ∀ q, ((s.tell p AVAudioPlayer.stop).screen.player q).isPlaying =
      if q = p then false else (s.screen.player q).isPlaying :=
    fun q => isPlaying_tell s p q _
  have hsame : (s.tell p AVAudioPlayer.stop).delegate p = s.delegate p := rfl
  rw [hsame]
  cases hdelegate : s.delegate p with
  | none => exact ⟨rfl, fun _ => rfl, fun _ => by simp [hdelegate, State.tell], hstop⟩
  | some c =>
      obtain ⟨player, heq, hplayer⟩ := didFinishPlaying_eq (s.tell p AVAudioPlayer.stop) c
      dsimp only
      rw [heq]
      refine ⟨rfl, fun d => cellPlayer_setStops _ c d false, fun d => ?_, fun q => ?_⟩
      · rw [hdelegate]
        exact stops_setStops _ c d false
      · exact (hplayer q).trans (hstop q)

/-- A track whose end is told to its own cell is set back, as the player's
model has it. -/
theorem playback_finished {p : τ} {c : Nat} (hdelegate : s.delegate p = some c)
    (hp : (s.cell c).cellPlayer = some p) (hstep : step s (.finished p) = some s') :
    Playback.step s.screen (.finished p) = some s'.screen := by
  obtain ⟨hplays, heq⟩ := Option.ite_none_right_eq_some.mp hstep
  obtain rfl := Option.some.inj heq
  have hcell : ((s.tell p AVAudioPlayer.stop).cell c).cellPlayer = some p := hp
  have hsame : (s.tell p AVAudioPlayer.stop).delegate p = some c := hdelegate
  rw [Playback.step, if_pos hplays, hsame]
  dsimp only
  rw [State.didFinishPlaying, hcell]
  simp only [State.setStops, State.tell, Function.update_self, Function.update_idem]

theorem faithful_finished_iff (hs : Faithful s) {p : τ}
    (hplays : (s.screen.player p).isPlaying = true)
    (hstep : step s (.finished p) = some s') : Faithful s' ↔ Careful s (.finished p) := by
  have hafter : Finished s p s' := finished_step hplays hstep
  rw [faithful_iff_of_change hs hafter.visible hafter.cellPlayer hafter.stops hafter.isPlaying]
  refine forall₂_congr fun d hd => ?_
  split_ifs
  · rw [State.playing, hafter.cellPlayer]
    cases (s.cell d).cellPlayer with
    | none => simp
    | some q =>
        rw [Option.any_some, hafter.isPlaying]
        split_ifs with hq <;> simp [hq]
  · rw [hplays]
    simp

theorem faithful_merge_iff (hs : Faithful s) {e : Playback.Event τ}
    (hstep : step s (.merge e) = some s') : Faithful s' ↔ Careful s (.merge e) := by
  by_cases he : ∃ p, e = .finished p
  · obtain ⟨p, rfl⟩ := he
    exact absurd hstep (Option.some_ne_none s').symm
  · have hscreen : (Playback.step s.screen e).map (fun screen => { s with screen }) = some s' := by
      cases e with
      | finished p => exact absurd ⟨p, rfl⟩ he
      | _ => exact hstep
    obtain ⟨screen, hplayback, rfl⟩ := Option.map_eq_some_iff.mp hscreen
    have hplayer := isPlaying_of_step (fun p hp => he ⟨p, hp⟩) hplayback
    have hafter {c : Nat} {p : τ} (hp : (s.cell c).cellPlayer = some p) :
        State.playing { s with screen } c = (screen.player p).isPlaying :=
      playing_eq (s := { s with screen }) hp
    constructor
    · intro h b hb c hc p hp hselected
      have hcell := h c hc
      rw [show (s.cell c).stops = _ from hs c hc, playing_eq hp, hafter hp, hplayer,
        if_pos hselected, hb, Option.getD_some] at hcell
      exact hcell
    · intro h c hc
      change (s.cell c).stops = _
      rw [hs c hc]
      cases hp : (s.cell c).cellPlayer with
      | none => rw [State.playing, State.playing, hp]; rfl
      | some p =>
          rw [playing_eq hp, hafter hp, hplayer]
          split_ifs with hselected
          · cases htold : told s.screen e with
            | none => rfl
            | some b => exact h b htold c hc p hp hselected
          · rfl

theorem faithful_step_iff (hs : Faithful s) {e : Event τ} (hstep : step s e = some s') :
    Faithful s' ↔ Careful s e := by
  cases e with
  | cellForRow c p =>
      obtain ⟨hc, heq⟩ := Option.ite_none_left_eq_some.mp hstep
      obtain rfl := Option.some.inj heq
      exact faithful_cellForRow_iff hs hc p
  | didEndDisplaying c =>
      obtain rfl := Option.some.inj hstep
      exact iff_of_true (fun d hd => hs d (mem_removeObject.mp hd).1) trivial
  | playAudio c played =>
      obtain ⟨hc, heq⟩ := Option.ite_none_right_eq_some.mp hstep
      obtain rfl := Option.some.inj heq
      exact faithful_playAudio_iff hs hc played
  | finished p =>
      obtain ⟨hplays, -⟩ := Option.ite_none_right_eq_some.mp hstep
      exact faithful_finished_iff hs hplays hstep
  | merge e => exact faithful_merge_iff hs hstep

end Step

/-- In every run in which the buttons are right at first, they are right
throughout exactly if every step is careful. -/
theorem buttons_faithful_iff {s : State τ} (hs : Faithful s) (es : List (Event τ)) :
    EveryStep step (fun _ _ s' => Faithful s') s es ↔ Meets step Careful s es := by
  refine everyStep_iff_of_invariant (I := Faithful) (fun s e s' hs hstep => ?_)
    (fun _ _ _ _ _ hafter => hafter) hs es
  exact faithful_step_iff hs hstep

/-- Two tracks, whose rows nobody sees yet. -/
def unseen : State Bool where
  screen :=
    { audioTracks := [false, true]
      selectedTracks := []
      player := fun _ => ⟨100, 0, false, by decide +kernel, by decide +kernel⟩
      isMergePlaying := false
      timers := []
      playbackTimer := none
      nextTimer := 0 }
  cell _ := ⟨none, false⟩
  visible := []
  delegate _ := none

/-- A track is started, its row is scrolled away, and the cell is given the
row of the other one. -/
def scrolled : List (Event Bool) :=
  [.cellForRow 0 (some false), .playAudio 0 true, .didEndDisplaying 0, .cellForRow 0 (some true)]

theorem buttons_faithful_iff_scrolled :
    EveryStep step (fun _ _ s' => Faithful s') unseen scrolled ↔
      Meets step Careful unseen scrolled :=
  buttons_faithful_iff (fun _ hc => absurd hc List.not_mem_nil) scrolled

example : (run step unseen scrolled).map (fun s => ((s.cell 0).stops, s.playing 0)) =
    some (true, false) := by
  decide +kernel

end Tootti.Buttons
