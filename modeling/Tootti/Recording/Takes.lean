import Tootti.Recording.Screen

/-!
The take that Save puts into the library.

The naming alert is shown when a recording ends, and its Save handler asks
the screen for the recorder's file when it runs. That is the file of the
recording that ended as long as no recorder was made in between.
-/

namespace Tootti.Recording

open Machine

/-- Save adds one Audio, whose file is that of the recording at `time`, and
that file is not being recorded into. -/
def SavesTake (time : Nat) (s s' : State) : Prop :=
  ∃ a, s'.audioRecordings = s.audioRecordings ++ [a] ∧
    a.audioURL = some (.document (recordingFileName time)) ∧
    ∀ r ∈ s'.screen.inProgress, r.time ≠ time

/-- The recorder of the recording at `time`, stopped. -/
def Ended (time : Nat) (s : State) : Prop :=
  s.screen.audioRecorder = some ⟨time, false⟩ ∧ time < s.screen.clock

/-- A recorder made after `time`. -/
def Replaced (time : Nat) (s : State) : Prop :=
  (∃ r, s.screen.audioRecorder = some r ∧ time < r.time) ∧ time < s.screen.clock

section Steps

variable {u : User} {s s' : State} {e : Event} {time : Nat}

theorem alert_step (ho : e.answers = false) (hs : s.screen.alert.isSome)
    (hstep : step u s e = some s') : s'.screen.alert = s.screen.alert := by
  obtain ⟨t, ht⟩ := Option.isSome_iff_exists.mp hs
  cases step_turn hstep with
  | prepared _ _ hx => exact hx.alert
  | kept _ _ hx =>
      rcases hx.alert with halert | ⟨-, halert⟩
      · exact halert
      · rw [halert, ht, Option.some_or]
  | answered _ hanswers _ => simp [ho] at hanswers

theorem ended_of_alert (h : Dated s) (hstep : step u s e = some s') (hnone : s.screen.alert = none)
    (halert : s'.screen.alert = some time) : Ended time s' := by
  cases step_turn hstep with
  | prepared _ _ hx => simp [hx.alert, hnone] at halert
  | kept _ _ hx =>
      rcases hx.alert with ha | ⟨hrec, ha⟩
      · simp [ha, hnone] at halert
      · rw [ha, hnone, Option.none_or, Option.map_eq_some_iff] at halert
        obtain ⟨r, hr, rfl⟩ := halert
        have hold := Option.eq_some_of_filter_eq_some hr
        refine ⟨by rw [hrec, hold]; rfl, ?_⟩
        exact Nat.lt_of_lt_of_le (h r hold) hx.clock
  | answered _ _ hx => simp [hx] at halert

theorem ended_step (h : Ended time s) (hp : ¬ Prepares u s e) (hstep : step u s e = some s') :
    Ended time s' := by
  obtain ⟨hrec, hclock⟩ := h
  cases step_turn hstep with
  | prepared hprep _ _ => exact absurd hprep hp
  | kept _ _ hx =>
      refine ⟨?_, Nat.lt_of_lt_of_le hclock hx.clock⟩
      rcases hx.recorder with hr | hr
      · rw [hr, hrec]
      · rw [hr, hrec]
        rfl
  | answered _ _ hx =>
      rw [Ended, hx]
      exact ⟨hrec, hclock⟩

theorem replaced_of_prepares (h : time < s.screen.clock) (hp : Prepares u s e)
    (hstep : step u s e = some s') : Replaced time s' := by
  cases step_turn hstep with
  | prepared _ _ hx =>
      obtain ⟨result, hrec⟩ := hx.recorder
      have hclock := hx.clock
      exact ⟨⟨_, hrec, by show time < s.screen.clock + 1; omega⟩, by omega⟩
  | kept hprep _ _ | answered hprep _ _ => exact absurd hp hprep

theorem replaced_step (h : Replaced time s) (hstep : step u s e = some s') : Replaced time s' := by
  obtain ⟨⟨r, hrec, htime⟩, hclock⟩ := h
  cases step_turn hstep with
  | prepared hprep _ _ => exact replaced_of_prepares hclock hprep hstep
  | kept _ _ hx =>
      refine ⟨?_, Nat.lt_of_lt_of_le hclock hx.clock⟩
      rcases hx.recorder with hr | hr
      · exact ⟨r, by rw [hr, hrec], htime⟩
      · exact ⟨r.stop, by rw [hr, hrec]; rfl, htime⟩
  | answered _ _ hx =>
      rw [Replaced, hx]
      exact ⟨⟨r, hrec, htime⟩, hclock⟩

end Steps

theorem replaced_run {u : User} {s t : State} {es : List Event} {time : Nat}
    (h : Replaced time s) (hrun : run (step u) s es = some t) : Replaced time t :=
  run_invariant (fun _ _ _ h hs => replaced_step h hs) hrun h

/-- From the end of a recording on, the screen keeps its stopped recorder
exactly as long as none is made. -/
theorem ended_or_replaced {u : User} {s t : State} {es : List Event} {time : Nat}
    (h : Ended time s) (hrun : run (step u) s es = some t) :
    Meets (step u) (fun s e => ¬ Prepares u s e) s es ∧ Ended time t ∨
      ¬ Meets (step u) (fun s e => ¬ Prepares u s e) s es ∧ Replaced time t := by
  induction es generalizing s with
  | nil =>
      simp only [run_nil, Option.some.injEq] at hrun
      exact Or.inl ⟨everyStep_nil s, hrun ▸ h⟩
  | cons e es ih =>
      obtain ⟨s', he, hrest⟩ := run_cons_eq_some.mp hrun
      rw [Meets, everyStep_cons he]
      by_cases hp : Prepares u s e
      · have hreplaced := replaced_of_prepares h.2 hp he
        exact Or.inr ⟨fun hmeets => hmeets.1 hp, replaced_run hreplaced hrest⟩
      · rcases ih (ended_step h hp he) hrest with ⟨hmeets, hended⟩ | ⟨hnot, hreplaced⟩
        · exact Or.inl ⟨⟨hp, hmeets⟩, hended⟩
        · exact Or.inr ⟨fun hmeets => hnot hmeets.2, hreplaced⟩

theorem alert_run {u : User} {s t : State} {es : List Event} {time : Nat}
    (hopen : ∀ e ∈ es, e.answers = false) (hs : s.screen.alert = some time)
    (hrun : run (step u) s es = some t) : t.screen.alert = some time := by
  have hstep : ∀ m e m', e ∈ es → m.screen.alert = some time → step u m e = some m' →
      m'.screen.alert = some time := by
    intro m e m' he hm hs
    rw [alert_step (hopen e he) (by simp [hm]) hs, hm]
  exact run_invariant_of_mem hstep hrun hs

/-- Pressing Save is right while the ended recording's recorder is still the
screen's, and wrong once it is not. -/
theorem savesTake_iff {u : User} {s : State} {time : Nat} {name : String}
    (halert : s.screen.alert = some time) :
    (∃ t, step u s (.save name) = some t ∧ SavesTake time s t) ↔
      s.screen.audioRecorder.map Recorder.time = some time ∧
        ∀ r ∈ s.screen.inProgress, r.time ≠ time := by
  have hsave : step u s (.save name) = some
      { s with
        screen := s.screen.dismissAlert
        audioRecordings := s.audioRecordings ++ [s.screen.savedAudio u name s.nextPlayer]
        nextPlayer := s.nextPlayer + 1 } := by
    simp [step, halert]
  have hfile : (s.screen.savedAudio u name s.nextPlayer).audioURL =
      some (.document (recordingFileName time)) ↔
        s.screen.audioRecorder.map Recorder.time = some time := by
    simp [RecordingScreen.savedAudio, recordingFileName_inj]
  rw [hsave, ← hfile]
  constructor
  · rintro ⟨t, ht, a, ha, hurl, hfree⟩
    obtain rfl := Option.some.inj ht
    have hlast := List.append_cancel_left ha
    rw [List.singleton_inj] at hlast
    exact ⟨hlast ▸ hurl, hfree⟩
  · rintro ⟨hurl, hfree⟩
    exact ⟨_, rfl, _, rfl, hurl, hfree⟩

/-- From the moment the naming alert appears, pressing Save adds the take
that was just recorded exactly if no recorder was made since. -/
theorem saved_take_iff_none_prepared {u : User} {cached : Option Session} {clock time : Nat}
    {es es' : List Event} {e : Event} {s s' t : State} {name : String}
    (hrun : run (step u) (.initial cached clock) es = some s) (hend : step u s e = some s')
    (hnone : s.screen.alert = none) (halert : s'.screen.alert = some time)
    (hopen : ∀ f ∈ es', f.answers = false) (hrun' : run (step u) s' es' = some t) :
    (∃ t', step u t (.save name) = some t' ∧ SavesTake time t t') ↔
      Meets (step u) (fun s e => ¬ Prepares u s e) s' es' := by
  have hdated : Dated s :=
    run_invariant (fun _ _ _ h hs => dated_step h hs) hrun (dated_initial cached clock)
  have hended := ended_of_alert hdated hend hnone halert
  rw [savesTake_iff (alert_run hopen halert hrun')]
  rcases ended_or_replaced hended hrun' with ⟨hmeets, hrec, -⟩ | ⟨hnot, ⟨r, hrec, htime⟩, -⟩
  · simp [hmeets, hrec, RecordingScreen.inProgress]
  · have hne : r.time ≠ time := by omega
    simp [hnot, hrec, hne]

/-- A user changes the status and fails to start another recording before
pressing Save. -/
theorem saved_take_unprepared :
    ∃ t t', run (step ⟨"ann", "ann"⟩) (.initial none 0)
        [.recordAudio ⟨true, true⟩, .recordAudio ⟨true, true⟩, .updateUsersStatus true,
          .recordAudio ⟨false, true⟩] = some t ∧
      step ⟨"ann", "ann"⟩ t (.save "take") = some t' ∧ SavesTake 1 t t' := by
  let u : User := ⟨"ann", "ann"⟩
  let start : List Event := [.recordAudio ⟨true, true⟩]
  let later : List Event := [.updateUsersStatus true, .recordAudio ⟨false, true⟩]
  let s := (run (step u) (.initial none 0) start).get rfl
  let s' := (step u s (.recordAudio ⟨true, true⟩)).get rfl
  let t := (run (step u) s' later).get rfl
  have hrun : run (step u) (.initial none 0) start = some s := rfl
  have hend : step u s (.recordAudio ⟨true, true⟩) = some s' := rfl
  have hrun' : run (step u) s' later = some t := rfl
  have hnone : Meets (step u) (fun s e => ¬ Prepares u s e) s' later := by
    refine (everyStep_cons rfl).mpr ⟨fun hp => hp, (everyStep_cons rfl).mpr ⟨fun hp => ?_, trivial⟩⟩
    exact absurd hp.2 (by decide)
  have hopen : ∀ e ∈ later, e.answers = false := by decide
  have hnoAlert : s.screen.alert = none := rfl
  have halert : s'.screen.alert = some 1 := rfl
  obtain ⟨t', hsave, htake⟩ :=
    (saved_take_iff_none_prepared hrun hend hnoAlert halert hopen hrun').mpr hnone
  exact ⟨t, t', rfl, hsave, htake⟩

/-- The host ends a recording and starts the next before a guest has named
the first: Save names the file that is being recorded into. -/
theorem saved_take_replaced :
    ¬ ∀ (u : User) (cached : Option Session) (clock time : Nat) (es es' : List Event) (e : Event)
      (s s' t t' : State) (name : String),
      run (step u) (.initial cached clock) es = some s → step u s e = some s' →
      s.screen.alert = none → s'.screen.alert = some time →
      (∀ f ∈ es', f.answers = false) → run (step u) s' es' = some t →
      step u t (.save name) = some t' → SavesTake time t t' := by
  intro h
  let u : User := ⟨"ann", "ann"⟩
  let session : Session := ⟨"s", "song", "host", [], none, [], none, false, []⟩
  let hostRecords (status : Bool) : Event :=
    .snapshot none ⟨true, true⟩ ⟨"song", "host", [], .empty, [], .empty, status, []⟩
  let s := (run (step u) (.initial (some session) 0) [hostRecords true]).get rfl
  let s' := (step u s (hostRecords false)).get rfl
  let t := (run (step u) s' [hostRecords true]).get rfl
  have hopen : ∀ e ∈ [hostRecords true], e.answers = false := by decide
  have htake : SavesTake 1 t _ :=
    h u (some session) 0 1 [hostRecords true] [hostRecords true] (hostRecords false) s s' t _ "take"
      rfl rfl rfl rfl hopen rfl rfl
  obtain ⟨a, ha, hurl, -⟩ := htake
  obtain rfl := (List.cons.inj ha).1
  have hfile : recordingFileName 3 = recordingFileName 1 :=
    AudioURL.document.inj (Option.some.inj hurl)
  exact absurd (recordingFileName_inj.mp hfile) (by decide)

end Tootti.Recording
