import Tootti.Recording.Screen

/-!
A guest's recording under the session's snapshots.

The listener looks at the value of the host's flag in every snapshot and not
at its changes, although a snapshot is delivered whenever any field of the
document was written. A snapshot that repeats the flag is harmless only where
acting on the flag again has no effect.
-/

namespace Tootti.Recording

open Machine

/-- The snapshot repeats the flag delivered before it, and the screen is a
guest's. -/
def Repeats (u : User) (s : State) (d : SessionDocument) : Prop :=
  s.lastFlag = some d.hostStartRecording ∧ (defaults u).isHost s.cached = false

/-- A snapshot that repeats the flag leaves the recording in progress as it
was: the same recorder if there was one, and none if there was none. -/
def Undisturbed (u : User) (s : State) (e : Event) (s' : State) : Prop :=
  match e with
  | .snapshot _ _ d => Repeats u s d → s'.screen.inProgress = s.screen.inProgress
  | _ => True

/-- A repeated `NO` finds no recording in progress; a repeated `YES` finds
an audio session that cannot be activated, or neither a recording in progress
nor a recorder that starts. -/
def Harmless (u : User) (s : State) : Event → Prop
  | .snapshot _ os d => Repeats u s d →
      if d.hostStartRecording then
        os.activationSuccess = false ∨ s.screen.inProgress = none ∧ os.result = false
      else s.screen.inProgress = none
  | _ => True

section Snapshot

variable {u : Defaults} {cached : Option Session} {os : Start} {x : RecordingScreen}

theorem inProgress_startRecording_eq_iff (hdated : ∀ r ∈ x.audioRecorder, r.time < x.clock) :
    (x.startRecording u cached os).1.inProgress = x.inProgress ↔
      os.activationSuccess = false ∨ x.inProgress = none ∧ os.result = false := by
  rw [RecordingScreen.inProgress_startRecording]
  cases hact : os.activationSuccess with
  | false => simp
  | true =>
      have hnew : x.inProgress ≠ some ⟨x.clock + 1, true⟩ := by
        intro h
        have htime := hdated _ (Option.eq_some_of_filter_eq_some h)
        simp only at htime
        omega
      cases hres : os.result with
      | false => simp [eq_comm]
      | true => simpa using hnew.symm

end Snapshot

theorem undisturbed_iff_harmless {u : User} {s s' : State} {e : Event} (h : Dated s)
    (hstep : step u s e = some s') : Undisturbed u s e s' ↔ Harmless u s e := by
  cases e with
  | snapshot shown os d =>
      simp only [step, Option.some.injEq] at hstep
      subst s'
      refine imp_congr_right fun hrep => ?_
      show (s.screen.snapshotListener _ _ shown os s.nextPlayer d).screen.inProgress = _ ↔ _
      rw [inProgress_snapshotListener, inProgress_followHost, if_neg (by simp [hrep.2])]
      split
      · exact inProgress_startRecording_eq_iff h
      · exact eq_comm
  | _ => exact Iff.rfl

/-- In every run of a Recording screen, the snapshots that repeat the host's
flag leave a guest's recording alone exactly when all of them are harmless. -/
theorem guest_undisturbed_iff_harmless (u : User) (cached : Option Session) (clock : Nat)
    (es : List Event) :
    EveryStep (step u) (Undisturbed u) (.initial cached clock) es ↔
      Meets (step u) (Harmless u) (.initial cached clock) es := by
  have hagree : ∀ s e s', Dated s → step u s e = some s' →
      (Undisturbed u s e s' ↔ Harmless u s e) := fun s e s' h hs => undisturbed_iff_harmless h hs
  exact everyStep_iff_of_invariant hagree (fun s e s' h hs _ => dated_step h hs)
    (dated_initial cached clock) es

/-- A guest records with the button while the host does not, and a player
joins: the snapshot with the new roster stops the recording. -/
theorem recording_stopped_by_roster_change :
    ¬ ∀ (u : User) (cached : Option Session) (clock : Nat) (es : List Event),
      EveryStep (step u) (Undisturbed u) (.initial cached clock) es := by
  intro h
  let guest : User := ⟨"ann", "ann"⟩
  let joined (l : Roster) : Event :=
    .snapshot none ⟨true, true⟩ ⟨"song", "host", [], .empty, [], .empty, false, l⟩
  let session : Session := ⟨"s", "song", "host", [], none, [], none, false, []⟩
  let before : List Event := [joined [⟨"ann", "ann", false⟩], .recordAudio ⟨true, true⟩]
  let last : Event := joined [⟨"ann", "ann", false⟩, ⟨"bob", "bob", false⟩]
  have hrun : run (step guest) (.initial (some session) 0) before = some _ := rfl
  have hlast : Undisturbed guest _ last _ :=
    (h guest (some session) 0 (before ++ [last])).at hrun rfl
  exact absurd (hlast ⟨rfl, rfl⟩) (by decide)

end Tootti.Recording
