import Mathlib.Logic.Basic
import Mathlib.Data.Option.Basic
import Mathlib.Data.List.Basic

/-!
Runs of a partial transition function.

A component that answers events is a function `step : σ → ε → Option σ`:
`none` says that the event cannot happen in that state. A run is a list of
events, and what is said about a run is said about its single steps, with
the state before and the state after in view. The rules below carry what one
step does to what a run does: an invariant rule, also for invariants that
mention the events so far, an equivalence rule for two descriptions of the same
steps, and a simulation rule against an abstract function that answers the same
events.
-/

namespace Tootti.Machine

variable {σ ε α : Type*}

/-- The state a list of events leads to, when each of them can happen. -/
def run (step : σ → ε → Option σ) : σ → List ε → Option σ
  | s, [] => some s
  | s, e :: es => (step s e).bind fun s' => run step s' es

/-- Every step taken while the events happen satisfies `R`, which sees the
state before it, the event and the state after it. -/
def EveryStep (step : σ → ε → Option σ) (R : σ → ε → σ → Prop) : σ → List ε → Prop
  | _, [] => True
  | s, e :: es =>
    match step s e with
    | none => True
    | some s' => R s e s' ∧ EveryStep step R s' es

def Meets (step : σ → ε → Option σ) (C : σ → ε → Prop) : σ → List ε → Prop :=
  EveryStep step fun s e _ => C s e

variable {step : σ → ε → Option σ}

@[simp] theorem run_nil (s : σ) : run step s [] = some s := rfl

theorem run_cons (s : σ) (e : ε) (es : List ε) :
    run step s (e :: es) = (step s e).bind fun s' => run step s' es := rfl

theorem run_cons_eq_some {s t : σ} {e : ε} {es : List ε} :
    run step s (e :: es) = some t ↔ ∃ s', step s e = some s' ∧ run step s' es = some t := by
  rw [run_cons, Option.bind_eq_some_iff]

theorem run_append (s : σ) (es fs : List ε) :
    run step s (es ++ fs) = (run step s es).bind fun t => run step t fs := by
  induction es generalizing s with
  | nil => rfl
  | cons e es ih => simp [run_cons, ih, Option.bind_assoc]

theorem run_append_eq_some {s t : σ} {es fs : List ε} :
    run step s (es ++ fs) = some t ↔
      ∃ m, run step s es = some m ∧ run step m fs = some t := by
  rw [run_append, Option.bind_eq_some_iff]

/-- A run that can be continued by one event, taken apart before it. -/
theorem exists_of_run_concat {s : σ} {es : List ε} {e : ε}
    (h : (run step s (es ++ [e])).isSome) :
    ∃ m t, run step s es = some m ∧ step m e = some t ∧ run step s (es ++ [e]) = some t := by
  obtain ⟨t, ht⟩ := Option.isSome_iff_exists.mp h
  obtain ⟨m, hm, hlast⟩ := run_append_eq_some.mp ht
  obtain ⟨t', hstep, ht'⟩ := run_cons_eq_some.mp hlast
  obtain rfl := Option.some.inj ht'
  exact ⟨m, t', hm, hstep, ht⟩

/-- What is computed of a run's end is said of the state it ends in. -/
theorem eq_of_map_run {f : σ → α} {s t : σ} {es : List ε} {a : α} (h : run step s es = some t)
    (hmap : (run step s es).map f = some a) : f t = a := by
  rw [h] at hmap
  exact Option.some.inj hmap

section EveryStep

variable {R Q : σ → ε → σ → Prop}

@[simp] theorem everyStep_nil (s : σ) : EveryStep step R s [] := trivial

theorem everyStep_cons {s s' : σ} {e : ε} {es : List ε} (h : step s e = some s') :
    EveryStep step R s (e :: es) ↔ R s e s' ∧ EveryStep step R s' es := by
  simp only [EveryStep, h]

theorem everyStep_cons_of_none {s : σ} {e : ε} {es : List ε} (h : step s e = none) :
    EveryStep step R s (e :: es) := by
  simp only [EveryStep, h]

theorem EveryStep.at {s m m' : σ} {es fs : List ε} {e : ε}
    (h : EveryStep step R s (es ++ e :: fs)) (hrun : run step s es = some m)
    (he : step m e = some m') : R m e m' := by
  induction es generalizing s with
  | nil =>
      simp only [run_nil, Option.some.injEq] at hrun
      subst m
      exact ((everyStep_cons he).mp h).1
  | cons f es ih =>
      obtain ⟨s', hf, hrest⟩ := run_cons_eq_some.mp hrun
      exact ih ((everyStep_cons hf).mp h).2 hrest

/-- What each step preserves under a condition on the step, a run whose
steps all meet the condition preserves. -/
theorem EveryStep.invariant {I : σ → Prop}
    (hstep : ∀ s e s', I s → R s e s' → step s e = some s' → I s') {s t : σ} {es : List ε}
    (hR : EveryStep step R s es) (hrun : run step s es = some t) (hs : I s) : I t := by
  induction es generalizing s with
  | nil =>
      simp only [run_nil, Option.some.injEq] at hrun
      exact hrun ▸ hs
  | cons e es ih =>
      obtain ⟨s', he, hrest⟩ := run_cons_eq_some.mp hrun
      obtain ⟨hRe, hRes⟩ := (everyStep_cons he).mp hR
      exact ih hRes hrest (hstep s e s' hs hRe he)

/-- Two descriptions that agree on each step taken in a state satisfying an
invariant agree on whole runs from such a state. -/
theorem everyStep_iff_of_invariant {I : σ → Prop}
    (hagree : ∀ s e s', I s → step s e = some s' → (R s e s' ↔ Q s e s'))
    (hinv : ∀ s e s', I s → step s e = some s' → R s e s' → I s')
    {s : σ} (hs : I s) (es : List ε) : EveryStep step R s es ↔ EveryStep step Q s es := by
  induction es generalizing s with
  | nil => simp
  | cons e es ih =>
      cases he : step s e with
      | none => simp [everyStep_cons_of_none he]
      | some s' =>
          rw [everyStep_cons he, everyStep_cons he, ← hagree s e s' hs he]
          exact and_congr_right fun hR => ih (hinv s e s' hs he hR)

theorem everyStep_append {s : σ} {es fs : List ε} :
    EveryStep step R s (es ++ fs) ↔
      EveryStep step R s es ∧ ∀ m, run step s es = some m → EveryStep step R m fs := by
  induction es generalizing s with
  | nil => simp
  | cons e es ih =>
      cases he : step s e with
      | none => simp [everyStep_cons_of_none he, run_cons, he]
      | some s' =>
          rw [List.cons_append, everyStep_cons he, everyStep_cons he, ih, and_assoc]
          simp [run_cons, he]

/-- What the steps meeting a condition respect and keep going, a run whose
steps all meet it respects throughout. -/
theorem Meets.everyStep {C : σ → ε → Prop} {R : σ → ε → σ → Prop} {I : σ → Prop}
    (hstep : ∀ s e s', I s → C s e → step s e = some s' → R s e s' ∧ I s')
    {s : σ} {es : List ε} (hC : Meets step C s es) (hs : I s) : EveryStep step R s es := by
  induction es generalizing s with
  | nil => exact everyStep_nil s
  | cons e es ih =>
      cases he : step s e with
      | none => exact everyStep_cons_of_none he
      | some s' =>
          obtain ⟨hCe, hCes⟩ := (everyStep_cons he).mp hC
          obtain ⟨hR, hs'⟩ := hstep s e s' hs hCe he
          exact (everyStep_cons he).mpr ⟨hR, ih hCes hs'⟩

/-- If a step that fails a condition breaks a property, or lets the next event
break it, then a run that fails the condition has a beginning that can be
continued to break the property. -/
theorem exists_broken_of_not_meets {C : σ → ε → Prop} {R : σ → ε → σ → Prop} {I : σ → Prop}
    (hkeep : ∀ s e s', I s → C s e → step s e = some s' → I s')
    (hbreak : ∀ s e s', I s → ¬ C s e → step s e = some s' →
      ∃ fs, ¬ EveryStep step R s (e :: fs))
    {s : σ} {es : List ε} (hC : ¬ Meets step C s es) (hs : I s) :
    ∃ before after fs, es = before ++ after ∧ ¬ EveryStep step R s (before ++ fs) := by
  induction es generalizing s with
  | nil => exact absurd (everyStep_nil s) hC
  | cons e es ih =>
      cases he : step s e with
      | none => exact absurd (everyStep_cons_of_none he) hC
      | some s' =>
          by_cases hCe : C s e
          · have hrest : ¬ Meets step C s' es := fun h => hC ((everyStep_cons he).mpr ⟨hCe, h⟩)
            obtain ⟨before, after, fs, rfl, hbroken⟩ := ih hrest (hkeep s e s' hs hCe he)
            refine ⟨e :: before, after, fs, rfl, fun h => hbroken ?_⟩
            exact ((everyStep_cons he).mp h).2
          · obtain ⟨fs, hbroken⟩ := hbreak s e s' hs hCe he
            exact ⟨[e], es, fs, rfl, hbroken⟩

end EveryStep

section Between

variable {K : σ → σ → Prop}

def Between (step : σ → ε → Option σ) (K : σ → σ → Prop) (s : σ) (es : List ε) : Prop :=
  ∀ before between after m t, es = before ++ between ++ after →
    run step s before = some m → run step m between = some t → K m t

theorem EveryStep.related (hrefl : ∀ a, K a a)
    (htrans : ∀ a b e c, K a b → step b e = some c → K b c → K a c)
    {s t : σ} {es : List ε} (h : EveryStep step (fun s _ s' => K s s') s es)
    (hrun : run step s es = some t) : K s t := by
  have hkeep : ∀ m e m', K s m → K m m' → step m e = some m' → K s m' :=
    fun m e m' hm hK he => htrans s m e m' hm he hK
  exact h.invariant hkeep hrun (hrefl s)

/-- A relation that steps carry along relates every state of a run to every
later one exactly when each step respects it. -/
theorem between_iff_everyStep (hrefl : ∀ a, K a a)
    (htrans : ∀ a b e c, K a b → step b e = some c → K b c → K a c) {s : σ} {es : List ε} :
    Between step K s es ↔ EveryStep step (fun s _ s' => K s s') s es := by
  refine ⟨fun h => ?_, fun h => ?_⟩
  · induction es generalizing s with
    | nil => exact everyStep_nil s
    | cons e es ih =>
        cases he : step s e with
        | none => exact everyStep_cons_of_none he
        | some s' =>
            refine (everyStep_cons he).mpr ⟨h [] [e] es s s' rfl rfl (by simp [run_cons, he]), ?_⟩
            refine ih fun before between after m t hes hm ht => ?_
            refine h (e :: before) between after m t (by simp [hes]) ?_ ht
            simpa [run_cons, he] using hm
  · rintro before between after m t rfl hm ht
    rw [List.append_assoc, everyStep_append] at h
    have hrest := h.2 m hm
    rw [everyStep_append] at hrest
    exact hrest.1.related hrefl htrans ht

end Between

instance decidableEveryStep (R : σ → ε → σ → Prop) [∀ s e s', Decidable (R s e s')] :
    ∀ s es, Decidable (EveryStep step R s es)
  | _, [] => .isTrue trivial
  | s, e :: es =>
    match h : step s e with
    | none => .isTrue (everyStep_cons_of_none h)
    | some s' =>
      have := decidableEveryStep R s' es
      decidable_of_iff (R s e s' ∧ EveryStep step R s' es) (everyStep_cons h).symm

instance decidableMeets (C : σ → ε → Prop) [∀ s e, Decidable (C s e)] (s : σ) (es : List ε) :
    Decidable (Meets step C s es) :=
  decidableEveryStep (fun s e _ => C s e) s es

/-- An invariant of the state and of the events that have led to it. -/
theorem run_history {I : List ε → σ → Prop} {es : List ε}
    (hstep : ∀ past s e s', e ∈ es → I past s → step s e = some s' → I (past ++ [e]) s')
    {s t : σ} (past : List ε) (hrun : run step s es = some t) (hs : I past s) :
    I (past ++ es) t := by
  induction es generalizing past s with
  | nil =>
      simp only [run_nil, Option.some.injEq] at hrun
      rw [List.append_nil]
      exact hrun ▸ hs
  | cons e es ih =>
      obtain ⟨s', he, hrest⟩ := run_cons_eq_some.mp hrun
      have hs' : I (past ++ [e]) s' := hstep past s e s' List.mem_cons_self hs he
      rw [List.append_cons]
      exact ih (fun past s f s' hf => hstep past s f s' (List.mem_cons_of_mem e hf)) _ hrest hs'

/-- An invariant of the state and of the events that have led to it, for runs
whose steps meet a condition. -/
theorem Meets.history {C : σ → ε → Prop} {I : List ε → σ → Prop} {start t : σ} {es : List ε}
    (hstep : ∀ past s e s', run step start past = some s → C s e → I past s →
      step s e = some s' → I (past ++ [e]) s')
    (hC : Meets step C start es) (hrun : run step start es = some t) (hstart : I [] start) :
    I es t := by
  have hfrom : ∀ past s, run step start past = some s → Meets step C s es →
      run step s es = some t → I past s → I (past ++ es) t := by
    clear hC hrun
    induction es with
    | nil =>
        intro past s _ _ hrun hs
        simp only [run_nil, Option.some.injEq] at hrun
        rw [List.append_nil]
        exact hrun ▸ hs
    | cons e es ih =>
        intro past s hpast hC hrun hs
        obtain ⟨s', he, hrest⟩ := run_cons_eq_some.mp hrun
        obtain ⟨hCe, hCes⟩ := (everyStep_cons he).mp hC
        have hpast' : run step start (past ++ [e]) = some s' :=
          run_append_eq_some.mpr ⟨s, hpast, run_cons_eq_some.mpr ⟨s', he, rfl⟩⟩
        rw [List.append_cons]
        exact ih (past ++ [e]) s' hpast' hCes hrest (hstep past s e s' hpast hCe hs he)
  exact hfrom [] start rfl hC hrun hstart

/-- An invariant that lets every event happen. -/
theorem exists_run_history {I : List ε → σ → Prop}
    (hstep : ∀ past s e, I past s → ∃ s', step s e = some s' ∧ I (past ++ [e]) s')
    {s : σ} (past es : List ε) (hs : I past s) :
    ∃ t, run step s es = some t ∧ I (past ++ es) t := by
  induction es generalizing past s with
  | nil => exact ⟨s, rfl, (List.append_nil past).symm ▸ hs⟩
  | cons e es ih =>
      obtain ⟨s', he, hs'⟩ := hstep past s e hs
      obtain ⟨t, hrest, ht⟩ := ih (past ++ [e]) hs'
      exact ⟨t, run_cons_eq_some.mpr ⟨s', he, hrest⟩, List.append_cons past e es ▸ ht⟩

theorem run_invariant_of_mem {I : σ → Prop} {es : List ε}
    (hstep : ∀ s e s', e ∈ es → I s → step s e = some s' → I s') {s t : σ}
    (hrun : run step s es = some t) (hs : I s) : I t :=
  run_history (I := fun _ => I) (fun _ => hstep) [] hrun hs

theorem run_invariant {I : σ → Prop} (hstep : ∀ s e s', I s → step s e = some s' → I s')
    {s t : σ} {es : List ε} (hrun : run step s es = some t) (hs : I s) : I t :=
  run_invariant_of_mem (fun s e s' _ => hstep s e s') hrun hs

/-- A simulation by an abstract function: if each step meeting `C` keeps the
two sides related, a run whose steps meet `C` ends related to the abstract
side's answer to the same events. -/
theorem run_simulates {C : σ → ε → Prop} {Sim : σ → α → Prop} {astep : α → ε → α}
    (hstep : ∀ s e s' a, Sim s a → C s e → step s e = some s' → Sim s' (astep a e))
    {s t : σ} {a : α} {es : List ε} (hC : Meets step C s es) (hrun : run step s es = some t)
    (hs : Sim s a) : Sim t (es.foldl astep a) := by
  induction es generalizing s a with
  | nil =>
      simp only [run_nil, Option.some.injEq] at hrun
      exact hrun ▸ hs
  | cons e es ih =>
      obtain ⟨s', he, hrest⟩ := run_cons_eq_some.mp hrun
      obtain ⟨hCe, hCes⟩ := (everyStep_cons he).mp hC
      exact ih hCes hrest (hstep s e s' a hs hCe he)

end Tootti.Machine
