import Mathlib.Data.List.Basic
import Tootti.Machine.Run
import Tootti.Model.Session

/-!
The Library's recordings and the files of the Documents folder.

Every recording is made in a file named after the time, and is then cropped
into a file named after the title the user gave it. The export runs in the
background; when it completes the recording's Audio is pointed to the new
file. Nothing looks whether the title is in use.
-/

namespace Tootti.Library

open Machine

variable {α κ : Type} [DecidableEq κ]

/-- A row of `audioRecordings`, with the cropped take it was made for. -/
structure Recording (α : Type) where
  audio : Audio
  cropped : α

def cropFileName (audioName : String) : String := audioName ++ ".wav"

/-- What the completion of the crop does to the Audio. -/
def Recording.repoint (player : Nat) (x : Recording α) : Recording α :=
  { x with audio := { x.audio with
    audioURL := some (.document (cropFileName x.audio.audioName))
    player := player } }

structure Crop (α κ : Type) where
  index : Nat
  output : κ
  content : α

/-- `α` is what an audio file contains, and `κ` what a path comes down to in
the file system. -/
structure State (α κ : Type) where
  files : κ → Option α
  /-- The take whose naming alert is open, and its time. -/
  pending : Option (Nat × α)
  audioRecordings : List (Recording α)
  crops : List (Crop α κ)
  nextPlayer : Nat

inductive Event (α : Type)
  /-- A take is recorded in the file of time `t`. -/
  | record (t : Nat) (take : α)
  /-- Save on the naming alert, and the start of the crop at `start`. -/
  | save (audioName : String) (start : Nat)
  | cancel
  | cropCompleted (j : Nat)

def initial : State α κ := ⟨fun _ => none, none, [], [], 0⟩

/-- `file` gives the file of the Documents folder that a name leads to, and
`crop` the part of an audio file from a time on. -/
structure Device (α κ : Type) where
  user : User
  file : String → κ
  crop : Nat → α → α

namespace Device

variable (dev : Device α κ)

def raw (t : Nat) : κ := dev.file (recordingFileName t)

def output (x : Recording α) : κ := dev.file (cropFileName x.audio.audioName)

/-- The Audio of the Save handler. -/
def savedAudio (audioName : String) (t player : Nat) : Audio :=
  ⟨audioName, dev.user.uid, dev.user.username, some (.document (recordingFileName t)), player⟩

def step (s : State α κ) : Event α → Option (State α κ)
  | .record t take =>
      -- the file of the time is the recording's own
      if s.files (dev.raw t) = none ∧ ∀ c ∈ s.crops, c.output ≠ dev.raw t then
        some { s with
          files := Function.update s.files (dev.raw t) (some take)
          pending := some (t, take) }
      else none
  | .save audioName start =>
      match s.pending with
      | none => none
      | some (t, take) =>
          let output := dev.file (cropFileName audioName)
          -- an export that begins by deleting its source cannot complete
          if output = dev.raw t then none
          else
            (s.files (dev.raw t)).map fun source =>
              let x : Recording α := ⟨dev.savedAudio audioName t s.nextPlayer, dev.crop start take⟩
              { files := Function.update s.files output none
                pending := none
                audioRecordings := s.audioRecordings ++ [x]
                crops := s.crops ++ [⟨s.audioRecordings.length, output, dev.crop start source⟩]
                nextPlayer := s.nextPlayer + 1 }
  | .cancel => some { s with pending := none }
  | .cropCompleted j =>
      s.crops[j]?.map fun c =>
        { s with
          files := Function.update s.files c.output (some c.content)
          audioRecordings := s.audioRecordings.modify c.index (.repoint s.nextPlayer)
          crops := s.crops.eraseIdx j
          nextPlayer := s.nextPlayer + 1 }

/-- The row's URL names a file that holds the row's own take. -/
def Keeps (s : State α κ) (x : Recording α) : Prop :=
  ∃ name, x.audio.audioURL = some (.document name) ∧ s.files (dev.file name) = some x.cropped

/-! ### The invariant of runs -/

structure Inv (s : State α κ) : Prop where
  /-- The take that waits for a name is in its file. -/
  pending : ∀ t take, s.pending = some (t, take) →
    s.files (dev.raw t) = some take ∧ ∀ c ∈ s.crops, c.output ≠ dev.raw t
  /-- Every export makes the crop of a row. -/
  crop : ∀ c ∈ s.crops, ∃ x, s.audioRecordings[c.index]? = some x ∧ c.output = dev.output x ∧
    c.content = x.cropped
  /-- A row's file is still to be made, or holds the crop of some row. -/
  filed : ∀ (i : Nat) x, s.audioRecordings[i]? = some x → (∃ c ∈ s.crops, c.output = dev.output x) ∨
    ∃ (k : Nat) (y : Recording α), s.audioRecordings[k]? = some y ∧ dev.output y = dev.output x ∧
      s.files (dev.output x) = some y.cropped
  /-- A row whose export has completed points to its crop. -/
  url : ∀ (i : Nat) x, s.audioRecordings[i]? = some x → (∃ c ∈ s.crops, c.index = i) ∨
    x.audio.audioURL = some (.document (cropFileName x.audio.audioName))

omit [DecidableEq κ] in
theorem inv_initial : dev.Inv initial :=
  ⟨by simp [initial], by simp [initial], by simp [initial], by simp [initial]⟩

variable {dev} {s s' : State α κ}

theorem step_record {t : Nat} {take : α} (hstep : dev.step s (.record t take) = some s') :
    s.files (dev.raw t) = none ∧ (∀ c ∈ s.crops, c.output ≠ dev.raw t) ∧
      s' = { s with
        files := Function.update s.files (dev.raw t) (some take)
        pending := some (t, take) } := by
  simp only [step] at hstep
  split at hstep <;> simp only [Option.some.injEq, reduceCtorEq] at hstep
  rename_i hfree
  exact ⟨hfree.1, hfree.2, hstep.symm⟩

theorem step_save {audioName : String} {start : Nat}
    (hstep : dev.step s (.save audioName start) = some s') :
    ∃ t take source, s.pending = some (t, take) ∧
      dev.file (cropFileName audioName) ≠ dev.raw t ∧ s.files (dev.raw t) = some source ∧
      s' = { files := Function.update s.files (dev.file (cropFileName audioName)) none
             pending := none
             audioRecordings := s.audioRecordings ++
               [⟨dev.savedAudio audioName t s.nextPlayer, dev.crop start take⟩]
             crops := s.crops ++ [⟨s.audioRecordings.length, dev.file (cropFileName audioName),
               dev.crop start source⟩]
             nextPlayer := s.nextPlayer + 1 } := by
  simp only [step] at hstep
  split at hstep
  · simp at hstep
  · rename_i t take hpending
    split at hstep <;> simp only [Option.map_eq_some_iff, reduceCtorEq] at hstep
    rename_i hout
    obtain ⟨source, hsource, hs'⟩ := hstep
    exact ⟨t, take, source, hpending, hout, hsource, hs'.symm⟩

theorem step_cropCompleted {j : Nat} (hstep : dev.step s (.cropCompleted j) = some s') :
    ∃ c, s.crops[j]? = some c ∧ s' = { s with
      files := Function.update s.files c.output (some c.content)
      audioRecordings := s.audioRecordings.modify c.index (.repoint s.nextPlayer)
      crops := s.crops.eraseIdx j
      nextPlayer := s.nextPlayer + 1 } := by
  obtain ⟨c, hc, hs'⟩ := Option.map_eq_some_iff.mp hstep
  exact ⟨c, hc, hs'.symm⟩

theorem Inv.record (h : dev.Inv s) {t : Nat} {take : α}
    (hstep : dev.step s (.record t take) = some s') : dev.Inv s' := by
  obtain ⟨hnone, hcrops, rfl⟩ := step_record hstep
  refine ⟨fun t' take' hp => ?_, h.crop, fun i x hi => ?_, h.url⟩
  · obtain ⟨rfl, rfl⟩ := Prod.mk.inj (Option.some.inj hp)
    exact ⟨Function.update_self _ _ _, hcrops⟩
  · refine (h.filed i x hi).imp_right ?_
    rintro ⟨k, y, hk, hyx, hfile⟩
    have hne : dev.output x ≠ dev.raw t := fun heq => by simp [heq, hnone] at hfile
    exact ⟨k, y, hk, hyx, (Function.update_of_ne hne _ _).trans hfile⟩

/-- A crop begins by taking away what its output file held. -/
theorem Inv.save (h : dev.Inv s) {audioName : String} {start : Nat}
    (hstep : dev.step s (.save audioName start) = some s') : dev.Inv s' := by
  obtain ⟨t, take, source, hpending, -, hsource, rfl⟩ := step_save hstep
  obtain rfl : take = source :=
    Option.some.inj ((h.pending t take hpending).1.symm.trans hsource)
  let x : Recording α := ⟨dev.savedAudio audioName t s.nextPlayer, dev.crop start take⟩
  refine ⟨by simp, fun c hc => ?_, fun i y hi => ?_, fun i y hi => ?_⟩
  · rcases List.mem_append.mp hc with hc | hc
    · obtain ⟨y, hy, hrest⟩ := h.crop c hc
      exact ⟨y, getElem?_concat_eq_some.mpr (Or.inl hy), hrest⟩
    · rw [List.mem_singleton.mp hc]
      exact ⟨x, getElem?_concat_eq_some.mpr (Or.inr ⟨rfl, rfl⟩), rfl, rfl⟩
  · rcases getElem?_concat_eq_some.mp hi with hi | ⟨-, rfl⟩
    · by_cases hsame : dev.output y = dev.output x
      · exact Or.inl ⟨_, List.mem_append_right _ List.mem_cons_self, hsame.symm⟩
      · rcases h.filed i y hi with ⟨c, hc, hcy⟩ | ⟨k, z, hk, hzy, hfile⟩
        · exact Or.inl ⟨c, List.mem_append_left _ hc, hcy⟩
        · refine Or.inr ⟨k, z, getElem?_concat_eq_some.mpr (Or.inl hk), hzy, ?_⟩
          exact (Function.update_of_ne hsame _ _).trans hfile
    · exact Or.inl ⟨_, List.mem_append_right _ List.mem_cons_self, rfl⟩
  · rcases getElem?_concat_eq_some.mp hi with hi | ⟨rfl, -⟩
    · refine (h.url i y hi).imp_left ?_
      rintro ⟨c, hc, hci⟩
      exact ⟨c, List.mem_append_left _ hc, hci⟩
    · exact Or.inl ⟨_, List.mem_append_right _ List.mem_cons_self, rfl⟩

theorem getElem?_repoint {l : List (Recording α)} {i k player : Nat} {x : Recording α} :
    (l.modify i (.repoint player))[k]? = some x ↔
      ∃ y, l[k]? = some y ∧ x = if i = k then y.repoint player else y := by
  rw [List.getElem?_modify]
  cases l[k]? with
  | none => simp
  | some y =>
      by_cases hik : i = k <;> simp [hik, eq_comm]

variable (dev) in
omit [DecidableEq κ] in
/-- Repointing a row leaves its title and its take. -/
theorem exists_repointed {l : List (Recording α)} {k : Nat} {y : Recording α} (i player : Nat)
    (hk : l[k]? = some y) :
    ∃ y', (l.modify i (.repoint player))[k]? = some y' ∧ dev.output y' = dev.output y ∧
      y'.cropped = y.cropped := by
  refine ⟨_, getElem?_repoint.mpr ⟨y, hk, rfl⟩, ?_⟩
  split <;> exact ⟨rfl, rfl⟩

theorem Inv.cropCompleted (h : dev.Inv s) {j : Nat}
    (hstep : dev.step s (.cropCompleted j) = some s') : dev.Inv s' := by
  obtain ⟨c, hj, rfl⟩ := step_cropCompleted hstep
  have hc : c ∈ s.crops := List.mem_of_getElem? hj
  obtain ⟨z, hz, hcz, hcontent⟩ := h.crop c hc
  -- an export is the one that completes or stays under way
  have hother : ∀ c' ∈ s.crops, c' = c ∨ c' ∈ s.crops.eraseIdx j :=
    fun c' hc' => eq_or_mem_eraseIdx hj hc'
  have hrow : ∀ (k : Nat) (y : Recording α), s.audioRecordings[k]? = some y →
      ∃ y', (s.audioRecordings.modify c.index (.repoint s.nextPlayer))[k]? = some y' ∧
        dev.output y' = dev.output y ∧ y'.cropped = y.cropped :=
    fun k y hk => exists_repointed dev c.index s.nextPlayer hk
  refine ⟨fun t take hp => ?_, fun c' hc' => ?_, fun i x hi => ?_, fun i x hi => ?_⟩
  · obtain ⟨hfile, hfree⟩ := h.pending t take hp
    refine ⟨?_, fun c' hc' => hfree c' (List.mem_of_mem_eraseIdx hc')⟩
    exact (Function.update_of_ne (Ne.symm (hfree c hc)) _ _).trans hfile
  · obtain ⟨y, hy, hcy, hcontent'⟩ := h.crop c' (List.mem_of_mem_eraseIdx hc')
    obtain ⟨y', hy', hout, hcropped⟩ := hrow _ y hy
    exact ⟨y', hy', hcy.trans hout.symm, hcontent'.trans hcropped.symm⟩
  · obtain ⟨y, hy, rfl⟩ := getElem?_repoint.mp hi
    have hxy : dev.output (if c.index = i then y.repoint s.nextPlayer else y) = dev.output y := by
      split <;> rfl
    rw [hxy]
    by_cases hsame : dev.output y = c.output
    · -- the file has just been filled with the crop of row `c.index`
      obtain ⟨z', hz', hout, hcropped⟩ := hrow _ z hz
      refine Or.inr ⟨c.index, z', hz', hout.trans (hcz.symm.trans hsame.symm), ?_⟩
      rw [hsame, hcropped, ← hcontent]
      exact Function.update_self _ _ _
    · rcases h.filed i y hy with ⟨c', hc', hcy⟩ | ⟨k, v, hk, hvy, hfile⟩
      · rcases hother c' hc' with rfl | hc'
        · exact absurd hcy.symm hsame
        · exact Or.inl ⟨c', hc', hcy⟩
      · obtain ⟨v', hv', hout, hcropped⟩ := hrow k v hk
        refine Or.inr ⟨k, v', hv', hout.trans hvy, ?_⟩
        rw [hcropped]
        exact (Function.update_of_ne hsame _ _).trans hfile
  · obtain ⟨y, hy, rfl⟩ := getElem?_repoint.mp hi
    by_cases hindex : c.index = i
    · rw [if_pos hindex]
      exact Or.inr rfl
    · rw [if_neg hindex]
      rcases h.url i y hy with ⟨c', hc', hci⟩ | hurl
      · rcases hother c' hc' with rfl | hc'
        · exact absurd hci hindex
        · exact Or.inl ⟨c', hc', hci⟩
      · exact Or.inr hurl

theorem inv_step {e : Event α} (h : dev.Inv s) (hstep : dev.step s e = some s') : dev.Inv s' := by
  cases e with
  | record t take => exact h.record hstep
  | save audioName start => exact h.save hstep
  | cancel =>
      simp only [step, Option.some.injEq] at hstep
      subst s'
      exact ⟨by simp, h.crop, h.filed, h.url⟩
  | cropCompleted j => exact h.cropCompleted hstep

omit [DecidableEq κ] in
theorem Inv.keeps_iff (h : dev.Inv s) (hdone : s.crops = []) {x : Recording α}
    (hx : x ∈ s.audioRecordings) : dev.Keeps s x ↔ s.files (dev.output x) = some x.cropped := by
  obtain ⟨i, hi⟩ := List.mem_iff_getElem?.mp hx
  have hurl : x.audio.audioURL = some (.document (cropFileName x.audio.audioName)) := by
    rcases h.url i x hi with ⟨c, hc, -⟩ | hurl
    · simp [hdone] at hc
    · exact hurl
  simp only [Keeps, hurl, Option.some.injEq, AudioURL.document.injEq]
  refine ⟨?_, fun hfile => ⟨_, rfl, hfile⟩⟩
  rintro ⟨name, rfl, hfile⟩
  exact hfile

/-- In every run, once no export is under way, the recordings keep their own
takes exactly if any two whose titles lead to one file have the same take. -/
theorem recordings_kept_iff {es : List (Event α)} (hrun : run dev.step initial es = some s)
    (hdone : s.crops = []) :
    (∀ x ∈ s.audioRecordings, dev.Keeps s x) ↔
      ∀ x ∈ s.audioRecordings, ∀ y ∈ s.audioRecordings,
        dev.output x = dev.output y → x.cropped = y.cropped := by
  have h : dev.Inv s := run_invariant (fun _ _ _ h hs => inv_step h hs) hrun (inv_initial dev)
  constructor
  · intro hkeeps x hx y hy hxy
    have hfx := (h.keeps_iff hdone hx).mp (hkeeps x hx)
    have hfy := (h.keeps_iff hdone hy).mp (hkeeps y hy)
    rw [hxy] at hfx
    exact Option.some.inj (hfx.symm.trans hfy)
  · intro hsame x hx
    rw [h.keeps_iff hdone hx]
    obtain ⟨i, hi⟩ := List.mem_iff_getElem?.mp hx
    rcases h.filed i x hi with ⟨c, hc, -⟩ | ⟨k, y, hk, hyx, hfile⟩
    · simp [hdone] at hc
    · rw [hfile, hsame x hx y (List.mem_of_getElem? hk) hyx.symm]

def plain : Device Nat String := ⟨⟨"ann", "ann"⟩, id, fun start take => take - start⟩

/-- Two recordings under two titles, whose exports complete the other way
round. -/
theorem recordings_kept_two_titles :
    ∃ s, run plain.step initial [.record 1 17, .save "verse" 2, .record 3 29, .save "chorus" 2,
        .cropCompleted 1, .cropCompleted 0] = some s ∧
      ∀ x ∈ s.audioRecordings, plain.Keeps s x := by
  let es : List (Event Nat) := [.record 1 17, .save "verse" 2, .record 3 29, .save "chorus" 2,
    .cropCompleted 1, .cropCompleted 0]
  have hsome : (run plain.step initial es).isSome := by decide +kernel
  obtain ⟨s, hs⟩ := Option.isSome_iff_exists.mp hsome
  have hcrops : s.crops.length = 0 :=
    eq_of_map_run (f := fun s => s.crops.length) hs (by decide +kernel)
  have htitles : decide (∀ x ∈ s.audioRecordings, ∀ y ∈ s.audioRecordings,
      plain.output x = plain.output y → x.cropped = y.cropped) = true :=
    eq_of_map_run (f := fun s => decide (∀ x ∈ s.audioRecordings, ∀ y ∈ s.audioRecordings,
      plain.output x = plain.output y → x.cropped = y.cropped)) hs (by decide +kernel)
  have hdone : s.crops = [] := List.eq_nil_of_length_eq_zero hcrops
  have hsame := of_decide_eq_true htitles
  exact ⟨s, hs, (recordings_kept_iff hs hdone).mpr hsame⟩

/-- Two recordings under one title: the first row plays the second take. -/
theorem recording_replaced_by_namesake :
    ¬ ∀ (dev : Device Nat String) (es : List (Event Nat)) (s : State Nat String),
      run dev.step initial es = some s → s.crops = [] →
        ∀ x ∈ s.audioRecordings, dev.Keeps s x := by
  intro h
  let es : List (Event Nat) := [.record 1 17, .save "take" 2, .cropCompleted 0, .record 3 29,
    .save "take" 2, .cropCompleted 0]
  have hsome : (run plain.step initial es).isSome := by decide +kernel
  obtain ⟨s, hs⟩ := Option.isSome_iff_exists.mp hsome
  have hcrops : s.crops.length = 0 :=
    eq_of_map_run (f := fun s => s.crops.length) hs (by decide +kernel)
  have hrow : s.audioRecordings.head?.map (fun x => (x.audio.audioURL, x.cropped)) =
      some (some (.document "take.wav"), 15) :=
    eq_of_map_run
      (f := fun s => s.audioRecordings.head?.map fun x => (x.audio.audioURL, x.cropped)) hs
      (by decide +kernel)
  have hfile : s.files "take.wav" = some 27 :=
    eq_of_map_run (f := fun s => s.files "take.wav") hs (by decide +kernel)
  have hdone : s.crops = [] := List.eq_nil_of_length_eq_zero hcrops
  obtain ⟨x, hx, hurl⟩ := Option.map_eq_some_iff.mp hrow
  obtain ⟨name, hname, hkeeps⟩ := h plain es s hs hdone x (List.mem_of_mem_head? hx)
  obtain ⟨hdocument, hcropped⟩ := Prod.mk.inj hurl
  obtain rfl := AudioURL.document.inj (Option.some.inj (hname.symm.trans hdocument))
  have hsame : some 27 = some x.cropped := hfile.symm.trans hkeeps
  rw [hcropped] at hsame
  exact absurd hsame (by decide)

end Device

end Tootti.Library
