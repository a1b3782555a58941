import Tootti.Storage.Library

/-!
Uploads of recordings whose crop is still being made.

Saving a recording starts an export in the background, which writes the
recording without its latency to a file of its own and then points the Audio
to that file. Confirming the selection reads the Audio's URL at once, and the
upload reads the file some time later. Nothing makes the confirmation wait for
the export, and the export's file is named after the title only.
-/

namespace Tootti.Compensation

open Machine Library Library.Device

variable {α κ : Type} [DecidableEq κ]

/-- A call of `uploadAudioSound:` for row `index`, with the URL the Audio had. -/
structure Upload where
  index : Nat
  url : Option AudioURL

structure State (α κ : Type) where
  library : Library.State α κ
  /-- `selectedRecordings`, by their places among all recordings. -/
  selectedRecordings : List Nat
  uploads : List Upload

inductive Event (α : Type)
  | library (e : Library.Event α)
  | didSelectRow (row : Nat)
  | didDeselectRow (row : Nat)
  | confirmTracks
  /-- The file of upload `j` is read and sent, if there is one. -/
  | send (j : Nat)

def initial : State α κ := ⟨Library.initial, [], []⟩

def confirmTracks (s : State α κ) : State α κ :=
  let upload (i : Nat) : Upload :=
    ⟨i, s.library.audioRecordings[i]?.bind fun x => x.audio.audioURL⟩
  { s with uploads := s.uploads ++ s.selectedRecordings.map upload }

def step (dev : Device α κ) (s : State α κ) : Event α → Option (State α κ)
  | .library e => (dev.step s.library e).map fun library => { s with library }
  | .didSelectRow row =>
      s.library.audioRecordings[row]?.map fun _ =>
        { s with selectedRecordings := s.selectedRecordings ++ [row] }
  | .didDeselectRow row =>
      s.library.audioRecordings[row]?.map fun _ =>
        { s with selectedRecordings := removeObject s.selectedRecordings row }
  | .confirmTracks => some (confirmTracks s)
  | .send j => s.uploads[j]?.map fun _ => { s with uploads := s.uploads.eraseIdx j }

/-- What is sent for a recording is the file of its crop, with its crop. -/
def Compensated (dev : Device α κ) (s : State α κ) (e : Event α) (_ : State α κ) : Prop :=
  match e with
  | .send j => ∀ u ∈ s.uploads[j]?, ∀ x ∈ s.library.audioRecordings[u.index]?,
      ∀ name, u.url = some (.document name) → ∀ content ∈ s.library.files (dev.file name),
        dev.file name = dev.output x ∧ content = x.cropped
  | _ => True

/-- A title leads to no file of another take's, and the selection is confirmed
when no selected recording's export is under way. -/
def Careful (dev : Device α κ) (s : State α κ) : Event α → Prop
  | .library (.save audioName start) =>
      ∀ p ∈ s.library.pending, ∀ y ∈ s.library.audioRecordings,
        dev.output y = dev.file (cropFileName audioName) → y.cropped = dev.crop start p.2
  | .confirmTracks => ∀ c ∈ s.library.crops, c.index ∉ s.selectedRecordings
  | _ => True

/-! ### The exports of every run -/

/-- What the Library keeps besides: an export under way is the only one of its
row, whose URL is still that of the raw take. -/
structure Exports (dev : Device α κ) (s : Library.State α κ) : Prop where
  inv : dev.Inv s
  once : (s.crops.map Crop.index).Nodup
  made : ∀ (i : Nat) x content, s.audioRecordings[i]? = some x →
    s.files (dev.output x) = some content →
      ∃ (k : Nat) (y : Recording α), s.audioRecordings[k]? = some y ∧
        dev.output y = dev.output x ∧ y.cropped = content
  raw : ∀ c ∈ s.crops, ∀ x, s.audioRecordings[c.index]? = some x →
    ∃ name, x.audio.audioURL = some (.document name) ∧ dev.file name ≠ c.output ∧
      ((s.files (dev.file name)).isSome ∨ ∃ c' ∈ s.crops, c'.output = dev.file name)

section Exports

variable {dev : Device α κ} {s s' : Library.State α κ}

omit [DecidableEq κ] in
theorem exports_initial : Exports dev (Library.initial : Library.State α κ) :=
  ⟨inv_initial dev, List.nodup_nil, by simp [Library.initial], by simp [Library.initial]⟩

theorem isSome_update {files : κ → Option α} {path path' : κ} {content : α}
    (h : (files path).isSome) : (Function.update files path' (some content) path).isSome := by
  rw [Function.update_apply]
  split
  · rfl
  · exact h

theorem Exports.record (h : Exports dev s) {t : Nat} {take : α}
    (hstep : dev.step s (.record t take) = some s') : Exports dev s' := by
  have hinv := inv_step h.inv hstep
  obtain ⟨hnone, hcrops, rfl⟩ := step_record hstep
  refine ⟨hinv, h.once, fun i x content hi hfile => ?_, fun c hc x hx => ?_⟩
  · have hne : dev.output x ≠ dev.raw t := by
      intro heq
      -- the file of a row is there or on its way
      rcases h.inv.filed i x hi with ⟨c, hc, hcx⟩ | ⟨k, y, -, -, hold⟩
      · exact hcrops c hc (hcx.trans heq)
      · rw [heq, hnone] at hold
        exact Option.some_ne_none _ hold.symm
    exact h.made i x content hi ((Function.update_of_ne hne _ _).symm.trans hfile)
  · obtain ⟨name, hurl, hne, hfile⟩ := h.raw c hc x hx
    exact ⟨name, hurl, hne, hfile.imp_left isSome_update⟩

theorem Exports.save (h : Exports dev s) {audioName : String} {start : Nat}
    (hstep : dev.step s (.save audioName start) = some s') : Exports dev s' := by
  have hinv := inv_step h.inv hstep
  obtain ⟨t, take, source, hpending, hout, hsource, rfl⟩ := step_save hstep
  have hlt : ∀ c ∈ s.crops, c.index < s.audioRecordings.length := by
    intro c hc
    obtain ⟨x, hx, -⟩ := h.inv.crop c hc
    exact (List.getElem?_eq_some_iff.mp hx).1
  refine ⟨hinv, ?_, fun i x content hi hfile => ?_, fun c hc x hx => ?_⟩
  · have hnew : s.audioRecordings.length ∉ s.crops.map Crop.index := by
      intro hmem
      obtain ⟨c, hc, hindex⟩ := List.mem_map.mp hmem
      exact absurd hindex (Nat.ne_of_lt (hlt c hc))
    have hconcat := List.Nodup.concat hnew h.once
    rw [List.concat_eq_append] at hconcat
    rw [List.map_append]
    exact hconcat
  · dsimp only at hi hfile
    by_cases hsame : dev.output x = dev.file (cropFileName audioName)
    · rw [hsame, Function.update_self] at hfile
      exact absurd hfile (by simp)
    · rw [Function.update_of_ne hsame] at hfile
      rcases getElem?_concat_eq_some.mp hi with hi | ⟨-, rfl⟩
      · obtain ⟨k, y, hk, hrest⟩ := h.made i x content hi hfile
        exact ⟨k, y, getElem?_concat_eq_some.mpr (Or.inl hk), hrest⟩
      · exact absurd rfl hsame
  · -- the raw take of an export that began earlier may be deleted by this one
    have hold : ∀ name, (s.files (dev.file name)).isSome ∨
        (∃ c' ∈ s.crops, c'.output = dev.file name) →
        (Function.update s.files (dev.file (cropFileName audioName)) none (dev.file name)).isSome ∨
          ∃ c' ∈ s.crops ++ [⟨s.audioRecordings.length, dev.file (cropFileName audioName),
            dev.crop start source⟩], c'.output = dev.file name := by
      rintro name (hsome | ⟨c', hc', hout'⟩)
      · by_cases heq : dev.file name = dev.file (cropFileName audioName)
        · exact Or.inr ⟨_, List.mem_append_right _ List.mem_cons_self, heq.symm⟩
        · rw [Function.update_of_ne heq]
          exact Or.inl hsome
      · exact Or.inr ⟨c', List.mem_append_left _ hc', hout'⟩
    rcases List.mem_append.mp hc with hc | hc
    · rcases getElem?_concat_eq_some.mp hx with hx | ⟨hindex, -⟩
      · obtain ⟨name, hurl, hne, hfile⟩ := h.raw c hc x hx
        exact ⟨name, hurl, hne, hold name hfile⟩
      · exact absurd hindex (Nat.ne_of_lt (hlt c hc))
    · obtain rfl := List.mem_singleton.mp hc
      rcases getElem?_concat_eq_some.mp hx with hx | ⟨-, rfl⟩
      · exact absurd (List.getElem?_eq_some_iff.mp hx).1 (Nat.lt_irrefl _)
      · refine ⟨recordingFileName t, rfl, Ne.symm hout, hold _ (Or.inl ?_)⟩
        exact Option.isSome_of_mem hsource

theorem Exports.cropCompleted (h : Exports dev s) {j : Nat}
    (hstep : dev.step s (.cropCompleted j) = some s') : Exports dev s' := by
  have hinv := inv_step h.inv hstep
  obtain ⟨c, hj, rfl⟩ := step_cropCompleted hstep
  have hc : c ∈ s.crops := List.mem_of_getElem? hj
  obtain ⟨z, hz, hcz, hcontent⟩ := h.inv.crop c hc
  refine ⟨hinv, ?_, fun i x content hi hfile => ?_, fun c' hc' x hx => ?_⟩
  · exact h.once.sublist ((List.eraseIdx_sublist _ _).map Crop.index)
  · obtain ⟨x', hx', rfl⟩ := getElem?_repoint.mp hi
    have hout : dev.output (if c.index = i then x'.repoint s.nextPlayer else x') =
        dev.output x' := by split <;> rfl
    dsimp only at hfile
    rw [hout] at hfile ⊢
    by_cases hsame : dev.output x' = c.output
    · rw [hsame, Function.update_self] at hfile
      obtain ⟨z', hz', houtz, hcropped⟩ := exists_repointed dev c.index s.nextPlayer hz
      refine ⟨c.index, z', hz', houtz.trans (hcz.symm.trans hsame.symm), ?_⟩
      exact hcropped.trans (hcontent.symm.trans (Option.some.inj hfile))
    · rw [Function.update_of_ne hsame] at hfile
      obtain ⟨k, y, hk, hyx, hcropped⟩ := h.made i x' content hx' hfile
      obtain ⟨y', hy', houty, hcroppedy⟩ := exists_repointed dev c.index s.nextPlayer hk
      exact ⟨k, y', hy', houty.trans hyx, hcroppedy.trans hcropped⟩
  · obtain ⟨x', hx', rfl⟩ := getElem?_repoint.mp hx
    have hother : c.index ≠ c'.index := (key_ne_of_mem_eraseIdx h.once hj hc').symm
    obtain ⟨name, hurl, hne, hfile⟩ := h.raw c' (List.mem_of_mem_eraseIdx hc') x' hx'
    rw [if_neg hother]
    refine ⟨name, hurl, hne, ?_⟩
    rcases hfile with hsome | ⟨c'', hc'', hout⟩
    · exact Or.inl (isSome_update hsome)
    · rcases eq_or_mem_eraseIdx hj hc'' with rfl | hc''
      · refine Or.inl ?_
        rw [← hout]
        simp
      · exact Or.inr ⟨c'', hc'', hout⟩

theorem Exports.step {e : Library.Event α} (h : Exports dev s) (hstep : dev.step s e = some s') :
    Exports dev s' := by
  cases e with
  | record t take => exact h.record hstep
  | save audioName start => exact h.save hstep
  | cancel =>
      have hinv := inv_step h.inv hstep
      obtain rfl := Option.some.inj hstep
      exact ⟨hinv, h.once, h.made, h.raw⟩
  | cropCompleted j => exact h.cropCompleted hstep

end Exports

/-! ### Careful runs -/

/-- The same title and the same take. -/
def Alike (x y : Recording α) : Prop :=
  x.audio.audioName = y.audio.audioName ∧ x.cropped = y.cropped

theorem rel_alike_refl (o : Option (Recording α)) : Option.Rel Alike o o := by
  cases o with
  | none => exact .none
  | some x => exact .some ⟨rfl, rfl⟩

theorem exists_alike {o o' : Option (Recording α)} {x : Recording α} (h : Option.Rel Alike o' o)
    (hx : o = some x) : ∃ x', o' = some x' ∧ Alike x' x := by
  cases h with
  | none => exact absurd hx (by simp)
  | some h => exact ⟨_, rfl, Option.some.inj hx ▸ h⟩

theorem exists_alike_of_new {o o' : Option (Recording α)} {x' : Recording α}
    (h : Option.Rel Alike o' o) (hx : o' = some x') : ∃ x, o = some x ∧ Alike x' x := by
  cases h with
  | none => exact absurd hx (by simp)
  | some h => exact ⟨_, rfl, Option.some.inj hx ▸ h⟩

/-- An event of the Library adds a row or leaves the rows' titles and takes. -/
theorem rows_step {dev : Device α κ} {s s' : Library.State α κ} {e : Library.Event α}
    (hstep : dev.step s e = some s') :
    (∃ audioName start p x, e = .save audioName start ∧ s.pending = some p ∧
        dev.output x = dev.file (cropFileName audioName) ∧ x.cropped = dev.crop start p.2 ∧
        s'.audioRecordings = s.audioRecordings ++ [x]) ∨
      ∀ k : Nat, Option.Rel Alike s'.audioRecordings[k]? s.audioRecordings[k]? := by
  cases e with
  | record t take =>
      obtain ⟨-, -, rfl⟩ := step_record hstep
      exact Or.inr fun k => rel_alike_refl _
  | save audioName start =>
      obtain ⟨t, take, source, hpending, -, -, rfl⟩ := step_save hstep
      exact Or.inl ⟨audioName, start, (t, take), _, rfl, hpending, rfl, rfl, rfl⟩
  | cancel =>
      obtain rfl := Option.some.inj hstep
      exact Or.inr fun k => rel_alike_refl _
  | cropCompleted j =>
      obtain ⟨c, -, rfl⟩ := step_cropCompleted hstep
      refine Or.inr fun k => ?_
      dsimp only
      rw [List.getElem?_modify]
      cases s.audioRecordings[k]? with
      | none => exact .none
      | some x =>
          refine .some ?_
          split <;> exact ⟨rfl, rfl⟩

/-- No title leads to the file of another take, and what waits to be sent for a
row is the file of its crop. -/
structure Inv (dev : Device α κ) (s : State α κ) : Prop where
  exports : Exports dev s.library
  titles : ∀ (i k : Nat) x y, s.library.audioRecordings[i]? = some x →
    s.library.audioRecordings[k]? = some y → dev.output y = dev.output x → y.cropped = x.cropped
  selected : ∀ i ∈ s.selectedRecordings, i < s.library.audioRecordings.length
  sent : ∀ u ∈ s.uploads, ∃ x, s.library.audioRecordings[u.index]? = some x ∧
    u.url = some (.document (cropFileName x.audio.audioName))

section Careful

variable {dev : Device α κ} {s s' : State α κ} {e : Event α}

omit [DecidableEq κ] in
theorem output_eq_of_alike {x y : Recording α} (h : Alike x y) : dev.output x = dev.output y :=
  congrArg (fun name => dev.file (cropFileName name)) h.1

theorem Inv.library {e : Library.Event α} (h : Inv dev s) (hcareful : Careful dev s (.library e))
    (hstep : step dev s (.library e) = some s') : Inv dev s' := by
  obtain ⟨library, hlibrary, rfl⟩ := Option.map_eq_some_iff.mp hstep
  have hexports := h.exports.step hlibrary
  rcases rows_step hlibrary with ⟨audioName, start, p, x, rfl, hpending, hout, hcrop, hrows⟩ | hrows
  · have hnew : ∀ y ∈ s.library.audioRecordings, dev.output y = dev.output x →
        y.cropped = x.cropped := by
      intro y hy hyx
      rw [hcrop]
      exact hcareful p hpending y hy (hyx.trans hout)
    refine ⟨hexports, fun i k y z hi hk hyz => ?_, fun i hi => ?_, fun u hu => ?_⟩
    · rw [hrows] at hi hk
      rcases getElem?_concat_eq_some.mp hi with hi | ⟨-, rfl⟩ <;>
        rcases getElem?_concat_eq_some.mp hk with hk | ⟨-, rfl⟩
      · exact h.titles i k y z hi hk hyz
      · exact (hnew y (List.mem_of_getElem? hi) hyz.symm).symm
      · exact hnew z (List.mem_of_getElem? hk) hyz
      · rfl
    · rw [hrows, List.length_append]
      exact Nat.lt_add_right _ (h.selected i hi)
    · obtain ⟨y, hy, hurl⟩ := h.sent u hu
      exact ⟨y, hrows ▸ getElem?_concat_eq_some.mpr (Or.inl hy), hurl⟩
  · refine ⟨hexports, fun i k x' y' hi hk hyx => ?_, fun i hi => ?_, fun u hu => ?_⟩
    · obtain ⟨x, hx, hxx⟩ := exists_alike_of_new (hrows i) hi
      obtain ⟨y, hy, hyy⟩ := exists_alike_of_new (hrows k) hk
      rw [output_eq_of_alike hxx, output_eq_of_alike hyy] at hyx
      rw [hxx.2, hyy.2]
      exact h.titles i k x y hx hy hyx
    · obtain ⟨x', hx', -⟩ := exists_alike (hrows i) (List.getElem?_eq_getElem (h.selected i hi))
      exact (List.getElem?_eq_some_iff.mp hx').1
    · obtain ⟨x, hx, hurl⟩ := h.sent u hu
      obtain ⟨x', hx', hname, -⟩ := exists_alike (hrows u.index) hx
      exact ⟨x', hx', by rw [hname]; exact hurl⟩

theorem Inv.step (h : Inv dev s) (hcareful : Careful dev s e) (hstep : step dev s e = some s') :
    Inv dev s' := by
  cases e with
  | library e => exact h.library hcareful hstep
  | didSelectRow row =>
      obtain ⟨x, hx, rfl⟩ := Option.map_eq_some_iff.mp hstep
      refine ⟨h.exports, h.titles, fun i hi => ?_, h.sent⟩
      rcases List.mem_append.mp hi with hi | hi
      · exact h.selected i hi
      · rw [List.mem_singleton.mp hi]
        exact (List.getElem?_eq_some_iff.mp hx).1
  | didDeselectRow row =>
      obtain ⟨x, hx, rfl⟩ := Option.map_eq_some_iff.mp hstep
      exact ⟨h.exports, h.titles, fun i hi => h.selected i (mem_removeObject.mp hi).1, h.sent⟩
  | confirmTracks =>
      obtain rfl := Option.some.inj hstep
      refine ⟨h.exports, h.titles, h.selected, fun u hu => ?_⟩
      rcases List.mem_append.mp hu with hu | hu
      · exact h.sent u hu
      · obtain ⟨i, hi, rfl⟩ := List.mem_map.mp hu
        have hx := List.getElem?_eq_getElem (h.selected i hi)
        refine ⟨_, hx, ?_⟩
        rcases h.exports.inv.url i _ hx with ⟨c, hc, rfl⟩ | hurl
        · exact absurd hi (hcareful c hc)
        · show (s.library.audioRecordings[i]?.bind fun x => x.audio.audioURL) = _
          rw [hx]
          exact hurl
  | send j =>
      obtain ⟨u, -, rfl⟩ := Option.map_eq_some_iff.mp hstep
      exact ⟨h.exports, h.titles, h.selected, fun u hu => h.sent u (List.mem_of_mem_eraseIdx hu)⟩

omit [DecidableEq κ] in
theorem compensated_of_inv (h : Inv dev s) : Compensated dev s e s' := by
  cases e with
  | send j =>
      intro u hu x hx name hname content hfile
      obtain ⟨x', hx', hurl⟩ := h.sent u (List.mem_of_getElem? hu)
      obtain rfl := Option.some.inj (hx.symm.trans hx')
      obtain rfl := AudioURL.document.inj (Option.some.inj (hname.symm.trans hurl))
      obtain ⟨k, y, hk, hyx, rfl⟩ := h.exports.made u.index x content hx hfile
      exact ⟨rfl, h.titles u.index k x y hx hk hyx⟩
  | library | didSelectRow | didDeselectRow | confirmTracks => trivial

end Careful

/-! ### Runs that are not careful -/

section Failing

variable {dev : Device α κ} {s s' : State α κ}

theorem broken_send {j : Nat} {u : Upload} {x : Recording α} {name : String} {content : α}
    (hu : s.uploads[j]? = some u) (hx : s.library.audioRecordings[u.index]? = some x)
    (hurl : u.url = some (.document name)) (hfile : s.library.files (dev.file name) = some content)
    (hbad : ¬ (dev.file name = dev.output x ∧ content = x.cropped)) :
    ¬ EveryStep (step dev) (Compensated dev) s [.send j] := by
  intro h
  have hstep : step dev s (.send j) = some { s with uploads := s.uploads.eraseIdx j } := by
    simp only [step, hu, Option.map_some]
  exact hbad (((everyStep_cons hstep).mp h).1 u hu x hx name hurl content hfile)

/-- Every export under way completes, one after the other. -/
theorem exists_completed (h : Exports dev s.library) :
    ∃ es t, run (step dev) s es = some t ∧ Exports dev t.library ∧ t.library.crops = [] ∧
      ∀ (k : Nat) x, s.library.audioRecordings[k]? = some x →
        ∃ x', t.library.audioRecordings[k]? = some x' ∧ Alike x' x := by
  induction hn : s.library.crops.length generalizing s with
  | zero =>
      refine ⟨[], s, rfl, h, List.eq_nil_of_length_eq_zero hn, fun k x hx => ⟨x, hx, rfl, rfl⟩⟩
  | succ n ih =>
      have hzero : 0 < s.library.crops.length := hn ▸ Nat.succ_pos n
      have hhead := List.getElem?_eq_getElem hzero
      have hlibrary : ∃ l, dev.step s.library (.cropCompleted 0) = some l :=
        ⟨_, by rw [Device.step, hhead]; rfl⟩
      obtain ⟨l, hl⟩ := hlibrary
      have hrows : ∀ k : Nat,
          Option.Rel Alike l.audioRecordings[k]? s.library.audioRecordings[k]? := by
        rcases rows_step hl with ⟨_, _, _, _, he, -⟩ | hrows
        · exact absurd he (by simp)
        · exact hrows
      have hlength : l.crops.length = n := by
        obtain ⟨c, -, rfl⟩ := step_cropCompleted hl
        rw [List.length_eraseIdx_of_lt hzero, hn]
        rfl
      obtain ⟨es, t, hrun, hexports, hdone, halike⟩ :=
        ih (s := { s with library := l }) (h.step hl) hlength
      refine ⟨.library (.cropCompleted 0) :: es, t, ?_, hexports, hdone, fun k x hx => ?_⟩
      · exact run_cons_eq_some.mpr ⟨_, by rw [step, hl]; rfl, hrun⟩
      · obtain ⟨y, hy, hyx⟩ := exists_alike (hrows k) hx
        obtain ⟨z, hz, hzy⟩ := halike k y hy
        exact ⟨z, hz, hzy.1.trans hyx.1, hzy.2.trans hyx.2⟩

/-- With no export under way a row is sent from the file of its title. -/
theorem broken_of_row (h : Exports dev s.library) (hdone : s.library.crops = []) {i : Nat}
    {x : Recording α} {content : α} (hx : s.library.audioRecordings[i]? = some x)
    (hfile : s.library.files (dev.output x) = some content) (hne : content ≠ x.cropped) :
    ∃ fs, ¬ EveryStep (step dev) (Compensated dev) s fs := by
  have hurl : x.audio.audioURL = some (.document (cropFileName x.audio.audioName)) := by
    rcases h.inv.url i x hx with ⟨c, hc, -⟩ | hurl
    · simp [hdone] at hc
    · exact hurl
  let selected := s.selectedRecordings ++ [i]
  let m : State α κ := confirmTracks { s with selectedRecordings := selected }
  have hselect : run (step dev) s [.didSelectRow i, .confirmTracks] = some m := by
    simp only [run, step, hx, Option.map_some, Option.bind_some]
    rfl
  have hupload : m.uploads[s.uploads.length + s.selectedRecordings.length]? =
      some ⟨i, x.audio.audioURL⟩ := by
    simp [m, confirmTracks, selected, hx]
  refine ⟨[.didSelectRow i, .confirmTracks] ++
    [.send (s.uploads.length + s.selectedRecordings.length)], fun hall => ?_⟩
  exact broken_send hupload hx hurl hfile (fun hgood => hne hgood.2)
    ((everyStep_append.mp hall).2 m hselect)

theorem broken_of_namesakes (h : Exports dev s.library) {i k : Nat} {x y : Recording α}
    (hx : s.library.audioRecordings[i]? = some x) (hy : s.library.audioRecordings[k]? = some y)
    (hsame : dev.output y = dev.output x) (hne : y.cropped ≠ x.cropped) :
    ∃ fs, ¬ EveryStep (step dev) (Compensated dev) s fs := by
  obtain ⟨es, t, hrun, hexports, hdone, halike⟩ := exists_completed h
  obtain ⟨x', hx', hxx⟩ := halike i x hx
  obtain ⟨y', hy', hyy⟩ := halike k y hy
  have hout : dev.output y' = dev.output x' := by
    rw [output_eq_of_alike hyy, hsame, output_eq_of_alike hxx]
  have hcropped : y'.cropped ≠ x'.cropped := by
    rw [hyy.2, hxx.2]
    exact hne
  -- one file cannot hold both crops
  have hrow : ∃ fs, ¬ EveryStep (step dev) (Compensated dev) t fs := by
    rcases hexports.inv.filed i x' hx' with ⟨c, hc, -⟩ | ⟨m, z, -, -, hfile⟩
    · simp [hdone] at hc
    · by_cases hz : z.cropped = x'.cropped
      · exact broken_of_row hexports hdone hy' (hout ▸ hfile) fun hzy =>
          hcropped (hzy.symm.trans hz)
      · exact broken_of_row hexports hdone hx' hfile hz
  obtain ⟨fs, hfs⟩ := hrow
  exact ⟨es ++ fs, fun hall => hfs ((everyStep_append.mp hall).2 t hrun)⟩

/-- A row confirmed while its export is under way is sent from its raw file. -/
theorem broken_of_pending (h : Exports dev s.library) {c : Crop α κ} (hc : c ∈ s.library.crops)
    (hselected : c.index ∈ s.selectedRecordings) :
    ∃ fs, ¬ EveryStep (step dev) (Compensated dev) (confirmTracks s) fs := by
  obtain ⟨x, hx, hout, -⟩ := h.inv.crop c hc
  obtain ⟨name, hurl, hne, hfile⟩ := h.raw c hc x hx
  have hupload : (⟨c.index, x.audio.audioURL⟩ : Upload) ∈ (confirmTracks s).uploads := by
    refine List.mem_append_right _ (List.mem_map.mpr ⟨c.index, hselected, ?_⟩)
    simp [hx]
  obtain ⟨j, hj⟩ := List.mem_iff_getElem?.mp hupload
  rcases hfile with hsome | ⟨c', hc', hout'⟩
  · obtain ⟨content, hcontent⟩ := Option.isSome_iff_exists.mp hsome
    exact ⟨[.send j], broken_send hj hx hurl hcontent fun hgood => hne (hgood.1.trans hout.symm)⟩
  · -- another export is about to fill the raw file
    obtain ⟨l, hl⟩ := List.mem_iff_getElem?.mp hc'
    let library : Library.State α κ := { s.library with
      files := Function.update s.library.files c'.output (some c'.content)
      audioRecordings := s.library.audioRecordings.modify c'.index (.repoint s.library.nextPlayer)
      crops := s.library.crops.eraseIdx l
      nextPlayer := s.library.nextPlayer + 1 }
    have hstep : step dev (confirmTracks s) (.library (.cropCompleted l)) =
        some { confirmTracks s with library } := by
      simp only [step, Device.step, confirmTracks, hl, Option.map_some, library]
    obtain ⟨x', hx', houtx, -⟩ := exists_repointed dev c'.index s.library.nextPlayer hx
    have hcontent : library.files (dev.file name) = some c'.content := by
      rw [← hout']
      exact Function.update_self _ _ _
    refine ⟨[.library (.cropCompleted l), .send j], fun hall => ?_⟩
    refine broken_send (s := { confirmTracks s with library }) hj hx' hurl hcontent ?_
      ((everyStep_cons hstep).mp hall).2
    exact fun hgood => hne ((hgood.1.trans houtx).trans hout.symm)

theorem broken_of_not_careful {e : Event α} (h : Inv dev s) (hcareful : ¬ Careful dev s e)
    (hstep : step dev s e = some s') :
    ∃ fs, ¬ EveryStep (step dev) (Compensated dev) s (e :: fs) := by
  have hlater : (∃ fs, ¬ EveryStep (step dev) (Compensated dev) s' fs) →
      ∃ fs, ¬ EveryStep (step dev) (Compensated dev) s (e :: fs) := by
    rintro ⟨fs, hfs⟩
    exact ⟨fs, fun hall => hfs ((everyStep_cons hstep).mp hall).2⟩
  refine hlater ?_
  match e, hcareful, hstep with
  | .library (.save audioName start), hcareful, hstep =>
      obtain ⟨library, hlibrary, rfl⟩ := Option.map_eq_some_iff.mp hstep
      obtain ⟨p, hpending, y, hy, hout, hne⟩ : ∃ p, s.library.pending = some p ∧
          ∃ y ∈ s.library.audioRecordings,
            dev.output y = dev.file (cropFileName audioName) ∧ y.cropped ≠ dev.crop start p.2 := by
        simpa [Careful] using hcareful
      obtain ⟨t, take, source, hpending', -, -, hlib⟩ := step_save hlibrary
      obtain rfl := Option.some.inj (hpending'.symm.trans hpending)
      obtain ⟨k, hk⟩ := List.mem_iff_getElem?.mp hy
      have hrows : library.audioRecordings = s.library.audioRecordings ++
          [⟨dev.savedAudio audioName t s.library.nextPlayer, dev.crop start take⟩] := by
        rw [hlib]
      refine broken_of_namesakes (h.exports.step hlibrary) (i := s.library.audioRecordings.length)
        (k := k) (x := ⟨dev.savedAudio audioName t s.library.nextPlayer, dev.crop start take⟩)
        ?_ ?_ hout hne
      · rw [hrows]
        exact getElem?_concat_eq_some.mpr (Or.inr ⟨rfl, rfl⟩)
      · rw [hrows]
        exact getElem?_concat_eq_some.mpr (Or.inl hk)
  | .confirmTracks, hcareful, hstep =>
      obtain rfl := Option.some.inj hstep
      obtain ⟨c, hc, hselected⟩ : ∃ c ∈ s.library.crops, c.index ∈ s.selectedRecordings := by
        simpa [Careful] using hcareful
      exact broken_of_pending h.exports hc hselected
  | .library (.record _ _), hcareful, _ => exact absurd trivial hcareful
  | .library .cancel, hcareful, _ => exact absurd trivial hcareful
  | .library (.cropCompleted _), hcareful, _ => exact absurd trivial hcareful
  | .didSelectRow _, hcareful, _ => exact absurd trivial hcareful
  | .didDeselectRow _, hcareful, _ => exact absurd trivial hcareful
  | .send _, hcareful, _ => exact absurd trivial hcareful

end Failing

omit [DecidableEq κ] in
theorem inv_initial (dev : Device α κ) : Inv dev initial :=
  ⟨exports_initial, by simp [initial, Library.initial], by simp [initial], by simp [initial]⟩

/-- What is sent in a careful run is the crop; a run that is not careful has a
beginning after which something else is sent. -/
theorem compensated_of_careful (dev : Device α κ) (es : List (Event α)) :
    (Meets (step dev) (Careful dev) initial es →
      EveryStep (step dev) (Compensated dev) initial es) ∧
    (¬ Meets (step dev) (Careful dev) initial es →
      ∃ before after fs, es = before ++ after ∧
        ¬ EveryStep (step dev) (Compensated dev) initial (before ++ fs)) := by
  refine ⟨fun hcareful => ?_, fun hcareful => ?_⟩
  · refine hcareful.everyStep (I := Inv dev) (fun s e s' hs hCe hstep => ?_) (inv_initial dev)
    exact ⟨compensated_of_inv hs, hs.step hCe hstep⟩
  · refine exists_broken_of_not_meets (I := Inv dev) (fun s e s' hs hCe hstep => ?_)
      (fun s e s' hs hCe hstep => ?_) hcareful (inv_initial dev)
    · exact hs.step hCe hstep
    · exact broken_of_not_careful hs hCe hstep

/-- A take that is saved, selected and confirmed before its export completes is
sent as it was recorded. -/
theorem raw_take_sent :
    ¬ ∀ (dev : Device Nat String) (es : List (Event Nat)),
      EveryStep (step dev) (Compensated dev) initial es := by
  intro h
  let es : List (Event Nat) := [.library (.record 1 17), .library (.save "take" 2),
    .didSelectRow 0, .confirmTracks]
  have hsome : (run (step plain) initial es).isSome := by decide +kernel
  obtain ⟨s, hs⟩ := Option.isSome_iff_exists.mp hsome
  have hupload : s.uploads[0]?.map (fun u => (u.index, u.url)) =
      some (0, some (.document (recordingFileName 1))) :=
    eq_of_map_run (f := fun s => s.uploads[0]?.map fun u => (u.index, u.url)) hs
      (by decide +kernel)
  have hrow : s.library.audioRecordings[0]?.map (fun x => x.audio.audioName) = some "take" :=
    eq_of_map_run (f := fun s => s.library.audioRecordings[0]?.map fun x => x.audio.audioName) hs
      (by decide +kernel)
  have hfile : s.library.files (recordingFileName 1) = some 17 :=
    eq_of_map_run (f := fun s => s.library.files (recordingFileName 1)) hs (by decide +kernel)
  obtain ⟨u, hu, hparts⟩ := Option.map_eq_some_iff.mp hupload
  obtain ⟨hindex, hurl⟩ := Prod.mk.inj hparts
  obtain ⟨x, hx, hname⟩ := Option.map_eq_some_iff.mp hrow
  refine broken_send hu (hindex ▸ hx) hurl hfile ?_
    ((everyStep_append.mp (h plain (es ++ [.send 0]))).2 s hs)
  rintro ⟨hout, -⟩
  rw [Device.output, hname] at hout
  exact absurd hout (by decide +kernel)

end Tootti.Compensation
