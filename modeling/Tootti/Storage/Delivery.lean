import Mathlib.Data.Fintype.Basic
import Tootti.Storage.Compensation

/-!
The way of a take from the phone that recorded it to everybody's Merge screen.

It goes through two namespaces. On the phone the crop is filed under its title,
in the cloud the object is stored under the uploader, the session and the title;
the entry of the session document leads to the object by its URL. Each hop reads
what the hop before has left under a name, at a later time. As long as nobody
deletes a track, everybody hears what its performer kept under its title, if no
title leads another take to the same place.
-/

namespace Tootti.Delivery

open Machine Library

variable {P α κ : Type}

/-- An upload whose file was read, on its way to the storage. -/
structure Transfer (α : Type) where
  entry : GuestTrack
  content : α

structure System (P α κ : Type) where
  phone : P → Compensation.State α κ
  puts : List (Transfer α)
  /-- Stored tracks whose entry is on its way to the session document. -/
  updates : List GuestTrack
  object : String → Option α
  guestPlayerList : List GuestTrack

inductive Event (P α : Type)
  /-- Anything that happens on phone `p` but the reading of a file. -/
  | phone (p : P) (e : Compensation.Event α)
  /-- Upload `j` of phone `p` reads its file. -/
  | putFile (p : P) (j : ℕ)
  | stored (i : ℕ) (success : Bool)
  | updateData (i : ℕ) (success : Bool)

/-- The phones of a session, each with its user and its file system. -/
structure Setting (P α κ : Type) where
  session : String
  device : P → Device α κ

namespace System

def initial : System P α κ where
  phone _ := Compensation.initial
  puts := []
  updates := []
  object _ := none
  guestPlayerList := []

def recordings (s : System P α κ) (p : P) : List (Recording α) :=
  (s.phone p).library.audioRecordings

end System

namespace Setting

/-- The entry under which phone `p` uploads a recording. -/
def entry (c : Setting P α κ) (p : P) (audioName : String) : GuestTrack :=
  let u := (c.device p).user
  ⟨audioName, u.uid, u.username, some (.download (objectPath u.uid c.session audioName))⟩

def path (c : Setting P α κ) (p : P) (audioName : String) : String :=
  objectPath (c.device p).user.uid c.session audioName

end Setting

variable {c : Setting P α κ} {s s' t : System P α κ} {p : P}

example (x : Recording α) : c.entry p x.audio.audioName =
    x.audio.uploadEntry (c.device p).user.uid c.session (c.device p).user.username := rfl

/-- The transfer upload `u` of phone `p` makes of its file, if there is one. -/
def transfer (c : Setting P α κ) (s : System P α κ) (p : P) (u : Compensation.Upload) :
    Option (Transfer α) :=
  match u.url, (s.recordings p)[u.index]? with
  | some (.document name), some x =>
      ((s.phone p).library.files ((c.device p).file name)).map fun content =>
        ⟨c.entry p x.audio.audioName, content⟩
  | _, _ => none

variable [DecidableEq P] [DecidableEq κ]

def onPhone (c : Setting P α κ) (s : System P α κ) (p : P) (e : Compensation.Event α) :
    Option (System P α κ) :=
  (Compensation.step (c.device p) (s.phone p) e).map fun q =>
    { s with phone := Function.update s.phone p q }

def step (c : Setting P α κ) (s : System P α κ) : Event P α → Option (System P α κ)
  | .phone _ (.send _) => none
  | .phone p e => onPhone c s p e
  | .putFile p j =>
      (s.phone p).uploads[j]?.bind fun u =>
        (onPhone c s p (.send j)).map fun s' =>
          { s' with puts := s.puts ++ (transfer c s p u).toList }
  | .stored i success =>
      s.puts[i]?.map fun q =>
        let puts := s.puts.eraseIdx i
        if success then
          { s with
            puts
            object := Function.update s.object (q.entry.objectPath c.session) (some q.content)
            updates := s.updates ++ [q.entry] }
        else { s with puts }
  | .updateData i success =>
      s.updates[i]?.map fun e =>
        let updates := s.updates.eraseIdx i
        if success then
          { s with updates, guestPlayerList := arrayUnion s.guestPlayerList e }
        else { s with updates }

/-- A new title leads to no object of another take's, on whatever phone. -/
def Clear (c : Setting P α κ) (s : System P α κ) (p : P) : Compensation.Event α → Prop
  | .library (.save audioName start) =>
      ∀ k ∈ (s.phone p).library.pending, ∀ q, ∀ y ∈ s.recordings q,
        c.path q y.audio.audioName = c.path p audioName →
          y.cropped = (c.device p).crop start k.2
  | _ => True

def Careful (c : Setting P α κ) (s : System P α κ) : Event P α → Prop
  | .phone p e => Compensation.Careful (c.device p) (s.phone p) e ∧ Clear c s p e
  | _ => True

/-! ### The rows of a phone -/

section Rows

variable {dev : Device α κ} {k k' : Compensation.State α κ} {e : Compensation.Event α}
  {x : Recording α}

/-- A row keeps its title and its take, and a new one is that of a Save. -/
theorem row_origin (hstep : Compensation.step dev k e = some k')
    (hx : x ∈ k'.library.audioRecordings) :
    (∃ y ∈ k.library.audioRecordings, Compensation.Alike x y) ∨
      ∃ start, ∃ take ∈ k.library.pending,
        e = .library (.save x.audio.audioName start) ∧ x.cropped = dev.crop start take.2 := by
  have hsame : k'.library.audioRecordings = k.library.audioRecordings →
      ∃ y ∈ k.library.audioRecordings, Compensation.Alike x y :=
    fun heq => ⟨x, heq ▸ hx, rfl, rfl⟩
  cases e with
  | library e =>
      obtain ⟨library, hlibrary, rfl⟩ := Option.map_eq_some_iff.mp hstep
      cases e with
      | save audioName start =>
          obtain ⟨t, take, source, hpending, -, -, rfl⟩ := Device.step_save hlibrary
          rcases List.mem_append.mp hx with hold | hnew
          · exact .inl ⟨x, hold, rfl, rfl⟩
          · obtain rfl := List.mem_singleton.mp hnew
            exact .inr ⟨start, (t, take), hpending, rfl, rfl⟩
      | record t take =>
          obtain ⟨-, -, rfl⟩ := Device.step_record hlibrary
          exact .inl (hsame rfl)
      | cancel =>
          obtain rfl := Option.some.inj hlibrary
          exact .inl (hsame rfl)
      | cropCompleted j =>
          obtain ⟨i, hi⟩ := List.mem_iff_getElem?.mp hx
          obtain ⟨d, -, rfl⟩ := Device.step_cropCompleted hlibrary
          obtain ⟨y, hy, rfl⟩ := Device.getElem?_repoint.mp hi
          refine .inl ⟨y, List.mem_of_getElem? hy, ?_⟩
          split <;> exact ⟨rfl, rfl⟩
  | didSelectRow row | didDeselectRow row | send j =>
      obtain ⟨-, -, rfl⟩ := Option.map_eq_some_iff.mp hstep
      exact .inl (hsame rfl)
  | confirmTracks =>
      obtain rfl := Option.some.inj hstep
      exact .inl (hsame rfl)

theorem row_kept (hstep : Compensation.step dev k e = some k')
    (hx : x ∈ k.library.audioRecordings) :
    ∃ y ∈ k'.library.audioRecordings, Compensation.Alike y x := by
  have hsame : k'.library.audioRecordings = k.library.audioRecordings →
      ∃ y ∈ k'.library.audioRecordings, Compensation.Alike y x :=
    fun heq => ⟨x, heq ▸ hx, rfl, rfl⟩
  cases e with
  | library e =>
      obtain ⟨library, hlibrary, rfl⟩ := Option.map_eq_some_iff.mp hstep
      rcases Compensation.rows_step hlibrary with ⟨_, _, _, y, -, -, -, -, hrows⟩ | hrows
      · exact ⟨x, hrows ▸ List.mem_append_left _ hx, rfl, rfl⟩
      · obtain ⟨i, hi⟩ := List.mem_iff_getElem?.mp hx
        obtain ⟨y, hy, halike⟩ := Compensation.exists_alike (hrows i) hi
        exact ⟨y, List.mem_of_getElem? hy, halike⟩
  | didSelectRow row | didDeselectRow row | send j =>
      obtain ⟨-, -, rfl⟩ := Option.map_eq_some_iff.mp hstep
      exact hsame rfl
  | confirmTracks =>
      obtain rfl := Option.some.inj hstep
      exact hsame rfl

end Rows

/-! ### What is on its way, and what has arrived -/

/-- The entry is that of a recording on some phone, with its take. -/
def Recorded (c : Setting P α κ) (s : System P α κ) (e : GuestTrack) (take : α) : Prop :=
  ∃ p, ∃ x ∈ s.recordings p, e = c.entry p x.audio.audioName ∧ x.cropped = take

def Delivered (c : Setting P α κ) (s : System P α κ) (e : GuestTrack) : Prop :=
  ∃ take, Recorded c s e take ∧ s.object (e.objectPath c.session) = some take

structure Inv (c : Setting P α κ) (s : System P α κ) : Prop where
  phone : ∀ p, Compensation.Inv (c.device p) (s.phone p)
  titles : ∀ p q, ∀ x ∈ s.recordings p, ∀ y ∈ s.recordings q,
    c.path p x.audio.audioName = c.path q y.audio.audioName → x.cropped = y.cropped
  puts : ∀ r ∈ s.puts, Recorded c s r.entry r.content
  updates : ∀ e ∈ s.updates, Delivered c s e
  listed : ∀ e ∈ s.guestPlayerList, Delivered c s e

omit [DecidableEq P] [DecidableEq κ] in
theorem inv_initial : Inv c (System.initial : System P α κ) where
  phone _ := Compensation.inv_initial _
  titles _ _ _ hx := absurd hx List.not_mem_nil
  puts _ hr := absurd hr List.not_mem_nil
  updates _ he := absurd he List.not_mem_nil
  listed _ he := absurd he List.not_mem_nil

section Steps

variable {e : Compensation.Event α} {g : GuestTrack} {take : α}

theorem exists_phone_step (hstep : onPhone c s p e = some s') :
    ∃ k, Compensation.step (c.device p) (s.phone p) e = some k ∧
      s' = { s with phone := Function.update s.phone p k } := by
  obtain ⟨k, hk, rfl⟩ := Option.map_eq_some_iff.mp hstep
  exact ⟨k, hk, rfl⟩

theorem Recorded.onPhone (hstep : onPhone c s p e = some s') (h : Recorded c s g take) :
    Recorded c s' g take := by
  obtain ⟨k, hk, rfl⟩ := exists_phone_step hstep
  obtain ⟨q, x, hx, rfl, rfl⟩ := h
  by_cases hq : q = p
  · subst hq
    obtain ⟨y, hy, hname, hcropped⟩ := row_kept hk hx
    refine ⟨q, y, ?_, by rw [hname], hcropped⟩
    simpa [System.recordings] using hy
  · refine ⟨q, x, ?_, rfl, rfl⟩
    simpa [System.recordings, Function.update_of_ne hq] using hx

theorem Delivered.onPhone (hstep : onPhone c s p e = some s') (h : Delivered c s g) :
    Delivered c s' g := by
  obtain ⟨take, hrecorded, hobject⟩ := h
  refine ⟨take, hrecorded.onPhone hstep, ?_⟩
  obtain ⟨k, -, rfl⟩ := exists_phone_step hstep
  exact hobject

/-- A row of some phone after the step, with the row or the Save it comes from. -/
theorem recording_origin (hstep : onPhone c s p e = some s') {q : P} {x : Recording α}
    (hx : x ∈ s'.recordings q) :
    (∃ y ∈ s.recordings q, Compensation.Alike x y) ∨ q = p ∧
      ∃ start, ∃ take ∈ (s.phone p).library.pending,
        e = .library (.save x.audio.audioName start) ∧
          x.cropped = (c.device p).crop start take.2 := by
  obtain ⟨k, hk, rfl⟩ := exists_phone_step hstep
  by_cases hq : q = p
  · subst hq
    simp only [System.recordings, Function.update_self] at hx
    exact (row_origin hk hx).imp_right fun h => ⟨rfl, h⟩
  · simp only [System.recordings, Function.update_of_ne hq] at hx
    exact .inl ⟨x, hx, rfl, rfl⟩

omit [DecidableEq P] [DecidableEq κ] in
theorem path_eq_of_alike {q : P} {x y : Recording α} (h : Compensation.Alike x y) :
    c.path q x.audio.audioName = c.path q y.audio.audioName :=
  congrArg (c.path q) h.1

omit [DecidableEq P] [DecidableEq κ] in
/-- A title that is saved leads to no object of another row's take. -/
theorem Clear.row (h : Clear c s p e) {audioName : String} {start : ℕ}
    (he : e = .library (.save audioName start)) {k : ℕ × α}
    (hk : k ∈ (s.phone p).library.pending) {q : P} {y : Recording α} (hy : y ∈ s.recordings q)
    (hpath : c.path q y.audio.audioName = c.path p audioName) :
    y.cropped = (c.device p).crop start k.2 := by
  subst he
  exact h k hk q y hy hpath

theorem Inv.onPhone (h : Inv c s) (hcareful : Careful c s (.phone p e))
    (hstep : onPhone c s p e = some s') : Inv c s' where
  phone q := by
    obtain ⟨k, hk, rfl⟩ := exists_phone_step hstep
    by_cases hq : q = p
    · subst hq
      simpa using (h.phone q).step hcareful.1 hk
    · simpa [Function.update_of_ne hq] using h.phone q
  titles q q' x hx y hy hpath := by
    rcases recording_origin hstep hx with ⟨x₀, hx₀, hxx⟩ | ⟨rfl, start, k, hk, he, hcrop⟩ <;>
      rcases recording_origin hstep hy with ⟨y₀, hy₀, hyy⟩ | ⟨rfl, start', k', hk', he', hcrop'⟩
    · rw [path_eq_of_alike hxx, path_eq_of_alike hyy] at hpath
      rw [hxx.2, hyy.2]
      exact h.titles q q' x₀ hx₀ y₀ hy₀ hpath
    · rw [path_eq_of_alike hxx] at hpath
      rw [hxx.2, hcrop']
      exact hcareful.2.row he' hk' hx₀ hpath
    · rw [path_eq_of_alike hyy] at hpath
      rw [hyy.2, hcrop]
      exact (hcareful.2.row he hk hy₀ hpath.symm).symm
    · -- both are the row of the one Save
      obtain rfl := Option.some.inj (hk.symm.trans hk')
      obtain ⟨-, rfl⟩ : x.audio.audioName = y.audio.audioName ∧ start = start' := by
        simpa using he.symm.trans he'
      rw [hcrop, hcrop']
  puts r hr := by
    obtain ⟨k, -, rfl⟩ := exists_phone_step hstep
    exact (h.puts r hr).onPhone hstep
  updates g hg := by
    obtain ⟨k, -, rfl⟩ := exists_phone_step hstep
    exact (h.updates g hg).onPhone hstep
  listed g hg := by
    obtain ⟨k, -, rfl⟩ := exists_phone_step hstep
    exact (h.listed g hg).onPhone hstep

omit [DecidableEq P] [DecidableEq κ] in
/-- What a careful phone reads for a row is the row's take. -/
theorem recorded_transfer (h : Inv c s) {u : Compensation.Upload} {r : Transfer α}
    (hu : u ∈ (s.phone p).uploads) (hr : transfer c s p u = some r) :
    Recorded c s r.entry r.content := by
  obtain ⟨x, hx, hurl⟩ := (h.phone p).sent u hu
  simp only [transfer, hurl, System.recordings, hx, Option.map_eq_some_iff] at hr
  obtain ⟨content, hfile, rfl⟩ := hr
  obtain ⟨k, y, hy, hyx, rfl⟩ := (h.phone p).exports.made u.index x content hx hfile
  have hcropped := (h.phone p).titles u.index k x y hx hy hyx
  exact ⟨p, x, List.mem_of_getElem? hx, rfl, hcropped.symm⟩

theorem Inv.putFile (h : Inv c s) {j : ℕ} (hstep : step c s (.putFile p j) = some s') :
    Inv c s' := by
  obtain ⟨u, hu, hstep⟩ := Option.bind_eq_some_iff.mp hstep
  obtain ⟨m, hm, rfl⟩ := Option.map_eq_some_iff.mp hstep
  have hcareful : Careful c s (.phone p (.send j)) := ⟨trivial, trivial⟩
  have hafter : Inv c m := h.onPhone hcareful hm
  refine ⟨hafter.phone, hafter.titles, fun r hr => ?_, hafter.updates, hafter.listed⟩
  rcases List.mem_append.mp hr with hold | hnew
  · have hkept : Recorded c m r.entry r.content := (h.puts r hold).onPhone hm
    exact hkept
  · have hrecorded := recorded_transfer h (List.mem_of_getElem? hu) (Option.mem_toList.mp hnew)
    have hkept : Recorded c m r.entry r.content := hrecorded.onPhone hm
    exact hkept

omit [DecidableEq P] [DecidableEq κ] in
theorem Recorded.objectPath_eq (h : Recorded c s g take) : ∃ p, ∃ x ∈ s.recordings p,
    g.objectPath c.session = c.path p x.audio.audioName ∧ x.cropped = take := by
  obtain ⟨p, x, hx, rfl, hcropped⟩ := h
  exact ⟨p, x, hx, rfl, hcropped⟩

omit [DecidableEq P] [DecidableEq κ] in
/-- Two entries that lead to one object have the same take. -/
theorem Inv.same_take (h : Inv c s) {g' : GuestTrack} {take' : α} (hg : Recorded c s g take)
    (hg' : Recorded c s g' take') (hpath : g.objectPath c.session = g'.objectPath c.session) :
    take = take' := by
  obtain ⟨p, x, hx, hgx, rfl⟩ := hg.objectPath_eq
  obtain ⟨q, y, hy, hgy, rfl⟩ := hg'.objectPath_eq
  exact h.titles p q x hx y hy (hgx.symm.trans (hpath.trans hgy))

theorem Inv.stored (h : Inv c s) {i : ℕ} {success : Bool}
    (hstep : step c s (.stored i success) = some s') : Inv c s' := by
  obtain ⟨r, hr, rfl⟩ := Option.map_eq_some_iff.mp hstep
  have hputs : ∀ q ∈ s.puts.eraseIdx i, Recorded c s q.entry q.content :=
    fun q hq => h.puts q (List.mem_of_mem_eraseIdx hq)
  cases success with
  | false => exact ⟨h.phone, h.titles, hputs, h.updates, h.listed⟩
  | true =>
      have hrecorded := h.puts r (List.mem_of_getElem? hr)
      -- an entry that led to the object before finds its own take there again
      have hkept : ∀ g, Delivered c s g → ∃ take, Recorded c s g take ∧
          Function.update s.object (r.entry.objectPath c.session) (some r.content)
            (g.objectPath c.session) = some take := by
        rintro g ⟨take, hg, hobject⟩
        refine ⟨take, hg, ?_⟩
        by_cases hpath : g.objectPath c.session = r.entry.objectPath c.session
        · rw [hpath, Function.update_self, h.same_take hg hrecorded hpath]
        · rw [Function.update_of_ne hpath, hobject]
      refine ⟨h.phone, h.titles, hputs, fun g hg => ?_, fun g hg => hkept g (h.listed g hg)⟩
      rcases List.mem_append.mp hg with hold | hnew
      · exact hkept g (h.updates g hold)
      · obtain rfl := List.mem_singleton.mp hnew
        exact ⟨r.content, hrecorded, Function.update_self _ _ _⟩

theorem Inv.updateData (h : Inv c s) {i : ℕ} {success : Bool}
    (hstep : step c s (.updateData i success) = some s') : Inv c s' := by
  obtain ⟨g, hg, rfl⟩ := Option.map_eq_some_iff.mp hstep
  have hupdates : ∀ e ∈ s.updates.eraseIdx i, Delivered c s e :=
    fun e he => h.updates e (List.mem_of_mem_eraseIdx he)
  cases success with
  | false => exact ⟨h.phone, h.titles, h.puts, hupdates, h.listed⟩
  | true =>
      refine ⟨h.phone, h.titles, h.puts, hupdates, fun e he => ?_⟩
      rcases mem_arrayUnion.mp he with hold | rfl
      · exact h.listed e hold
      · exact h.updates e (List.mem_of_getElem? hg)

theorem Inv.step {e : Event P α} (h : Inv c s) (hcareful : Careful c s e)
    (hstep : step c s e = some s') : Inv c s' := by
  cases e with
  | phone p e =>
      cases e with
      | send j => exact absurd hstep nofun
      | library | didSelectRow | didDeselectRow | confirmTracks => exact h.onPhone hcareful hstep
  | putFile p j => exact h.putFile hstep
  | stored i success => exact h.stored hstep
  | updateData i success => exact h.updateData hstep

end Steps

section Examples

variable [DecidableEq α]

instance (dev : Device α κ) (k : Compensation.State α κ) :
    (e : Compensation.Event α) → Decidable (Compensation.Careful dev k e)
  | .library (.save ..) => inferInstanceAs (Decidable (∀ p ∈ _, ∀ y ∈ _, _ → _))
  | .confirmTracks => inferInstanceAs (Decidable (∀ d ∈ _, _ ∉ _))
  | .library (.record ..) | .library .cancel | .library (.cropCompleted _) | .didSelectRow _
  | .didDeselectRow _ | .send _ => .isTrue trivial

instance [Fintype P] (c : Setting P α κ) (s : System P α κ) (p : P) :
    (e : Compensation.Event α) → Decidable (Clear c s p e)
  | .library (.save ..) => inferInstanceAs (Decidable (∀ k ∈ _, ∀ _ : P, ∀ y ∈ _, _ → _))
  | .library (.record ..) | .library .cancel | .library (.cropCompleted _) | .didSelectRow _
  | .didDeselectRow _ | .confirmTracks | .send _ => .isTrue trivial

instance [Fintype P] (c : Setting P α κ) (s : System P α κ) :
    (e : Event P α) → Decidable (Careful c s e)
  | .phone .. => inferInstanceAs (Decidable (_ ∧ _))
  | .putFile .. | .stored .. | .updateData .. => .isTrue trivial

end Examples

/-- Ann's and Bob's phones. -/
def twoPhones : Setting Bool ℕ String where
  session := "s"
  device ann := if ann then ⟨⟨"ann", "Ann"⟩, id, fun start take => take - start⟩
    else ⟨⟨"bob", "Bob"⟩, id, fun start take => take - start⟩

/-- The same title on both phones, and the uploads the other way round. -/
def twoTakes : List (Event Bool ℕ) :=
  [.phone true (.library (.record 1 17)), .phone false (.library (.record 1 40)),
    .phone true (.library (.save "take" 2)), .phone false (.library (.save "take" 5)),
    .phone false (.library (.cropCompleted 0)), .phone true (.library (.cropCompleted 0)),
    .phone true (.didSelectRow 0), .phone true .confirmTracks, .phone false (.didSelectRow 0),
    .phone false .confirmTracks, .putFile true 0, .putFile false 0, .stored 1 true,
    .stored 0 true, .updateData 0 true, .updateData 0 true]

end Tootti.Delivery
