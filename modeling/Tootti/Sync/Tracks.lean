import Tootti.Machine.Run
import Tootti.Machine.Register
import Tootti.Model.Phone

/-!
The tracks of one session, uploaded and deleted by any number of clients.

An upload adds its entry to `guestPlayerList` with an array union. A deletion
from the Merge screen takes its entry out of the list that the screen's
cached Session holds and sends the whole list. The cached list is older than
the document in most runs: the listeners replace it only when the click track
has changed.
-/

namespace Tootti.TrackSync

open Machine

inductive Write
  /-- `fieldValueForArrayUnion:` with one entry, of `uploadAudioSound:`. -/
  | arrayUnion (e : GuestTrack)
  /-- The list of a deletion. Row `i` of screen `k` goes when it is stored. -/
  | guestPlayerList (k i : Nat) (d : Deletion)
  | clickTrackRef (url : AudioURL)
  | finalMergedResultRef (url : AudioURL)
  | hostStartRecording (status : Bool)
  | currentPlayerList (l : Roster)

def Write.offList : Write → Bool
  | .arrayUnion _ | .guestPlayerList _ _ _ => false
  | _ => true

def Write.apply : Write → SessionDocument → SessionDocument
  | .arrayUnion e, d => { d with guestPlayerList := Machine.arrayUnion d.guestPlayerList e }
  | .guestPlayerList _ _ del, d => { d with guestPlayerList := del.list }
  | .clickTrackRef url, d => { d with clickTrackRef := url }
  | .finalMergedResultRef url, d => { d with finalMergedResultRef := url }
  | .hostStartRecording status, d => { d with hostStartRecording := status }
  | .currentPlayerList l, d => { d with currentPlayerList := l }

inductive Query
  | join
  | refresh (k : Nat)

structure Client where
  phone : Phone
  asked : List Query
  answers : List (Query × SessionDocument)
  uploads : List Audio
  /-- Files being deleted by `deleteAudioTrack:`, with screen and row. -/
  deletions : List (Nat × Nat × Deletion)
  listeners : List Nat
  snapshots : List (Nat × SessionDocument)
  /-- Deletions that were stored and whose rows are still shown. -/
  completed : List (Nat × Nat)

inductive Action
  | ask (q : Query)
  | answer
  | callback
  | viewDidLoad (tab : Tab)
  | viewWillAppear (k : Nat)
  | confirmTracks (k : Nat) (selectedRecordings : List Audio)
  | uploaded (j : Nat)
  | commitEditing (k i : Nat)
  | deleted (j : Nat)
  /-- Some other operation sends one of the other fields. -/
  | update (w : Write)
  | deliver
  | complete

/-- What an action leads to: the client afterwards, a write it sends, and an
entry whose deletion it requests. -/
structure Effect where
  client : Client
  write : Option Write
  request : Option GuestTrack

def Client.act (sid : String) (d : SessionDocument) (k : Client) : Action → Option Effect
  | .ask q =>
      let phone := match q with
        | .join => k.phone
        | .refresh i => k.phone.refresh i
      some ⟨{ k with phone, asked := k.asked ++ [q] }, none, none⟩
  | .answer =>
      match k.asked with
      | [] => none
      | q :: rest => some ⟨{ k with asked := rest, answers := k.answers ++ [(q, d)] }, none, none⟩
  | .callback =>
      match k.answers with
      | [] => none
      | (.refresh i, d) :: rest =>
          some ⟨{ k with phone := k.phone.finishRefresh i sid d, answers := rest }, none, none⟩
      | (.join, d) :: rest =>
          let u := k.phone.user
          let write :=
            if d.currentPlayerList.contains u.uid then none
            else some (.currentPlayerList (Roster.join u.username u.uid d.currentPlayerList))
          some ⟨{ k with phone := k.phone.joinSession sid d, answers := rest }, write, none⟩
  | .viewDidLoad tab =>
      let phone := k.phone.viewDidLoad tab
      if k.phone.currentSession.isSome && tab != .merge then
        let i := k.phone.screens.length
        -- a new listener is given the document as it stands
        let snapshots := k.snapshots ++ [(i, d)]
        some ⟨{ k with phone, listeners := k.listeners ++ [i], snapshots }, none, none⟩
      else some ⟨{ k with phone }, none, none⟩
  | .viewWillAppear i => some ⟨{ k with phone := k.phone.viewWillAppear i }, none, none⟩
  | .confirmTracks i selected =>
      some ⟨{ k with phone := k.phone.confirmTracks i selected, uploads := k.uploads ++ selected },
        none, none⟩
  | .uploaded j =>
      k.uploads[j]?.map fun a =>
        let entry := a.uploadEntry k.phone.user.uid sid k.phone.user.username
        ⟨{ k with uploads := k.uploads.eraseIdx j }, some (.arrayUnion entry), none⟩
  | .commitEditing i row =>
      (k.phone.commitEditing i row).map fun (del, phone) =>
        ⟨{ k with phone, deletions := k.deletions ++ [(i, row, del)] }, none, some del.row⟩
  | .deleted j =>
      k.deletions[j]?.map fun (i, row, del) =>
        ⟨{ k with deletions := k.deletions.eraseIdx j }, some (.guestPlayerList i row del), none⟩
  | .update w => if w.offList then some ⟨k, some w, none⟩ else none
  | .deliver =>
      match k.snapshots with
      | [] => none
      | (i, d) :: rest =>
          some ⟨{ k with phone := k.phone.snapshot i d, snapshots := rest }, none, none⟩
  | .complete =>
      match k.completed with
      | [] => none
      | (i, row) :: rest =>
          (k.phone.removeRow i row).map fun phone =>
            ⟨{ k with phone, completed := rest }, none, none⟩

/-- A client learns that the document was written, and whether it was its own
deletion. -/
def Client.notified (own : Option Write) (d : SessionDocument) (k : Client) : Client :=
  let completed := match own with
    | some (.guestPlayerList i row _) => k.completed ++ [(i, row)]
    | _ => k.completed
  { k with snapshots := k.snapshots ++ k.listeners.map (·, d), completed }

structure System where
  register : Register String SessionDocument Write
  client : String → Client
  /-- The entries whose deletion some client has requested. -/
  requested : List GuestTrack

inductive Event
  | act (c : String) (a : Action)
  | arrive (c : String)

namespace System

def initial (name : String → String) (d : SessionDocument) : System where
  register := .initial d
  client c := ⟨.initial ⟨c, name c⟩, [], [], [], [], [], [], []⟩
  requested := []

def list (s : System) : List GuestTrack := s.register.value.guestPlayerList

def perform (s : System) (c : String) (eff : Effect) : System where
  register := match eff.write with
    | none => s.register
    | some w => s.register.issue c w
  client := Function.update s.client c eff.client
  requested := s.requested ++ eff.request.toList

end System

def step (sid : String) (s : System) : Event → Option System
  | .act c a => ((s.client c).act sid s.register.value a).map (s.perform c)
  | .arrive c =>
      (s.register.arrive Write.apply c).map fun r =>
        { s with
          register := r
          client := fun u =>
            (s.client u).notified (if u = c then (s.register.outbox c).head? else none) r.value }

/-! ### What no run may lose -/

/-- Each entry of `s` is still there in `t`, or its deletion was requested. -/
def Keeps (s t : System) : Prop := ∀ e ∈ s.list, e ∈ t.list ∨ e ∈ t.requested

instance (s t : System) : Decidable (Keeps s t) :=
  inferInstanceAs (Decidable (∀ e ∈ s.list, e ∈ t.list ∨ e ∈ t.requested))

/-- An arriving deletion was computed from a list that has every entry of
the document whose deletion was not requested. -/
def Fresh (s : System) : Event → Prop
  | .arrive c =>
      match (s.register.outbox c).head? with
      | some (.guestPlayerList _ _ del) => ∀ e ∈ s.list, e ∈ del.base ∨ e ∈ s.requested
      | _ => True
  | .act _ _ => True

/-- Every deletion under way was requested. -/
structure Requested (s : System) : Prop where
  storing : ∀ c, ∀ x ∈ (s.client c).deletions, x.2.2.row ∈ s.requested
  sent : ∀ c k i del, .guestPlayerList k i del ∈ s.register.outbox c → del.row ∈ s.requested

/-- The deletions a client carries were there before the action or are
requested by it, and it sends only lists of deletions it carried. -/
structure Accounts (k : Client) (eff : Effect) : Prop where
  carried : ∀ x ∈ eff.client.deletions, x ∈ k.deletions ∨ eff.request = some x.2.2.row
  sent : ∀ i row del, eff.write = some (.guestPlayerList i row del) → ∃ x ∈ k.deletions, x.2.2 = del

theorem Accounts.of_same {k k' : Client} {w : Option Write} {r : Option GuestTrack}
    (hk : k'.deletions = k.deletions) (hw : ∀ i row del, w ≠ some (.guestPlayerList i row del)) :
    Accounts k ⟨k', w, r⟩ :=
  ⟨fun _ hx => Or.inl (hk ▸ hx), fun i row del h => absurd h (hw i row del)⟩

theorem act_accounts {sid : String} {d : SessionDocument} {k : Client} {a : Action} {eff : Effect}
    (h : k.act sid d a = some eff) : Accounts k eff := by
  cases a with
  | ask q | viewWillAppear i | confirmTracks i selected =>
      simp only [Client.act, Option.some.injEq] at h
      subst eff
      exact .of_same rfl (by simp)
  | answer | deliver =>
      simp only [Client.act] at h
      split at h <;> simp only [Option.some.injEq, reduceCtorEq] at h
      subst eff
      exact .of_same rfl (by simp)
  | callback =>
      simp only [Client.act] at h
      split at h <;> simp only [Option.some.injEq, reduceCtorEq] at h
      · subst eff
        exact .of_same rfl (by simp)
      · subst eff
        refine .of_same rfl fun i row del => ?_
        split <;> simp
  | viewDidLoad tab =>
      simp only [Client.act] at h
      split at h <;> simp only [Option.some.injEq] at h
      · subst eff
        exact .of_same rfl (by simp)
      · subst eff
        exact .of_same rfl (by simp)
  | uploaded j =>
      simp only [Client.act, Option.map_eq_some_iff] at h
      obtain ⟨a, -, rfl⟩ := h
      exact .of_same rfl (by simp)
  | commitEditing i row =>
      simp only [Client.act, Option.map_eq_some_iff] at h
      obtain ⟨⟨del, phone⟩, -, rfl⟩ := h
      refine ⟨fun x hx => ?_, fun i row del h => by simp at h⟩
      rcases List.mem_append.mp hx with hx | hx
      · exact Or.inl hx
      · rw [List.mem_singleton.mp hx]
        exact Or.inr rfl
  | deleted j =>
      simp only [Client.act, Option.map_eq_some_iff] at h
      obtain ⟨⟨i, row, del⟩, hj, rfl⟩ := h
      refine ⟨fun x hx => Or.inl (List.mem_of_mem_eraseIdx hx), fun i' row' del' h => ?_⟩
      simp only [Option.some.injEq, Write.guestPlayerList.injEq] at h
      obtain ⟨-, -, rfl⟩ := h
      exact ⟨_, List.mem_of_getElem? hj, rfl⟩
  | update w =>
      simp only [Client.act] at h
      split at h <;> simp only [Option.some.injEq, reduceCtorEq] at h
      rename_i hw
      subst eff
      refine .of_same rfl fun i row del hdel => ?_
      rw [Option.some.inj hdel] at hw
      exact absurd hw (by simp [Write.offList])
  | complete =>
      simp only [Client.act] at h
      split at h
      · simp at h
      · simp only [Option.map_eq_some_iff] at h
        obtain ⟨phone, -, rfl⟩ := h
        exact .of_same rfl (by simp)

theorem perform_value {s : System} {c : String} {eff : Effect} :
    (s.perform c eff).register.value = s.register.value := by
  rw [System.perform]
  cases eff.write <;> rfl

theorem mem_perform_outbox {s : System} {c u : String} {eff : Effect} {w : Write}
    (h : w ∈ (s.perform c eff).register.outbox u) :
    w ∈ s.register.outbox u ∨ u = c ∧ eff.write = some w := by
  rw [System.perform] at h
  cases hw : eff.write with
  | none => exact Or.inl (by simpa [hw] using h)
  | some v =>
      simp only [hw] at h
      by_cases hu : u = c
      · subst u
        rw [Register.issue_outbox_self] at h
        rcases List.mem_append.mp h with h | h
        · exact Or.inl h
        · exact Or.inr ⟨rfl, by rw [List.mem_singleton.mp h]⟩
      · rw [Register.issue_outbox_of_ne v hu] at h
        exact Or.inl h

section Steps

variable {sid : String} {s s' : System} {e : Event}

theorem requested_step (h : Requested s) (hstep : step sid s e = some s') : Requested s' := by
  cases e with
  | act c a =>
      simp only [step, Option.map_eq_some_iff] at hstep
      obtain ⟨eff, heff, rfl⟩ := hstep
      obtain ⟨hcarried, hsent⟩ := act_accounts heff
      have hold : s.requested ⊆ (s.perform c eff).requested := List.subset_append_left _ _
      refine ⟨fun u x hx => ?_, fun u i row del hw => ?_⟩
      · by_cases hu : u = c
        · subst u
          simp only [System.perform, Function.update_self] at hx
          rcases hcarried x hx with hx | hx
          · exact hold (h.storing c x hx)
          · exact List.mem_append_right _ (by simp [hx])
        · simp only [System.perform, Function.update_of_ne hu] at hx
          exact hold (h.storing u x hx)
      · rcases mem_perform_outbox hw with hw | ⟨-, hw⟩
        · exact hold (h.sent u i row del hw)
        · obtain ⟨x, hx, rfl⟩ := hsent i row del hw
          exact hold (h.storing c x hx)
  | arrive c =>
      simp only [step, Option.map_eq_some_iff] at hstep
      obtain ⟨r, hr, rfl⟩ := hstep
      obtain ⟨w, ws, hout, rfl⟩ := Register.arrive_eq_some.mp hr
      refine ⟨fun u x hx => h.storing u x hx, fun u i row del hw => ?_⟩
      by_cases hu : u = c
      · subst u
        simp only [Function.update_self] at hw
        exact h.sent c i row del (hout ▸ List.mem_cons_of_mem w hw)
      · simp only [Function.update_of_ne hu] at hw
        exact h.sent u i row del hw

theorem requested_mono (hstep : step sid s e = some s') : s.requested ⊆ s'.requested := by
  cases e with
  | act c a =>
      simp only [step, Option.map_eq_some_iff] at hstep
      obtain ⟨eff, -, rfl⟩ := hstep
      exact List.subset_append_left _ _
  | arrive c =>
      simp only [step, Option.map_eq_some_iff] at hstep
      obtain ⟨r, -, rfl⟩ := hstep
      exact List.Subset.refl _

/-- A requested deletion keeps what its base has. -/
theorem keeps_list_iff {l : List GuestTrack} {del : Deletion} {requested : List GuestTrack}
    (hrow : del.row ∈ requested) :
    (∀ e ∈ l, e ∈ del.list ∨ e ∈ requested) ↔ ∀ e ∈ l, e ∈ del.base ∨ e ∈ requested := by
  refine forall₂_congr fun e _ => ?_
  simp only [Deletion.list, mem_removeObject]
  refine ⟨fun h => h.imp_left And.left, fun h => ?_⟩
  by_cases he : e = del.row
  · exact Or.inr (he ▸ hrow)
  · exact h.imp_left fun hbase => ⟨hbase, he⟩

/-- A step keeps the tracks exactly when it is not the arrival of a deletion
computed from a list that lacks one. -/
theorem keeps_iff_fresh (h : Requested s) (hstep : step sid s e = some s') :
    Keeps s s' ↔ Fresh s e := by
  cases e with
  | act c a =>
      simp only [step, Option.map_eq_some_iff] at hstep
      obtain ⟨eff, -, rfl⟩ := hstep
      have hlist : (s.perform c eff).list = s.list := by
        rw [System.list, perform_value, System.list]
      simp only [Fresh, iff_true]
      exact fun e he => Or.inl (hlist ▸ he)
  | arrive c =>
      simp only [step, Option.map_eq_some_iff] at hstep
      obtain ⟨r, hr, rfl⟩ := hstep
      obtain ⟨w, ws, hout, rfl⟩ := Register.arrive_eq_some.mp hr
      simp only [Fresh, hout, List.head?_cons]
      cases w with
      | guestPlayerList i row del =>
          have hmem : Write.guestPlayerList i row del ∈ s.register.outbox c :=
            hout ▸ List.mem_cons_self
          exact keeps_list_iff (h.sent c i row del hmem)
      | arrayUnion e =>
          rw [iff_true]
          exact fun x hx => Or.inl (mem_arrayUnion.mpr (Or.inl hx))
      | clickTrackRef | finalMergedResultRef | hostStartRecording | currentPlayerList =>
          rw [iff_true]
          exact fun x hx => Or.inl hx

end Steps

/-- In every run, each entry of the document stays until its deletion is
requested, exactly when every deletion arrives fresh. -/
theorem tracks_kept_iff_fresh (sid : String) (name : String → String) (d : SessionDocument)
    (es : List Event) :
    Between (step sid) Keeps (.initial name d) es ↔
      Meets (step sid) Fresh (.initial name d) es := by
  have hrefl : ∀ a, Keeps a a := fun a e he => Or.inl he
  have htrans : ∀ a b e c, Keeps a b → step sid b e = some c → Keeps b c → Keeps a c := by
    intro a b e c hab hstep hbc x hx
    rcases hab x hx with hb | hb
    · exact hbc x hb
    · exact Or.inr (requested_mono hstep hb)
  have hinitial : Requested (.initial name d) :=
    ⟨fun c x hx => absurd hx List.not_mem_nil, fun c i row del hw => absurd hw List.not_mem_nil⟩
  rw [between_iff_everyStep hrefl htrans]
  have hagree : ∀ s e s', Requested s → step sid s e = some s' → (Keeps s s' ↔ Fresh s e) :=
    fun s e s' h hs => keeps_iff_fresh h hs
  exact everyStep_iff_of_invariant hagree (fun s e s' h hs _ => requested_step h hs) hinitial es

/-- One user uploads two takes from the Library and deletes the row of the
first: the Merge screen's Session was made by the join, when the list was
empty, so the list that is sent has neither entry. -/
theorem track_lost_with_another :
    ¬ ∀ (sid : String) (name : String → String) (d : SessionDocument) (es : List Event),
      Between (step sid) Keeps (.initial name d) es := by
  intro h
  let take (n : Nat) : Audio := ⟨toString n, "ann", "ann", some (.document (toString n)), n⟩
  let uploads : List Event :=
    [.act "ann" (.ask .join), .act "ann" .answer, .act "ann" .callback, .arrive "ann",
      .act "ann" (.viewDidLoad .merge), .act "ann" (.confirmTracks 0 [take 1, take 2]),
      .act "ann" (.uploaded 0), .act "ann" (.uploaded 0), .arrive "ann", .arrive "ann"]
  let deletion : List Event :=
    [.act "ann" (.commitEditing 0 0), .act "ann" (.deleted 0), .arrive "ann"]
  let start := System.initial id ⟨"song", "host", [], .empty, [], .empty, false, []⟩
  have huploads : run (step "s") start uploads = some _ := rfl
  have hdeletion : run (step "s") start (uploads ++ deletion) = some _ := rfl
  obtain ⟨m, hm, hlast⟩ := run_append_eq_some.mp hdeletion
  have hkeeps := h "s" id _ (uploads ++ deletion ++ []) uploads deletion [] m _ rfl hm hlast
  rw [huploads] at hm
  cases hm
  exact absurd hkeeps (by decide)

end Tootti.TrackSync
