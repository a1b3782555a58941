import Tootti.Sync.Tracks

/-!
Every list of tracks there is.

The document's list is copied into query answers, snapshots and the Session objects
of all phones, edited there, and sent back. Nothing is ever put into such a copy
except with an array union of an upload, and nothing else happens to it than the
removal of an entry. So what these two keep is true of every copy in every run, and
uploads reach the same list in whatever order they arrive. Which uploads there are is
read off the run: their recordings were confirmed in it.
-/

namespace Tootti.TrackSync

open Machine

/-- The entry of a recording that a client has confirmed among the events. -/
def Uploaded (name : String → String) (sid : String) (es : List Event) (e : GuestTrack) : Prop :=
  ∃ c i selected, .act c (.confirmTracks i selected) ∈ es ∧
    ∃ a ∈ selected, e = a.uploadEntry c sid (name c)

/-- What an upload and a deletion keep of a list. -/
structure Stable (U : GuestTrack → Prop) (P : List GuestTrack → Prop) : Prop where
  union : ∀ l e, P l → U e → P (arrayUnion l e)
  remove : ∀ l e, P l → P (removeObject l e)

/-- The lists on their way from a client to the document. -/
def Sent (U : GuestTrack → Prop) (P : List GuestTrack → Prop) : Write → Prop
  | .arrayUnion e => U e
  | .guestPlayerList _ _ del => P del.base
  | _ => True

/-- The lists a client has, and the uploads it has started. -/
structure Has (U : GuestTrack → Prop) (P : List GuestTrack → Prop) (sid : String) (u : User)
    (k : Client) : Prop where
  user : k.phone.user = u
  sessions : ∀ o ∈ k.phone.sessions, P o.guestPlayerList
  answers : ∀ x ∈ k.answers, P x.2.guestPlayerList
  snapshots : ∀ x ∈ k.snapshots, P x.2.guestPlayerList
  deletions : ∀ x ∈ k.deletions, P x.2.2.base
  uploads : ∀ a ∈ k.uploads, U (a.uploadEntry u.uid sid u.username)

structure Everywhere (U : GuestTrack → Prop) (P : List GuestTrack → Prop)
    (name : String → String) (sid : String) (s : System) : Prop where
  document : P s.list
  clients : ∀ c, Has U P sid ⟨c, name c⟩ (s.client c)
  sent : ∀ c, ∀ w ∈ s.register.outbox c, Sent U P w

variable {U : GuestTrack → Prop} {P : List GuestTrack → Prop}

theorem everywhere_initial {name : String → String} {sid : String} {d : SessionDocument}
    (hd : P d.guestPlayerList) : Everywhere U P name sid (.initial name d) where
  document := hd
  clients _ := ⟨rfl, List.forall_mem_nil _, List.forall_mem_nil _, List.forall_mem_nil _,
    List.forall_mem_nil _, List.forall_mem_nil _⟩
  sent _ := List.forall_mem_nil _

section Client

variable {u : User} {k : Client} {p : Phone} {d : SessionDocument} {sid : String}

/-- A change of the phone that leaves the lists of its Session objects as they were. -/
theorem Has.ofPhone (h : Has U P sid u k) (huser : p.user = k.phone.user)
    (hsessions : ∀ o ∈ p.sessions, P o.guestPlayerList) : Has U P sid u { k with phone := p } :=
  { h with user := huser.trans h.user, sessions := hsessions }

theorem forall_mem_concat {α : Type*} {Q : α → Prop} {l : List α} {a : α} (h : ∀ x ∈ l, Q x)
    (ha : Q a) : ∀ x ∈ l ++ [a], Q x :=
  List.forall_mem_append.mpr ⟨h, List.forall_mem_singleton.mpr ha⟩

theorem Has.joinSession (h : Has U P sid u k) (hd : P d.guestPlayerList) :
    Has U P sid u { k with phone := k.phone.joinSession sid d } :=
  h.ofPhone rfl (forall_mem_concat h.sessions hd)

theorem Has.finishRefresh (h : Has U P sid u k) (hd : P d.guestPlayerList) (i : Nat) :
    Has U P sid u { k with phone := k.phone.finishRefresh i sid d } :=
  h.ofPhone rfl (forall_mem_concat h.sessions hd)

theorem Has.snapshot (h : Has U P sid u k) (hd : P d.guestPlayerList) (i : Nat) :
    Has U P sid u { k with phone := k.phone.snapshot i d } := by
  refine h.ofPhone Phone.user_snapshot ?_
  exact Phone.forall_mem_snapshot (fun o ho => ho) (fun o _ _ _ => hd) h.sessions

theorem Has.commitEditing (h : Has U P sid u k) (hP : Stable U P) {i row : Nat} {del : Deletion}
    (hdel : k.phone.commitEditing i row = some (del, p)) :
    Has U P sid u { k with phone := p } ∧ P del.base := by
  obtain ⟨x, track, o, -, -, ho, rfl, rfl⟩ := Phone.commitEditing_eq_some hdel
  have hbase : P o.guestPlayerList := h.sessions o (Heap.mem_of_object? ho)
  refine ⟨h.ofPhone rfl ?_, hbase⟩
  exact Heap.forall_mem_modifyObject (fun _ _ _ => hP.remove _ _ hbase) h.sessions

theorem has_callback (h : Has U P sid u k) {eff : Effect}
    (hact : k.act sid d .callback = some eff) :
    Has U P sid u eff.client ∧ ∀ w ∈ eff.write, Sent U P w := by
  simp only [Client.act] at hact
  split at hact
  · simp at hact
  · rename_i i d' rest hanswers
    obtain rfl := Option.some.inj hact
    have hall := hanswers ▸ h.answers
    have hphone := h.finishRefresh (hall _ List.mem_cons_self) i
    exact ⟨{ hphone with answers := fun x hx => hall x (List.mem_cons_of_mem _ hx) },
      fun w hw => absurd hw (Option.not_mem_none w)⟩
  · rename_i d' rest hanswers
    obtain rfl := Option.some.inj hact
    have hall := hanswers ▸ h.answers
    have hphone := h.joinSession (hall _ List.mem_cons_self)
    refine ⟨{ hphone with answers := fun x hx => hall x (List.mem_cons_of_mem _ hx) },
      fun w hw => ?_⟩
    -- a join writes the roster, or nothing
    simp only at hw
    split at hw
    · simp at hw
    · rw [← Option.mem_some_iff.mp hw]
      trivial

/-- What an action does to the lists of its client, and the list it sends. -/
theorem has_act (hP : Stable U P) (h : Has U P sid u k) (hd : P d.guestPlayerList)
    {a : Action} {eff : Effect} (hU : ∀ i selected, a = .confirmTracks i selected →
      ∀ x ∈ selected, U (x.uploadEntry u.uid sid u.username))
    (hact : k.act sid d a = some eff) : Has U P sid u eff.client ∧ ∀ w ∈ eff.write, Sent U P w := by
  have hnone : ∀ w ∈ (none : Option Write), Sent U P w :=
    fun w hw => absurd hw (Option.not_mem_none w)
  cases a with
  | ask q =>
      obtain rfl := Option.some.inj hact
      cases q with
      | join | refresh i => exact ⟨{ h with }, hnone⟩
  | answer =>
      simp only [Client.act] at hact
      split at hact
      · simp at hact
      · obtain rfl := Option.some.inj hact
        exact ⟨{ h with answers := forall_mem_concat h.answers hd }, hnone⟩
  | callback => exact has_callback h hact
  | viewDidLoad tab =>
      simp only [Client.act] at hact
      split at hact
      · obtain rfl := Option.some.inj hact
        exact ⟨{ h with snapshots := forall_mem_concat h.snapshots hd }, hnone⟩
      · obtain rfl := Option.some.inj hact
        exact ⟨{ h with }, hnone⟩
  | viewWillAppear i =>
      obtain rfl := Option.some.inj hact
      exact ⟨{ h with }, hnone⟩
  | confirmTracks i selected =>
      obtain rfl := Option.some.inj hact
      exact ⟨{ h with uploads := List.forall_mem_append.mpr ⟨h.uploads, hU i selected rfl⟩ },
        hnone⟩
  | uploaded j =>
      obtain ⟨a, ha, rfl⟩ := Option.map_eq_some_iff.mp hact
      refine ⟨{ h with uploads := fun x hx => h.uploads x (List.mem_of_mem_eraseIdx hx) },
        fun w hw => ?_⟩
      rw [← Option.mem_some_iff.mp hw, h.user]
      exact h.uploads a (List.mem_of_getElem? ha)
  | commitEditing i row =>
      obtain ⟨⟨del, p⟩, hdel, rfl⟩ := Option.map_eq_some_iff.mp hact
      obtain ⟨hphone, hbase⟩ := h.commitEditing hP hdel
      exact ⟨{ hphone with deletions := forall_mem_concat h.deletions hbase }, hnone⟩
  | deleted j =>
      obtain ⟨⟨i, row, del⟩, hj, rfl⟩ := Option.map_eq_some_iff.mp hact
      refine ⟨{ h with deletions := fun x hx => h.deletions x (List.mem_of_mem_eraseIdx hx) },
        fun w hw => ?_⟩
      rw [← Option.mem_some_iff.mp hw]
      exact h.deletions _ (List.mem_of_getElem? hj)
  | update w =>
      simp only [Client.act] at hact
      split at hact
      · rename_i hoff
        obtain rfl := Option.some.inj hact
        refine ⟨h, fun w' hw' => ?_⟩
        rw [← Option.mem_some_iff.mp hw']
        cases w with
        | arrayUnion e | guestPlayerList i row del => simp [Write.offList] at hoff
        | clickTrackRef url | finalMergedResultRef url | hostStartRecording status
        | currentPlayerList l => trivial
      · simp at hact
  | deliver =>
      simp only [Client.act] at hact
      split at hact
      · simp at hact
      · rename_i i d' rest hsnapshots
        obtain rfl := Option.some.inj hact
        have hall := hsnapshots ▸ h.snapshots
        have hphone := h.snapshot (hall _ List.mem_cons_self) i
        exact ⟨{ hphone with snapshots := fun x hx => hall x (List.mem_cons_of_mem _ hx) }, hnone⟩
  | complete =>
      simp only [Client.act] at hact
      split at hact
      · simp at hact
      · obtain ⟨p, hp, rfl⟩ := Option.map_eq_some_iff.mp hact
        obtain ⟨-, rfl⟩ := Phone.removeRow_eq_some hp
        exact ⟨{ h with }, hnone⟩

end Client

section Steps

variable {name : String → String} {sid : String} {s s' : System}

theorem document_arrive (hP : Stable U P) (h : P s.list) {w : Write} (hw : Sent U P w) :
    P (w.apply s.register.value).guestPlayerList := by
  cases w with
  | arrayUnion e => exact hP.union _ _ h hw
  | guestPlayerList i row del => exact hP.remove _ _ hw
  | clickTrackRef url | finalMergedResultRef url | hostStartRecording status
  | currentPlayerList l => exact h

theorem Has.notified {u : User} {k : Client} {d : SessionDocument} (h : Has U P sid u k)
    (hd : P d.guestPlayerList) (own : Option Write) : Has U P sid u (k.notified own d) := by
  refine { h with snapshots := fun x hx => ?_ }
  rcases List.mem_append.mp hx with hx | hx
  · exact h.snapshots x hx
  · obtain ⟨i, -, rfl⟩ := List.mem_map.mp hx
    exact hd

theorem everywhere_step {es : List Event} (hP : Stable (Uploaded name sid es) P)
    (h : Everywhere (Uploaded name sid es) P name sid s) {e : Event} (he : e ∈ es)
    (hstep : step sid s e = some s') : Everywhere (Uploaded name sid es) P name sid s' := by
  cases e with
  | act c a =>
      obtain ⟨eff, hact, rfl⟩ := Option.map_eq_some_iff.mp hstep
      have hconfirmed : ∀ i selected, a = .confirmTracks i selected →
          ∀ x ∈ selected, Uploaded name sid es (x.uploadEntry c sid (name c)) := by
        rintro i selected rfl x hx
        exact ⟨c, i, selected, he, x, hx, rfl⟩
      obtain ⟨hclient, hwrite⟩ := has_act hP (h.clients c) h.document hconfirmed hact
      refine ⟨?_, fun u => ?_, fun u w hw => ?_⟩
      · rw [System.list, perform_value]
        exact h.document
      · by_cases hu : u = c
        · subst u
          simpa [System.perform] using hclient
        · simpa [System.perform, hu] using h.clients u
      · rcases mem_perform_outbox hw with hw | ⟨-, hw⟩
        · exact h.sent u w hw
        · exact hwrite w hw
  | arrive c =>
      obtain ⟨r, hr, rfl⟩ := Option.map_eq_some_iff.mp hstep
      obtain ⟨w, ws, hout, rfl⟩ := Register.arrive_eq_some.mp hr
      have hw : Sent (Uploaded name sid es) P w := h.sent c w (hout ▸ List.mem_cons_self)
      have hdocument := document_arrive hP h.document hw
      refine ⟨hdocument, fun u => (h.clients u).notified hdocument _, fun u v hv => ?_⟩
      by_cases hu : u = c
      · subst u
        simp only [Function.update_self] at hv
        exact h.sent c v (hout ▸ List.mem_cons_of_mem w hv)
      · simp only [Function.update_of_ne hu] at hv
        exact h.sent u v hv

end Steps

/-- What its uploads and removals keep holds of every list in every run. -/
theorem everywhere_run {name : String → String} {sid : String} {d : SessionDocument}
    {es : List Event} {s : System} (hP : Stable (Uploaded name sid es) P)
    (hd : P d.guestPlayerList) (hrun : run (step sid) (.initial name d) es = some s) :
    Everywhere (Uploaded name sid es) P name sid s :=
  run_invariant_of_mem (fun _ _ _ he h hstep => everywhere_step hP h he hstep) hrun
    (everywhere_initial hd)

/-! ### No entry twice, and none from nowhere -/

/-- No entry is listed twice, and each was there at first or is the entry of an
upload that the events have started, under the uid of the client that did. -/
structure Sound (name : String → String) (sid : String) (es : List Event)
    (first l : List GuestTrack) : Prop where
  nodup : l.Nodup
  origin : ∀ e ∈ l, e ∈ first ∨ Uploaded name sid es e

theorem stable_sound (name : String → String) (sid : String) (es : List Event)
    (first : List GuestTrack) : Stable (Uploaded name sid es) (Sound name sid es first) where
  union l e h he := by
    refine ⟨nodup_arrayUnion h.nodup e, fun x hx => ?_⟩
    rcases mem_arrayUnion.mp hx with hx | rfl
    · exact h.origin x hx
    · exact Or.inr he
  remove l e h := ⟨nodup_removeObject h.nodup e, fun x hx => h.origin x (mem_removeObject.mp hx).1⟩

/-- In every state of every run, whatever the interleaving of uploads, deletions,
refreshes, joins and snapshots, the document's list and the list that any phone keeps
in a Session object have no entry twice and none from nowhere: an entry that was not
there at first is that of a recording which its user confirmed earlier in the run. -/
theorem lists_sound {name : String → String} {sid : String} {d : SessionDocument}
    {es : List Event} {s : System} (hd : d.guestPlayerList.Nodup)
    (hrun : run (step sid) (.initial name d) es = some s) :
    Sound name sid es d.guestPlayerList s.list ∧
      ∀ c, ∀ o ∈ (s.client c).phone.sessions,
        Sound name sid es d.guestPlayerList o.guestPlayerList := by
  have h := everywhere_run (stable_sound name sid es d.guestPlayerList)
    ⟨hd, fun e he => Or.inl he⟩ hrun
  exact ⟨h.document, fun c o ho => (h.clients c).sessions o ho⟩

/-- A take is confirmed and uploaded twice. -/
def sameTwice : List Event :=
  let take : Audio := ⟨"take", "ann", "ann", some (.document "1.wav"), 0⟩
  [.act "ann" (.confirmTracks 0 [take, take]), .act "ann" (.uploaded 0), .act "ann" (.uploaded 0),
    .arrive "ann", .arrive "ann"]

def noTracks : SessionDocument := ⟨"song", "ann", [], .empty, [], .empty, false, []⟩

theorem lists_sound_sameTwice :
    ∃ s, run (step "s") (.initial id noTracks) sameTwice = some s ∧
      Sound id "s" sameTwice [] s.list ∧
      ∀ c, ∀ o ∈ (s.client c).phone.sessions, Sound id "s" sameTwice [] o.guestPlayerList := by
  have hrun : run (step "s") (.initial id noTracks) sameTwice = some _ := rfl
  exact ⟨_, hrun, lists_sound (d := noTracks) List.nodup_nil hrun⟩

/-! ### Uploads in any order -/

/-- The writes that reach the document, in the order in which they do. -/
def arrived (sid : String) : System → List Event → List Write
  | _, [] => []
  | s, e :: es =>
      match step sid s e with
      | none => []
      | some s' =>
          match e with
          | .act _ _ => arrived sid s' es
          | .arrive c => (s.register.outbox c).head?.toList ++ arrived sid s' es

def Write.upload? : Write → Option GuestTrack
  | .arrayUnion e => some e
  | _ => none

def Write.isDeletion : Write → Bool
  | .guestPlayerList _ _ _ => true
  | _ => false

theorem list_apply {w : Write} (h : w.isDeletion = false) (d : SessionDocument) :
    (w.apply d).guestPlayerList = w.upload?.toList.foldl arrayUnion d.guestPlayerList := by
  cases w with
  | guestPlayerList i row del => simp [Write.isDeletion] at h
  | arrayUnion e | clickTrackRef url | finalMergedResultRef url | hostStartRecording status
  | currentPlayerList l => rfl

/-- A run in which no deletion arrives adds the uploads that do. -/
theorem list_run {sid : String} {s t : System} {es : List Event}
    (hrun : run (step sid) s es = some t) (hno : ∀ w ∈ arrived sid s es, w.isDeletion = false) :
    t.list = ((arrived sid s es).filterMap Write.upload?).foldl arrayUnion s.list := by
  induction es generalizing s with
  | nil =>
      obtain rfl := Option.some.inj hrun
      rfl
  | cons e es ih =>
      obtain ⟨s', he, hrest⟩ := run_cons_eq_some.mp hrun
      cases e with
      | act c a =>
          have harrived : arrived sid s (.act c a :: es) = arrived sid s' es := by
            rw [arrived, he]
          obtain ⟨eff, -, rfl⟩ := Option.map_eq_some_iff.mp he
          rw [harrived] at hno ⊢
          rw [ih hrest hno, System.list, perform_value, System.list]
      | arrive c =>
          have harrived : arrived sid s (.arrive c :: es) =
              (s.register.outbox c).head?.toList ++ arrived sid s' es := by
            rw [arrived, he]
          obtain ⟨r, hr, rfl⟩ := Option.map_eq_some_iff.mp he
          obtain ⟨w, ws, hout, rfl⟩ := Register.arrive_eq_some.mp hr
          have hhead : (s.register.outbox c).head?.toList = [w] := by
            rw [hout]
            rfl
          rw [harrived, hhead, List.singleton_append] at hno ⊢
          obtain ⟨hw, hrestno⟩ := List.forall_mem_cons.mp hno
          rw [ih hrest hrestno, List.filterMap_cons]
          show List.foldl arrayUnion (w.apply s.register.value).guestPlayerList _ = _
          rw [list_apply hw]
          cases w.upload? <;> rfl

/-- The tracks of a session do not depend on the order in which uploads arrive: two
runs from one list, in which the same uploads arrive and no deletion, lead to the
same tracks, up to their order. -/
theorem uploads_commute {sid : String} {s s' t t' : System} {es es' : List Event}
    (hstart : s.list = s'.list)
    (hrun : run (step sid) s es = some t) (hrun' : run (step sid) s' es' = some t')
    (hno : ∀ w ∈ arrived sid s es, w.isDeletion = false)
    (hno' : ∀ w ∈ arrived sid s' es', w.isDeletion = false)
    (hsame : ∀ e, e ∈ (arrived sid s es).filterMap Write.upload? ↔
      e ∈ (arrived sid s' es').filterMap Write.upload?) :
    t.list.Perm t'.list := by
  rw [list_run hrun hno, list_run hrun' hno', ← hstart]
  exact foldl_arrayUnion_perm hsame

/-- Two takes by two users, in either order. -/
def twoTakes (first second : String) : List Event :=
  let take (c : String) : Audio := ⟨"take", c, c, some (.document "1.wav"), 0⟩
  [.act "ann" (.confirmTracks 0 [take "ann"]), .act "bob" (.confirmTracks 0 [take "bob"]),
    .act first (.uploaded 0), .act second (.uploaded 0), .arrive first, .arrive second]

theorem uploads_commute_twoTakes :
    ∃ t t', run (step "s") (.initial id noTracks) (twoTakes "ann" "bob") = some t ∧
      run (step "s") (.initial id noTracks) (twoTakes "bob" "ann") = some t' ∧
      t.list.Perm t'.list := by
  have hrun : run (step "s") (.initial id noTracks) (twoTakes "ann" "bob") = some _ := rfl
  have hrun' : run (step "s") (.initial id noTracks) (twoTakes "bob" "ann") = some _ := rfl
  refine ⟨_, _, hrun, hrun', uploads_commute rfl hrun hrun' ?_ ?_ ?_⟩
  · exact List.forall_mem_cons.mpr ⟨rfl, List.forall_mem_cons.mpr ⟨rfl, List.forall_mem_nil _⟩⟩
  · exact List.forall_mem_cons.mpr ⟨rfl, List.forall_mem_cons.mpr ⟨rfl, List.forall_mem_nil _⟩⟩
  · intro e
    show e ∈ [_, _] ↔ e ∈ [_, _]
    simp only [List.mem_cons, List.not_mem_nil, or_false]
    exact or_comm

end Tootti.TrackSync
