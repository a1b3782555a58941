import Tootti.Machine.Register
import Tootti.Membership.JoinedSessions

/-!
One account on several devices.

Each device stores the account's list when its user logs in, and then changes
its own copy only by what it does itself. The updates of one device reach the
user's document in the order it sent them, those of different devices in any
order. A creation replaces the document's list by the device's.
-/

namespace Tootti.Devices

open Machine JoinedSessions

structure Device where
  signedIn : Bool
  stored : Stored
  /-- The sessions that had been entered, or were under way on the device itself,
  when it took its list. Nothing is done with these; they tell what came since. -/
  seen : List String

/-- What is sent, with what its device had `seen` then. -/
structure Update where
  write : Write
  seen : List String

namespace Update

def sid (u : Update) : String := u.write.sid

def apply (u : Update) (l : List String) : List String := u.write.apply l

/-- What the device has seen when the update has completed: a creation stores
the list it has sent, and a join none. -/
def completed (u : Update) : List String :=
  match u.write with
  | .list _ sid => sid :: u.seen
  | .arrayUnion _ => []

end Update

structure State where
  /-- `joinedSessions` of the user's document. -/
  register : Register Nat (List String) Update
  device : Nat → Device
  /-- The sessions in whose rosters an operation has put the user. -/
  listed : List String
  /-- The sessions created or joined so far. -/
  entered : List String

inductive Event
  | login (n : Nat)
  /-- The session is stored, and the update of the user's document sent. -/
  | createNewSession (n : Nat) (sid : String)
  /-- A join has its user in the roster, and sends its update if any. -/
  | join (n : Nat) (sid : String) (inRoster : Bool)
  /-- The oldest update of a device is written, and its completion called. -/
  | arrive (n : Nat)

def initial : State := ⟨.initial [], fun _ => ⟨false, none, []⟩, [], []⟩

def State.send (s : State) (n : Nat) (w : Write) : State :=
  { s with
    register := s.register.issue n ⟨w, (s.device n).seen⟩
    listed := w.sid :: s.listed }

def step (k : MissingKey) (s : State) : Event → Option State
  | .login n =>
      let stored := some (s.register.view Update.apply n)
      let seen := s.entered ++ (s.register.outbox n).map Update.sid
      some { s with device := Function.update s.device n ⟨true, stored, seen⟩ }
  | .createNewSession n sid =>
      if (s.device n).signedIn && !s.listed.contains sid then
        some (s.send n (createWrite sid (s.device n).stored))
      else none
  | .join n sid inRoster =>
      -- nobody else puts the user in a roster
      if (s.device n).signedIn && (!inRoster || s.listed.contains sid) then
        match joinWrite k sid inRoster (s.device n).stored with
        | none => none
        | some none => some { s with listed := sid :: s.listed, entered := sid :: s.entered }
        | some (some w) => some (s.send n w)
      else none
  | .arrive n => do
      let u ← (s.register.outbox n).head?
      let register ← s.register.arrive Update.apply n
      -- a completion that raises has removed the key
      let stored := (u.write.complete k (s.device n).stored).getD none
      some { s with
        register
        device := Function.update s.device n { s.device n with stored, seen := u.completed }
        entered := u.sid :: s.entered }

/-- The document lists every session created or joined so far. -/
def Remembers (s : State) : Prop := ∀ sid ∈ s.entered, sid ∈ s.register.value

/-- If the update is a creation's: nothing but its session has been entered since
the device took the list that it starts from. -/
def Update.Timely (entered : List String) (u : Update) : Prop :=
  match u.write with
  | .list _ sid => ∀ x ∈ entered, x = sid ∨ x ∈ u.seen
  | .arrayUnion _ => True

instance (entered : List String) : (u : Update) → Decidable (u.Timely entered)
  | ⟨.list _ sid, seen⟩ => inferInstanceAs (Decidable (∀ x ∈ entered, x = sid ∨ x ∈ seen))
  | ⟨.arrayUnion _, _⟩ => .isTrue trivial

/-- No other session has been entered between the login, or the creation, from which
a device has its list and the arrival of the next creation from that list; and a
join that sends nothing is of a session that was entered. -/
def Timely (k : MissingKey) (s : State) : Event → Prop
  | .join n sid inRoster =>
      joinWrite k sid inRoster (s.device n).stored = some none → sid ∈ s.entered
  | .arrive n => ∀ u ∈ (s.register.outbox n).head?, u.Timely s.entered
  | _ => True

instance (k : MissingKey) (s : State) : (e : Event) → Decidable (Timely k s e)
  | .join n sid inRoster => inferInstanceAs (Decidable
      (joinWrite k sid inRoster (s.device n).stored = some none → sid ∈ s.entered))
  | .arrive n => inferInstanceAs
      (Decidable (∀ u ∈ (s.register.outbox n).head?, u.Timely s.entered))
  | .login _ | .createNewSession .. => .isTrue trivial

/-! ### What the lists have -/

/-- Of what a device had seen, nothing is new when its update arrives. -/
def Backed : List String → List Update → Prop
  | _, [] => True
  | l, u :: us => (∀ x ∈ u.seen, x ∈ l) ∧ Backed (u.sid :: l) us

/-- All of the updates will have been timely when they arrive. -/
def AllTimely : List String → List Update → Prop
  | _, [] => True
  | l, u :: us => u.Timely l ∧ AllTimely (u.sid :: l) us

/-- The list of a creation has only what its device had seen. -/
def Update.Sound (u : Update) : Prop :=
  ∀ base sid, u.write = .list base sid → ∀ x ∈ base, x ∈ u.seen

/-- The list of a creation has all that its device had seen. -/
def Update.Complete (u : Update) : Prop :=
  ∀ base sid, u.write = .list base sid → ∀ x ∈ u.seen, x ∈ base

/-- The lists have what their devices had seen, up to the first that is not timely. -/
def Faithful : List String → List Update → Prop
  | _, [] => True
  | l, u :: us => u.Complete ∧ (u.Timely l → Faithful (u.sid :: l) us)

def Device.list (d : Device) : List String := d.stored.getD []

structure Follows (entered : List String) (outbox : List Update) (d : Device) : Prop where
  backed : Backed entered outbox
  sound : ∀ u ∈ outbox, u.Sound
  faithful : Faithful entered outbox
  seen : ∀ x ∈ d.seen, x ∈ entered ∨ x ∈ outbox.map Update.sid
  stored : ∀ x ∈ d.list, x ∈ d.seen
  kept : AllTimely entered outbox → ∀ x ∈ d.seen, x ∈ d.list

structure Inv (s : State) : Prop where
  value : ∀ x ∈ s.register.value, x ∈ s.entered
  devices : ∀ n, Follows s.entered (s.register.outbox n) (s.device n)

section Lists

variable {l m : List String} {u : Update} {us : List Update} {d : Device} {x : String}

theorem mem_apply_update : x ∈ u.apply m ↔ x = u.sid ∨ match u.write with
    | .list base _ => x ∈ base
    | .arrayUnion _ => x ∈ m := mem_apply

theorem cons_subset (hsub : ∀ x ∈ l, x ∈ m) (sid : String) : ∀ x ∈ sid :: l, x ∈ sid :: m :=
  fun _ hx => List.mem_cons.mpr ((List.mem_cons.mp hx).imp_right (hsub _))

theorem Update.Timely.mono (hsub : ∀ x ∈ l, x ∈ m) (h : u.Timely m) : u.Timely l := by
  obtain ⟨⟨base, sid⟩ | ⟨sid⟩, seen⟩ := u
  · exact fun x hx => h x (hsub x hx)
  · trivial

theorem Backed.mono (hsub : ∀ x ∈ l, x ∈ m) (h : Backed l us) : Backed m us := by
  induction us generalizing l m with
  | nil => trivial
  | cons u us ih => exact ⟨fun x hx => hsub x (h.1 x hx), ih (cons_subset hsub u.sid) h.2⟩

theorem AllTimely.mono (hsub : ∀ x ∈ l, x ∈ m) (h : AllTimely m us) : AllTimely l us := by
  induction us generalizing l m with
  | nil => trivial
  | cons u us ih => exact ⟨h.1.mono hsub, ih (cons_subset hsub u.sid) h.2⟩

theorem Faithful.mono (hsub : ∀ x ∈ l, x ∈ m) (h : Faithful l us) : Faithful m us := by
  induction us generalizing l m with
  | nil => trivial
  | cons u us ih =>
      exact ⟨h.1, fun htimely => ih (cons_subset hsub u.sid) (h.2 (htimely.mono hsub))⟩

theorem Backed.concat (h : Backed l us) (hu : ∀ x ∈ u.seen, x ∈ l ∨ x ∈ us.map Update.sid) :
    Backed l (us ++ [u]) := by
  induction us generalizing l with
  | nil => exact ⟨fun x hx => (hu x hx).elim id fun hx => absurd hx List.not_mem_nil, trivial⟩
  | cons v us ih =>
      refine ⟨h.1, ih h.2 fun x hx => ?_⟩
      rcases hu x hx with hx | hx
      · exact Or.inl (List.mem_cons_of_mem _ hx)
      · rcases List.mem_cons.mp hx with rfl | hx
        · exact Or.inl List.mem_cons_self
        · exact Or.inr hx

theorem Faithful.concat (h : Faithful l us) (hu : AllTimely l us → u.Complete) :
    Faithful l (us ++ [u]) := by
  induction us generalizing l with
  | nil => exact ⟨hu trivial, fun _ => trivial⟩
  | cons v us ih => exact ⟨h.1, fun hv => ih (h.2 hv) fun hall => hu ⟨hv, hall⟩⟩

theorem AllTimely.left (h : AllTimely l (us ++ [u])) : AllTimely l us := by
  induction us generalizing l with
  | nil => trivial
  | cons v us ih => exact ⟨h.1, ih h.2⟩

theorem Backed.apply (h : Backed l (u :: us)) (hsound : u.Sound) (hm : ∀ x ∈ m, x ∈ l) :
    ∀ x ∈ u.apply m, x ∈ u.sid :: l := by
  intro x hx
  refine List.mem_cons.mpr ((mem_apply_update.mp hx).imp_right fun hx => ?_)
  split at hx
  · rename_i base sid hlist
    exact h.1 x (hsound base sid hlist x hx)
  · exact hm x hx

/-- A device is shown the document's sessions and those it is about to add. -/
theorem Backed.view (h : Backed l us) (hsound : ∀ u ∈ us, u.Sound) (hm : ∀ x ∈ m, x ∈ l) :
    ∀ x ∈ us.foldl (fun m u => u.apply m) m, x ∈ l ∨ x ∈ us.map Update.sid := by
  induction us generalizing l m with
  | nil => exact fun x hx => Or.inl (hm x hx)
  | cons u us ih =>
      intro x hx
      obtain ⟨hu, hus⟩ := List.forall_mem_cons.mp hsound
      rcases ih h.2 hus (h.apply hu hm) x hx with hx | hx
      · rcases List.mem_cons.mp hx with rfl | hx
        · exact Or.inr List.mem_cons_self
        · exact Or.inl hx
      · exact Or.inr (List.mem_cons_of_mem _ hx)

/-- A timely update with all that its device had seen loses nothing. -/
theorem Update.Timely.apply (h : u.Timely l) (hcomplete : u.Complete) (hm : ∀ x ∈ l, x ∈ m) :
    ∀ x ∈ u.sid :: l, x ∈ u.apply m := by
  intro x hx
  rw [mem_apply_update]
  rcases List.mem_cons.mp hx with rfl | hl
  · exact Or.inl rfl
  · obtain ⟨⟨base, sid⟩ | ⟨sid⟩, seen⟩ := u
    · exact (h x hl).imp_right (hcomplete base sid rfl x)
    · exact Or.inr (hm x hl)

/-- If nothing under way will be too late, a device is shown all of it. -/
theorem AllTimely.view (h : AllTimely l us) (hfaithful : Faithful l us) (hm : ∀ x ∈ l, x ∈ m) :
    ∀ x, x ∈ l ∨ x ∈ us.map Update.sid → x ∈ us.foldl (fun m u => u.apply m) m := by
  induction us generalizing l m with
  | nil => exact fun x hx => hm x (hx.elim id fun hx => absurd hx List.not_mem_nil)
  | cons u us ih =>
      intro x hx
      refine ih h.2 (hfaithful.2 h.1) (h.1.apply hfaithful.1 hm) x ?_
      rcases hx with hx | hx
      · exact Or.inl (List.mem_cons_of_mem _ hx)
      · rcases List.mem_cons.mp hx with rfl | hx
        · exact Or.inl List.mem_cons_self
        · exact Or.inr hx

end Lists

/-! ### What an operation comes to on a device -/

/-- A completed creation stores its own list, a completed join nothing that
was there. -/
theorem mem_complete {k : MissingKey} {w : Write} {stored : Stored} {x : String} :
    x ∈ ((w.complete k stored).getD none).getD [] ↔ ∃ base sid, w = .list base sid ∧
      (x = sid ∨ x ∈ base) := by
  cases w with
  | list base sid => simp [Write.complete, or_comm]
  | arrayUnion sid =>
      refine iff_of_false ?_ (by simp)
      cases k <;> cases stored <;> simp [Write.complete, MissingKey.storeProxy,
        MissingKey.addObject, MissingKey.read]

namespace Follows

variable {entered entered' : List String} {outbox : List Update} {d : Device} {u : Update}

theorem mono (h : Follows entered outbox d) (hsub : ∀ x ∈ entered, x ∈ entered') :
    Follows entered' outbox d where
  backed := h.backed.mono hsub
  sound := h.sound
  faithful := h.faithful.mono hsub
  seen x hx := (h.seen x hx).imp_left (hsub x)
  stored := h.stored
  kept htimely := h.kept (htimely.mono hsub)

/-- A device logs in, and is shown the document `m` with its own updates. -/
theorem login (h : Follows entered outbox d) {m : List String} (hm : ∀ x ∈ m, x ∈ entered)
    (hall : ∀ x ∈ entered, x ∈ m) :
    Follows entered outbox ⟨true, some (outbox.foldl (fun m u => u.apply m) m),
      entered ++ outbox.map Update.sid⟩ where
  backed := h.backed
  sound := h.sound
  faithful := h.faithful
  seen _ hx := List.mem_append.mp hx
  stored x hx := List.mem_append.mpr (h.backed.view h.sound hm x hx)
  kept htimely x hx := htimely.view h.faithful hall x (List.mem_append.mp hx)

/-- A device sends a creation's update, with its list, or a join's. -/
theorem send (h : Follows entered outbox d) {w : Write}
    (hw : ∀ base sid, w = .list base sid → base = d.list) :
    Follows entered (outbox ++ [⟨w, d.seen⟩]) d where
  backed := h.backed.concat h.seen
  sound u hu := by
    rcases List.mem_append.mp hu with hu | hu
    · exact h.sound u hu
    · obtain rfl := List.mem_singleton.mp hu
      rintro base sid hlist
      obtain rfl := hw base sid hlist
      exact h.stored
  faithful := h.faithful.concat fun htimely base sid hlist => by
    obtain rfl := hw base sid hlist
    exact h.kept htimely
  seen x hx := (h.seen x hx).imp_right fun hx => by
    rw [List.map_append]
    exact List.mem_append_left _ hx
  stored := h.stored
  kept htimely := h.kept htimely.left

/-- The oldest update of a device is written, in time. -/
theorem arrive {k : MissingKey} {us : List Update} (h : Follows entered (u :: us) d)
    (htimely : u.Timely entered) :
    Follows (u.sid :: entered) us
      { d with stored := (u.write.complete k d.stored).getD none, seen := u.completed } where
  backed := h.backed.2
  sound := (List.forall_mem_cons.mp h.sound).2
  faithful := h.faithful.2 htimely
  seen x hx := by
    left
    obtain ⟨⟨base, sid⟩ | ⟨sid⟩, seen⟩ := u
    · exact List.mem_cons.mpr ((List.mem_cons.mp hx).imp_right (h.backed.1 x))
    · exact absurd hx List.not_mem_nil
  stored x hx := by
    obtain ⟨base, sid, hlist, hx⟩ := mem_complete.mp hx
    rw [Update.completed, hlist]
    exact List.mem_cons.mpr (hx.imp_right (h.sound u List.mem_cons_self base sid hlist x))
  kept _ x hx := by
    obtain ⟨⟨base, sid⟩ | ⟨sid⟩, seen⟩ := u
    · show x ∈ (((Write.list base sid).complete k d.stored).getD none).getD []
      refine mem_complete.mpr ⟨base, sid, rfl, ?_⟩
      exact (List.mem_cons.mp hx).imp_right (h.faithful.1 base sid rfl x)
    · exact absurd hx List.not_mem_nil

end Follows

/-! ### Steps -/

section Steps

variable {k : MissingKey} {s s' : State} {n : Nat}

theorem inv_initial : Inv initial where
  value _ hx := absurd hx List.not_mem_nil
  devices _ := ⟨trivial, fun _ hu => absurd hu List.not_mem_nil, trivial,
    fun _ hx => Or.inl hx, fun _ hx => hx, fun _ _ hx => hx⟩

theorem Inv.login (h : Inv s) (hs : Remembers s) (n : Nat) :
    Inv { s with device := Function.update s.device n ⟨true,
      some (s.register.view Update.apply n),
      s.entered ++ (s.register.outbox n).map Update.sid⟩ } where
  value := h.value
  devices := (Function.forall_update_iff s.device fun j d =>
    Follows s.entered (s.register.outbox j) d).mpr
      ⟨(h.devices n).login h.value hs, fun j _ => h.devices j⟩

theorem Inv.send (h : Inv s) {w : Write}
    (hw : ∀ base sid, w = .list base sid → base = (s.device n).list) : Inv (s.send n w) where
  value := h.value
  devices j := by
    by_cases hj : j = n
    · subst j
      show Follows s.entered ((s.register.issue n ⟨w, (s.device n).seen⟩).outbox n) _
      rw [Register.issue_outbox_self]
      exact (h.devices n).send hw
    · show Follows s.entered ((s.register.issue n ⟨w, (s.device n).seen⟩).outbox j) _
      rw [Register.issue_outbox_of_ne _ hj]
      exact h.devices j

theorem Inv.enter {sid : String} {l : List String} (h : Inv s) :
    Inv { s with listed := l, entered := sid :: s.entered } where
  value x hx := List.mem_cons_of_mem _ (h.value x hx)
  devices j := (h.devices j).mono fun _ => List.mem_cons_of_mem _

theorem Inv.arrive {u : Update} {us : List Update} (h : Inv s)
    (hout : s.register.outbox n = u :: us) (htimely : u.Timely s.entered) :
    Inv { s with
      register := ⟨u.apply s.register.value, Function.update s.register.outbox n us⟩
      device := Function.update s.device n { s.device n with
        stored := (u.write.complete k (s.device n).stored).getD none
        seen := u.completed }
      entered := u.sid :: s.entered } := by
  have hdevice := h.devices n
  rw [hout] at hdevice
  refine ⟨hdevice.backed.apply (hdevice.sound u List.mem_cons_self) h.value, fun j => ?_⟩
  by_cases hj : j = n
  · subst j
    simpa using hdevice.arrive htimely
  · simpa [Function.update_of_ne hj] using (h.devices j).mono fun _ => List.mem_cons_of_mem _

/-- An update keeps all that was entered exactly if it is timely. -/
theorem timely_iff {u : Update} {us : List Update} (h : Inv s) (hs : Remembers s)
    (hout : s.register.outbox n = u :: us) :
    (∀ x ∈ u.sid :: s.entered, x ∈ u.apply s.register.value) ↔ u.Timely s.entered := by
  have hdevice := h.devices n
  rw [hout] at hdevice
  refine ⟨fun hall => ?_, fun htimely => htimely.apply hdevice.faithful.1 hs⟩
  have hsound := hdevice.sound u List.mem_cons_self
  obtain ⟨⟨base, sid⟩ | ⟨sid⟩, seen⟩ := u
  · intro x hx
    exact (mem_apply_update.mp (hall x (List.mem_cons_of_mem _ hx))).imp_right
      (hsound base sid rfl x)
  · trivial

/-- What one step does to what is remembered. -/
inductive Turn (k : MissingKey) (s : State) (e : Event) (s' : State) : Prop
  | quiet (hcond : Timely k s e) (hentered : s'.entered = s.entered)
      (hvalue : s'.register.value = s.register.value) (hinv : Inv s')
  | entered (sid : String) (hcond : Timely k s e ↔ sid ∈ s.entered)
      (hentered : s'.entered = sid :: s.entered) (hvalue : s'.register.value = s.register.value)
      (hinv : Inv s')
  | arrived (n : Nat) (u : Update) (us : List Update) (hout : s.register.outbox n = u :: us)
      (hcond : Timely k s e ↔ u.Timely s.entered) (hentered : s'.entered = u.sid :: s.entered)
      (hvalue : s'.register.value = u.apply s.register.value) (hinv : Timely k s e → Inv s')

theorem step_turn {e : Event} (h : Inv s) (hs : Remembers s) (hstep : step k s e = some s') :
    Turn k s e s' := by
  cases e with
  | login n =>
      obtain rfl := Option.some.inj hstep
      exact .quiet trivial rfl rfl (h.login hs n)
  | createNewSession n sid =>
      simp only [step] at hstep
      split at hstep <;> simp only [Option.some.injEq, reduceCtorEq] at hstep
      subst s'
      -- the list of a creation is the device's
      refine .quiet trivial rfl rfl (h.send fun base sid' hlist => ?_)
      exact (Write.list.inj hlist).1.symm
  | join n sid inRoster =>
      simp only [step] at hstep
      split at hstep
      · cases hwrite : joinWrite k sid inRoster (s.device n).stored with
        | none => simp [hwrite] at hstep
        | some ow =>
            cases ow with
            | none =>
                simp only [hwrite, Option.some.injEq] at hstep
                subst s'
                exact .entered sid (by simp [Timely, hwrite]) rfl rfl h.enter
            | some w =>
                simp only [hwrite, Option.some.injEq] at hstep
                subst s'
                have hunion : w = .arrayUnion sid := by
                  rw [joinWrite] at hwrite
                  split at hwrite
                  · simp at hwrite
                  · obtain ⟨l, -, hl⟩ := Option.map_eq_some_iff.mp hwrite
                    split at hl <;> simp only [Option.some.injEq, reduceCtorEq] at hl
                    exact hl.symm
                refine .quiet (by simp [Timely, hwrite]) rfl rfl (h.send fun base sid' hlist => ?_)
                rw [hunion] at hlist
                exact absurd hlist Write.noConfusion
      · simp at hstep
  | arrive n =>
      simp only [step, Option.bind_eq_bind, Option.bind_eq_some_iff, Option.some.injEq] at hstep
      obtain ⟨u, hu, register, hregister, rfl⟩ := hstep
      obtain ⟨v, us, hout, rfl⟩ := Register.arrive_eq_some.mp hregister
      obtain rfl : v = u := by simpa [hout] using hu
      have hcond : Timely k s (.arrive n) ↔ v.Timely s.entered := by simp [Timely, hout]
      exact .arrived n v us hout hcond rfl rfl fun htimely => h.arrive hout (hcond.mp htimely)

theorem remembers_iff_timely {e : Event} (h : Inv s) (hs : Remembers s)
    (hstep : step k s e = some s') : Remembers s' ↔ Timely k s e := by
  cases step_turn h hs hstep with
  | quiet hcond hentered hvalue hinv =>
      refine iff_of_true (fun x hx => ?_) hcond
      rw [hvalue]
      exact hs x (hentered ▸ hx)
  | entered sid hcond hentered hvalue hinv =>
      rw [hcond, Remembers, hentered, hvalue, List.forall_mem_cons]
      exact ⟨fun hall => h.value sid hall.1, fun hin => ⟨hs sid hin, hs⟩⟩
  | arrived n u us hout hcond hentered hvalue hinv =>
      rw [hcond, Remembers, hentered, hvalue]
      exact timely_iff h hs hout

theorem inv_step {e : Event} (h : Inv s) (hs : Remembers s) (hstep : step k s e = some s')
    (hs' : Remembers s') : Inv s' := by
  have htimely := (remembers_iff_timely h hs hstep).mp hs'
  cases step_turn h hs hstep with
  | quiet hcond hentered hvalue hinv => exact hinv
  | entered sid hcond hentered hvalue hinv => exact hinv
  | arrived n u us hout hcond hentered hvalue hinv => exact hinv htimely

end Steps

instance (s : State) : Decidable (Remembers s) :=
  inferInstanceAs (Decidable (∀ sid ∈ s.entered, sid ∈ s.register.value))

end Tootti.Devices
