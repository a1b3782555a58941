import Tootti.Recording.Objects

/-!
A player is listed once.

Becoming active adds the user to the object of every screen, without looking
whether the user is in it. A join looks. So one entry for each player rests on
the order in which joins, snapshots and the scene's notifications come.
-/

namespace Tootti.Rosters

open Machine Process Recording Objects

/-- The other clients write lists without duplicates. -/
def step (user : User) (p : Process) (e : Objects.Event) : Option Process :=
  if p.crashed then none
  else if ∀ b ∈ e.brings p, b.2.Distinct then (Objects.react user p e).map Prod.fst
  else none

/-- No list that is cached or written has two entries with one uid. -/
def ListedOnce (user : User) (p : Process) (e : Objects.Event) (p' : Process) : Prop :=
  Kept (fun _ l => l.Distinct) (fun _ l => l.Distinct) p' (Objects.deeds user p e)

/-- When the app becomes active, no two screens have one object, and none has
one whose list the user is in. -/
def Absent (user : User) (p : Process) : Objects.Event → Prop
  | .sceneDidActivate => (p.screens.filterMap Mounted.cached).Nodup ∧
      ∀ m ∈ p.screens, ∀ s ∈ p.session? m.cached, s.currentPlayerList.contains user.uid = false
  | _ => True

instance (user : User) (p : Process) : (e : Objects.Event) → Decidable (Absent user p e)
  | .sceneDidActivate => inferInstanceAs (Decidable (_ ∧ _))
  | .createNewSession _ _ | .leaveCurrent | .joined _ _ _ | .viewDidLoad _ | .viewWillAppear _
  | .updateUsersStatus _ _ | .snapshot _ _ _ _ | .clickTrackSnapshot _ _ _
  | .sceneWillDeactivate => .isTrue trivial

structure Inv (user : User) (p : Process) : Prop where
  defaults : p.defaults = defaults user
  crashed : p.crashed = false
  refs : ∀ r ∈ refs p, ∀ i ∈ r, i < p.sessions.length
  objects : ∀ s ∈ p.sessions, s.currentPlayerList.Distinct

theorem inv_initial (user : User) : Inv user (Objects.initial user) := by
  refine ⟨rfl, rfl, fun r hr i hi => ?_, fun s hs => absurd hs List.not_mem_nil⟩
  obtain rfl : r = none := List.mem_singleton.mp hr
  exact absurd hi (Option.not_mem_none i)

section ListedOnce

variable {user : User} {p p' : Process} {e : Objects.Event} {ds : List Deed}

/-- A request that writes a list writes one without duplicates. -/
def Once (q : Request) : Prop := ∀ sid l, q = .currentPlayerList sid l → l.Distinct

theorem once_iff {sid : String} {l : Roster} : Once (.currentPlayerList sid l) ↔ l.Distinct := by
  refine ⟨fun h => h sid l rfl, fun h sid' l' heq => ?_⟩
  obtain ⟨-, rfl⟩ := Request.currentPlayerList.inj heq
  exact h

theorem distinct_entered_iff {s : Session} (h : s.currentPlayerList.Distinct) :
    (entered user s).Distinct ↔ s.currentPlayerList.contains user.uid = false :=
  Roster.distinct_addPlayer_iff h

theorem once_foregroundWrites_iff {m : Mounted} {s : Session} (h : s.currentPlayerList.Distinct) :
    (∀ q ∈ foregroundWrites user m s, Once q) ↔
      s.currentPlayerList.contains user.uid = false := by
  rw [foregroundWrites, List.forall_mem_cons, List.forall_mem_singleton, once_iff, once_iff,
    ← distinct_entered_iff h, foreground, Roster.distinct_setStatus_iff, and_self_iff]

/-- Once a screen has added the user to its object, the user is in no list
that another screen has exactly if none of them has this object. -/
theorem absent_foreground_iff {h : Heap} {m : Mounted} {s : Session} {i : Nat} (ms : List Mounted)
    (hs : h.object? (some i) = some s) :
    (∀ m' ∈ ms, ∀ s' ∈ (h.modifyObject (some i) (foreground user m)).object? m'.cached,
        s'.currentPlayerList.contains user.uid = false) ↔
      i ∉ ms.filterMap Mounted.cached ∧
        ∀ m' ∈ ms, ∀ s' ∈ h.object? m'.cached, s'.currentPlayerList.contains user.uid = false := by
  constructor
  · intro hout
    have hne : ∀ m' ∈ ms, some i ≠ m'.cached := by
      intro m' hm' heq
      have hobject : foreground user m s ∈
          (h.modifyObject (some i) (foreground user m)).object? m'.cached := by
        rw [Heap.object?_modifyObject, if_pos heq, ← heq, hs]
        rfl
      have hfalse := hout m' hm' _ hobject
      rw [contains_foreground] at hfalse
      exact Bool.noConfusion hfalse
    refine ⟨fun hin => ?_, fun m' hm' s' hs' => hout m' hm' s' ?_⟩
    · obtain ⟨m', hm', heq⟩ := List.mem_filterMap.mp hin
      exact hne m' hm' heq.symm
    · rw [Heap.object?_modifyObject, if_neg (hne m' hm')]
      exact hs'
  · rintro ⟨hi, hout⟩ m' hm' s' hs'
    have hne : some i ≠ m'.cached := fun heq => hi (List.mem_filterMap.mpr ⟨m', hm', heq.symm⟩)
    rw [Heap.object?_modifyObject, if_neg hne] at hs'
    exact hout m' hm' s' hs'

/-- Becoming active lists nobody twice exactly if every screen has an object
of its own, and the user is in no object's list. -/
theorem once_foreground_iff (ms : List Mounted) (h : Heap)
    (hvalid : ∀ m ∈ ms, ∀ i ∈ m.cached, i < h.length)
    (hobjects : ∀ s ∈ h, s.currentPlayerList.Distinct) :
    ((∀ s ∈ (tellAll (foreground user) (foregroundWrites user) ms h).1,
        s.currentPlayerList.Distinct) ∧
      ∀ q ∈ (tellAll (foreground user) (foregroundWrites user) ms h).2, Once q) ↔
    (ms.filterMap Mounted.cached).Nodup ∧
      ∀ m ∈ ms, ∀ s ∈ h.object? m.cached, s.currentPlayerList.contains user.uid = false := by
  induction ms generalizing h with
  | nil => simpa [tellAll] using hobjects
  | cons m ms ih =>
      rw [List.forall_mem_cons] at hvalid
      rw [tellAll, List.forall_mem_cons]
      cases hs : h.object? m.cached with
      | none =>
          have hnone : m.cached = none := Heap.eq_none_of_object?_eq_none hvalid.1 hs
          simp only [List.filterMap_cons, hnone, ih h hvalid.2 hobjects]
          simp
      | some s =>
          obtain ⟨i, hi, -⟩ := Option.bind_eq_some_iff.mp hs
          have hs' := hobjects s (Heap.mem_of_object? hs)
          simp only [List.forall_mem_append, once_foregroundWrites_iff hs', List.filterMap_cons, hi,
            List.nodup_cons, Option.mem_some_iff, forall_eq']
          by_cases hout : s.currentPlayerList.contains user.uid = false
          · have hafter : ∀ s' ∈ h.modifyObject (some i) (foreground user m),
                s'.currentPlayerList.Distinct := by
              refine Heap.forall_mem_modifyObject (fun t ht hd => ?_) hobjects
              obtain rfl : s = t := Option.some.inj (hs.symm.trans (hi ▸ ht))
              exact Roster.distinct_setStatus_iff.mpr ((distinct_entered_iff hd).mpr hout)
            have hlength : (h.modifyObject (some i) (foreground user m)).length = h.length :=
              Heap.length_modifyObject
            have hrest := ih (h.modifyObject (some i) (foreground user m))
              (hlength ▸ hvalid.2) hafter
            rw [absent_foreground_iff ms (hi ▸ hs)] at hrest
            simp only [hout, true_and, hrest]
            tauto
          · simp [hout]

theorem listedOnce_sceneDidActivate_iff (h : Inv user p)
    (he : Objects.react user p .sceneDidActivate = some (p', ds)) :
    Kept (fun _ l => l.Distinct) (fun _ l => l.Distinct) p' ds ↔
      Absent user p .sceneDidActivate := by
  have hpost := post_eq_tell (p := p) (h.defaults ▸ tells_foreground user)
  have hvalid : ∀ m ∈ p.screens, ∀ i ∈ m.cached, i < p.sessions.length := fun m hm =>
    h.refs m.cached (List.mem_cons_of_mem _ (List.mem_map_of_mem hm))
  have hiff : _ ↔ Absent user p .sceneDidActivate :=
    once_foreground_iff p.screens p.sessions hvalid h.objects
  have hreact : p.post (fun u s x => x.handleForegroundStatus u s) = (p', ds) := Option.some.inj he
  rw [hpost] at hreact
  obtain ⟨rfl, rfl⟩ := Prod.mk.inj hreact
  rw [← hiff]
  constructor
  · intro hkept
    refine ⟨hkept.objects, fun q hq sid l heq => hkept.written sid l ?_⟩
    exact heq ▸ List.mem_map_of_mem hq
  · rintro ⟨hobjects, honce⟩
    refine ⟨hobjects, fun sid l hin => ?_⟩
    obtain ⟨q, hq, heq⟩ := List.mem_map.mp hin
    exact honce q hq sid l (Deed.sends.inj heq)

/-- Nothing else lists anybody twice. -/
theorem listedOnce_of_ne (h : Inv user p) (hne : e ≠ .sceneDidActivate)
    (hbrings : ∀ b ∈ e.brings p, b.2.Distinct) (he : Objects.react user p e = some (p', ds)) :
    Kept (fun _ l => l.Distinct) (fun _ l => l.Distinct) p' ds := by
  have hremove : ∀ (sid : String) (l : Roster), l.Distinct →
      (l.removePlayer (some user.uid)).Distinct ∧ (l.removePlayer (some user.uid)).Distinct :=
    fun _ l hl =>
      ⟨Roster.distinct_removePlayer user.uid hl, Roster.distinct_removePlayer user.uid hl⟩
  cases e with
  | createNewSession sid name =>
      obtain ⟨rfl, rfl⟩ := Prod.mk.inj (Option.some.inj he)
      refine ⟨h.objects, fun sid' l hin => ?_⟩
      obtain ⟨-, rfl⟩ := Deed.eq_of_sends_mem hin
      exact List.nodup_singleton user.uid
  | leaveCurrent =>
      have hleave := kept_leave h.defaults (r := p.currentSession) hremove h.objects
      rw [Option.some.inj he] at hleave
      exact hleave
  | joined sid d written =>
      obtain ⟨u, -, rfl, rfl⟩ := react_joined he
      have hd : d.currentPlayerList.Distinct := hbrings _ rfl
      have hjoin : Kept (fun _ l => l.Distinct) (fun _ l => l.Distinct)
          (p.join sid d u).1 (p.join sid d u).2 :=
        kept_join (Roster.distinct_join hd) (fun _ => Roster.distinct_join hd) h.objects
      cases written with
      | false => exact hjoin
      | true => exact ⟨hjoin.objects, hjoin.written⟩
  | viewDidLoad clickTrack | viewWillAppear k =>
      obtain ⟨rfl, rfl⟩ := Prod.mk.inj (Option.some.inj he)
      exact kept_silent h.objects
  | updateUsersStatus k on =>
      obtain ⟨m, hm, rfl, rfl⟩ := react_updateUsersStatus he
      have hstatus : ∀ {l : Roster}, l.Distinct → (l.setStatus on (some user.uid)).Distinct :=
        Roster.distinct_setStatus_iff.mpr
      exact kept_updateUsersStatus h.defaults (fun s _ hs => ⟨hstatus hs, hstatus hs⟩) h.objects
  | snapshot k appears os d =>
      obtain ⟨m, sid, hm, hsid, rfl, rfl⟩ := react_snapshot he
      have hd : d.currentPlayerList.Distinct := by
        refine hbrings (sid, d.currentPlayerList) ?_
        simp [Objects.Event.brings, hm, hsid]
      exact kept_snapshot (fun _ _ => hd) h.objects
  | clickTrackSnapshot k r d =>
      obtain ⟨-, heq⟩ := Option.ite_none_right_eq_some.mp he
      obtain ⟨rfl, rfl⟩ := Prod.mk.inj (Option.some.inj heq)
      exact kept_clickTrackListener user k d h.objects
  | sceneWillDeactivate =>
      have hpost := kept_background h.defaults hremove h.objects
      rw [Option.some.inj he] at hpost
      exact hpost
  | sceneDidActivate => exact absurd rfl hne

theorem inv_step (h : Inv user p) (hstep : step user p e = some p')
    (hlisted : ListedOnce user p e p') : Inv user p' := by
  rw [step, if_neg (Bool.eq_false_iff.mp h.crashed)] at hstep
  split at hstep
  · obtain ⟨⟨q, ds⟩, he, rfl⟩ := Option.map_eq_some_iff.mp hstep
    have hframe := frame_react h.defaults he
    refine ⟨hframe.defaults.trans h.defaults, hframe.crashed.trans h.crashed, ?_, hlisted.objects⟩
    intro r hr i hi
    rcases hframe.refs r hr with hold | hnew
    · exact Nat.lt_of_lt_of_le (h.refs r hold i hi) hframe.length
    · exact hnew i hi
  · simp at hstep

theorem listedOnce_iff_absent (h : Inv user p) (hstep : step user p e = some p') :
    ListedOnce user p e p' ↔ Absent user p e := by
  rw [step, if_neg (Bool.eq_false_iff.mp h.crashed)] at hstep
  split at hstep
  · rename_i hbrings
    obtain ⟨⟨q, ds⟩, he, rfl⟩ := Option.map_eq_some_iff.mp hstep
    have hdeeds : Objects.deeds user p e = ds := by rw [Objects.deeds, he]; rfl
    rw [ListedOnce, hdeeds]
    by_cases hactive : e = .sceneDidActivate
    · subst e
      exact listedOnce_sceneDidActivate_iff h he
    · refine iff_of_true (listedOnce_of_ne h hactive hbrings he) ?_
      cases e with
      | sceneDidActivate => exact absurd rfl hactive
      | _ => exact trivial
  · simp at hstep

end ListedOnce

/-- In a run of one client the lists it keeps and writes have every player
once exactly if, whenever the app becomes active, the screens have objects of
their own, and the user is in the list of none of them. -/
theorem listedOnce_iff_run_absent (user : User) (es : List Objects.Event) :
    EveryStep (step user) (ListedOnce user) (Objects.initial user) es ↔
      Meets (step user) (Absent user) (Objects.initial user) es := by
  have hagree : ∀ p e p', Inv user p → step user p e = some p' →
      (ListedOnce user p e p' ↔ Absent user p e) := fun _ _ _ h hs => listedOnce_iff_absent h hs
  exact everyStep_iff_of_invariant hagree (fun _ _ _ h hs hl => inv_step h hs hl)
    (inv_initial user) es

/-- The app becomes inactive during a join, before there is a Recording
screen to hear of it, and active when there is one. -/
theorem player_listed_twice :
    ¬ ∀ (user : User) (es : List Objects.Event),
      EveryStep (step user) (ListedOnce user) (Objects.initial user) es := by
  intro h
  let d : SessionDocument :=
    ⟨"song", "h", [], .empty, [], .empty, false, [⟨"host", "h", false⟩]⟩
  let es : List Objects.Event := [.sceneWillDeactivate, .joined "s" d true, .viewDidLoad none,
    .viewWillAppear 0, .sceneDidActivate]
  have hmeets := (listedOnce_iff_run_absent ⟨"a", "ann"⟩ es).mp (h ⟨"a", "ann"⟩ es)
  exact absurd hmeets (by decide)

end Tootti.Rosters
