import Mathlib.Data.List.Perm.Basic
import Tootti.Machine.Run
import Tootti.Model.Accounts

/-!
Who is logged in.

What a phone has saved is used at every launch, and its uid and username go into
the rosters. It comes from a query that was sent, and is archived, under the email
in the text field's property, not under the one that was signed in. As long as
nobody types another email while a login is under way, the two are the same, and
the saved identity is the one whose password was accepted on that phone.
-/

namespace Tootti.Accounts

open Machine

variable {H S P : Type} {c : Setting H S P} {s t start : System H S P} {e : Event H S P}
  {past : List (Event H S P)} {p : P} {email : String}

/-- Whoever taps again before the answers have come has not changed the email. -/
def Repeats (s : System H S P) : Event H S P → Prop
  | .login h email _ =>
      (s.home h).signIns ≠ [] ∨ (s.home h).queries ≠ [] → email = (s.home h).email
  | .createAccount k email _ _ _ => (s.signup k).creates ≠ [] → email = (s.signup k).email
  | _ => True

/-- Moreover no call of a sign-up fails: an account that is made gets its
document. -/
def Stores (s : System H S P) : Event H S P → Prop
  | .createUser _ _ created told => created → told
  | .addDocument _ id => id.isSome
  | e => Repeats s e

/-- `documents[0]` is asked of an empty array. -/
def Raises (s : System H S P) : Event H S P → Prop
  | .query h i r => ∃ email ∈ (s.home h).queries[i]?, s.server.answer r email = some none
  | .resume h i r => ∃ call ∈ (s.home h).resumes[i]?, s.server.answer r call.1 = some none
  | _ => False

/-- The reply comes from a cache that does not have the document. -/
def Reply.Lacks (r : Reply) (id : String) : Prop :=
  ∃ cached, r = .cache cached ∧ id ∉ cached.map Prod.fst

theorem Stores.repeats (h : Stores s e) : Repeats s e := by
  cases e with
  | login | createAccount => exact h
  | _ => trivial

instance (s : System H S P) : (e : Event H S P) → Decidable (Repeats s e)
  | .login .. | .createAccount .. => inferInstanceAs (Decidable (_ → _))
  | .signIn .. | .query .. | .viewWillAppear .. | .resume .. | .createUser .. | .addDocument ..
  | .logout .. | .update .. => .isTrue trivial

instance (s : System H S P) : (e : Event H S P) → Decidable (Stores s e)
  | .createUser .. => inferInstanceAs (Decidable (_ → _))
  | .addDocument .. => inferInstanceAs (Decidable (_ = true))
  | .login .. | .createAccount .. => inferInstanceAs (Decidable (_ → _))
  | .signIn .. | .query .. | .viewWillAppear .. | .resume .. | .logout .. | .update .. =>
      .isTrue trivial

section Steps

variable [DecidableEq H] [DecidableEq S] [DecidableEq P]

/-- An answer has come on the phone that accepts the email's password. -/
def Authenticated (c : Setting H S P) (start : System H S P) (past : List (Event H S P)) (p : P)
    (email : String) : Prop :=
  ∃ before after h i pass m, past = before ++ .signIn h i true :: after ∧
    run (step c) start before = some m ∧ c.ofHome h = p ∧
    (m.home h).signIns[i]? = some (email, pass) ∧ (c.key email, pass) ∈ m.server.accounts

theorem Authenticated.concat (h : Authenticated c start past p email) :
    Authenticated c start (past ++ [e]) p email := by
  obtain ⟨before, after, h, i, pass, m, rfl, hrest⟩ := h
  exact ⟨before, after ++ [e], h, i, pass, m, by simp, hrest⟩

/-! ### What a step does -/

/-- All that a step can do. -/
inductive Effect (c : Setting H S P) (s : System H S P) : Event H S P → System H S P → Prop
  | login (h : H) (email pass : String) :
      Effect c s (.login h email pass) (s.setHome h ((s.home h).typed email pass))
  | accepted {h : H} {i : ℕ} {call : String × String} (hcall : (s.home h).signIns[i]? = some call)
      (haccepts : s.server.accepts c.key call) :
      Effect c s (.signIn h i true) (s.setHome h ((s.home h).answeredSignIn i).asks)
  | refused (h : H) (i : ℕ) (reached : Bool) :
      Effect c s (.signIn h i reached) (s.setHome h ((s.home h).answeredSignIn i))
  | queryFailed (h : H) (i : ℕ) (r : Reply) :
      Effect c s (.query h i r) (s.setHome h ((s.home h).answeredQuery i))
  | queryRaised {h : H} {i : ℕ} {r : Reply} {email : String}
      (hcall : (s.home h).queries[i]? = some email)
      (hfound : s.server.answer r email = some none) : Effect c s (.query h i r)
      ((s.setHome h ((s.home h).answeredQuery i)).terminate c (c.ofHome h))
  | loggedIn {h : H} {i : ℕ} {r : Reply} {email uid : String} {d : UserData}
      (hcall : (s.home h).queries[i]? = some email)
      (hfound : s.server.answer r email = some (some (uid, d))) : Effect c s (.query h i r)
      ((s.setHome h ((s.home h).answeredQuery i)).setPhone (c.ofHome h)
        (.loggedIn (s.home h).email uid d))
  | nothingSaved (h : H) : Effect c s (.viewWillAppear h) s
  | appeared {h : H} {v : Saved} (hsaved : (s.phone (c.ofHome h)).saved = some v) :
      Effect c s (.viewWillAppear h) (s.setHome h ((s.home h).asksSaved v))
  | resumeFailed (h : H) (i : ℕ) (r : Reply) :
      Effect c s (.resume h i r) (s.setHome h ((s.home h).answeredResume i))
  | resumeRaised {h : H} {i : ℕ} {r : Reply} {call : String × String}
      (hcall : (s.home h).resumes[i]? = some call)
      (hfound : s.server.answer r call.1 = some none) : Effect c s (.resume h i r)
      ((s.setHome h ((s.home h).answeredResume i)).terminate c (c.ofHome h))
  | resumed {h : H} {i : ℕ} {r : Reply} {call : String × String} {uid : String} {d : UserData}
      (hcall : (s.home h).resumes[i]? = some call)
      (hfound : s.server.answer r call.1 = some (some (uid, d))) : Effect c s (.resume h i r)
      ((s.setHome h ((s.home h).answeredResume i)).setPhone (c.ofHome h)
        ((s.phone (c.ofHome h)).resumed call.1 call.2 uid d))
  | createAccount (k : S) (email pass username bio : String) :
      Effect c s (.createAccount k email pass username bio)
        (s.setSignup k ((s.signup k).typed email pass username bio))
  | createFailed (k : S) (i : ℕ) (told : Bool) :
      Effect c s (.createUser k i false told) (s.setSignup k ((s.signup k).answered i))
  | created {k : S} {i : ℕ} {told : Bool} {call : String × String}
      (hcall : (s.signup k).creates[i]? = some call)
      (htaken : s.server.taken c.key call.1 = false) : Effect c s (.createUser k i true told)
      { s.setSignup k ((s.signup k).answered i) with
        server := { s.server with
          accounts := s.server.accounts ++ [(c.key call.1, call.2)] }
        stores := if told then s.stores ++ [(s.signup k).docData] else s.stores }
  | storeLost (i : ℕ) :
      Effect c s (.addDocument i none) { s with stores := s.stores.eraseIdx i }
  | stored {i : ℕ} {id : String} {d : UserData} (hcall : s.stores[i]? = some d)
      (hfree : s.server.documents.find? id = none) : Effect c s (.addDocument i (some id))
      { s with
        stores := s.stores.eraseIdx i
        server := { s.server with documents := s.server.documents.insert (· ≤ ·) id d hfree } }
  | logout (p : P) : Effect c s (.logout p) (s.setPhone p { s.phone p with saved := none })
  | update (id : String) (allMergedSongs joinedSessions : List String) :
      Effect c s (.update id allMergedSongs joinedSessions)
        { s with server := { s.server with documents := s.server.documents.update id fun d =>
            { d with allMergedSongs, joinedSessions } } }

theorem step_effect (hstep : step c s e = some t) : Effect c s e t := by
  cases e with
  | login h email pass => exact Option.some.inj hstep ▸ .login h email pass
  | signIn h i reached =>
      obtain ⟨call, hcall, rfl⟩ := Option.map_eq_some_iff.mp hstep
      dsimp only
      split
      · rename_i hok
        obtain ⟨rfl, haccepts⟩ := Bool.and_eq_true_iff.mp hok
        exact .accepted hcall haccepts
      · exact .refused h i reached
  | query h i r =>
      obtain ⟨email, hcall, rfl⟩ := Option.map_eq_some_iff.mp hstep
      dsimp only
      split
      · exact .queryFailed h i r
      · rename_i hfound
        exact .queryRaised hcall hfound
      · rename_i hfound
        exact .loggedIn hcall hfound
  | viewWillAppear h =>
      cases hsaved : (s.phone (c.ofHome h)).saved with
      | none =>
          simp only [step, hsaved, Option.some.injEq] at hstep
          exact hstep ▸ .nothingSaved h
      | some v =>
          simp only [step, hsaved, Option.some.injEq] at hstep
          exact hstep ▸ .appeared hsaved
  | resume h i r =>
      obtain ⟨call, hcall, rfl⟩ := Option.map_eq_some_iff.mp hstep
      dsimp only
      split
      · exact .resumeFailed h i r
      · rename_i hfound
        exact .resumeRaised hcall hfound
      · rename_i hfound
        exact .resumed hcall hfound
  | createAccount k email pass username bio =>
      exact Option.some.inj hstep ▸ .createAccount k email pass username bio
  | createUser k i created told =>
      obtain ⟨call, hcall, hstep⟩ := Option.bind_eq_some_iff.mp hstep
      cases created with
      | false => exact Option.some.inj hstep ▸ .createFailed k i told
      | true =>
          cases htaken : s.server.taken c.key call.1 with
          | true => simp [htaken] at hstep
          | false =>
              simp only [htaken, if_true, Bool.false_eq_true, if_false, Option.some.injEq] at hstep
              exact hstep ▸ .created hcall htaken
  | addDocument i id =>
      obtain ⟨d, hcall, hstep⟩ := Option.bind_eq_some_iff.mp hstep
      cases id with
      | none => exact Option.some.inj hstep ▸ .storeLost i
      | some id =>
          by_cases hfree : s.server.documents.find? id = none
          · simp only [hfree, dite_true, Option.some.injEq] at hstep
            exact hstep ▸ .stored hcall hfree
          · simp [hfree] at hstep
  | logout p => exact Option.some.inj hstep ▸ .logout p
  | update id allMergedSongs joinedSessions =>
      exact Option.some.inj hstep ▸ .update id allMergedSongs joinedSessions

end Steps

/-! ### The documents -/

/-- The emails of the documents that are stored or on their way. -/
def System.emails (s : System H S P) : List String :=
  s.server.documents.docs.map (fun d => d.2.email) ++ s.stores.map UserData.email

def Server.Knows (s : Server) (uid email username : String) : Prop :=
  ∃ d, s.documents.find? uid = some d ∧ d.email = email ∧ d.username = username

theorem Server.knows_of_mem_shown {v : Server} {r : Reply} {docs : List (String × UserData)}
    {x : String × UserData} (h : v.shown r = some docs) (hx : x ∈ docs) :
    v.Knows x.1 x.2.email x.2.username := by
  cases r with
  | failed => simp [Server.shown] at h
  | server =>
      obtain rfl := Option.some.inj h
      exact ⟨x.2, Collection.find?_eq_some.mpr hx, rfl, rfl⟩
  | cache cached =>
      obtain rfl := Option.some.inj h
      obtain ⟨⟨id, allMergedSongs, joinedSessions⟩, -, hx⟩ := List.mem_filterMap.mp hx
      obtain ⟨d, hfind, rfl⟩ := Option.map_eq_some_iff.mp hx
      exact ⟨d, hfind, rfl, rfl⟩

/-- What a query finds is some document of that email. -/
theorem Server.knows_of_answer {v : Server} {r : Reply} {uid : String} {d : UserData}
    (h : v.answer r email = some (some (uid, d))) : v.Knows uid email d.username := by
  obtain ⟨docs, hdocs, hfirst⟩ := Option.map_eq_some_iff.mp h
  have hknows := Server.knows_of_mem_shown hdocs (List.mem_of_find?_eq_some hfirst)
  have hemail : d.email = email := by simpa using List.find?_some hfirst
  exact hemail ▸ hknows

/-- A query that an account's document could answer finds nothing exactly if the
document has another email, or is not in the cache. -/
theorem Server.answer_eq_none_iff {v : Server} {r : Reply} {id : String} {d : UserData}
    (hfind : v.documents.find? id = some d)
    (honly : ∀ j d', v.documents.find? j = some d' → d'.email = email → j = id) :
    v.answer r email = some none ↔ r ≠ .failed ∧ (d.email ≠ email ∨ r.Lacks id) := by
  rw [Server.answer, Option.map_eq_some_iff]
  constructor
  case mp =>
    rintro ⟨docs, hdocs, hnone⟩
    refine ⟨fun hfailed => by simp [hfailed, Server.shown] at hdocs, ?_⟩
    by_contra! hhas
    obtain ⟨hemail, hcached⟩ := hhas
    suffices hmem : ∃ d', (id, d') ∈ docs ∧ d'.email = email by
      obtain ⟨d', hmem, hemail'⟩ := hmem
      exact absurd (List.find?_eq_none.mp hnone _ hmem) (by simp [hemail'])
    cases r with
    | failed => simp [Server.shown] at hdocs
    | server =>
        obtain rfl := Option.some.inj hdocs
        exact ⟨d, Collection.find?_eq_some.mp hfind, hemail⟩
    | cache cached =>
        obtain rfl := Option.some.inj hdocs
        obtain ⟨⟨id', songs, sessions⟩, hmem, rfl⟩ := List.mem_map.mp
          (not_not.mp fun hlacks => hcached ⟨cached, rfl, hlacks⟩)
        refine ⟨{ d with allMergedSongs := songs, joinedSessions := sessions },
          List.mem_filterMap.mpr ⟨_, hmem, ?_⟩, hemail⟩
        exact congrArg (Option.map _) hfind
  case mpr =>
    rintro ⟨hanswers, hmissing⟩
    obtain ⟨docs, hdocs⟩ : ∃ docs, v.shown r = some docs := by
      cases r with
      | failed => exact absurd rfl hanswers
      | server | cache => exact ⟨_, rfl⟩
    refine ⟨docs, hdocs, List.find?_eq_none.mpr fun x hx hemail => ?_⟩
    rw [decide_eq_true_eq] at hemail
    -- the document of the email would be the account's
    obtain ⟨d', hfind', hemail', -⟩ := Server.knows_of_mem_shown hdocs hx
    have hid := honly x.1 d' hfind' (hemail'.trans hemail)
    rw [hid, hfind, Option.some.injEq] at hfind'
    subst d'
    rcases hmissing with hspelled | ⟨cached, rfl, hlacks⟩
    · exact hspelled (hemail'.trans hemail)
    · obtain rfl := Option.some.inj hdocs
      obtain ⟨y, hy, hxy⟩ := List.mem_filterMap.mp hx
      obtain ⟨d', -, rfl⟩ := Option.map_eq_some_iff.mp hxy
      exact hlacks (hid ▸ List.mem_map_of_mem hy)

section Documents

variable [DecidableEq H] [DecidableEq S] [DecidableEq P]

/-- A user's document keeps its email and username. -/
theorem Server.Knows.effect {uid username : String} (h : s.server.Knows uid email username)
    (heff : Effect c s e t) : t.server.Knows uid email username := by
  cases heff with
  | stored hcall hfree =>
      obtain ⟨d, hfind, hd⟩ := h
      exact ⟨d, (Collection.find?_insert_eq_some hfree).mpr (.inr hfind), hd⟩
  | update id allMergedSongs joinedSessions =>
      obtain ⟨d, hfind, hd⟩ := h
      by_cases heq : uid = id
      · refine ⟨{ d with allMergedSongs, joinedSessions }, ?_, hd⟩
        rw [Collection.find?_update, if_pos heq, hfind]
        rfl
      · refine ⟨d, ?_, hd⟩
        rw [Collection.find?_update, if_neg heq, hfind]
  | _ => exact h

/-- Only a sign-up that is accepted brings in an email, and it takes its key. -/
inductive EmailStep (c : Setting H S P) (s t : System H S P) (e : Event H S P) : Prop
  | kept (haccounts : t.server.accounts = s.server.accounts) (hemails : t.emails.Perm s.emails)
  | lost (i : ℕ) (he : e = .addDocument i none)
      (haccounts : t.server.accounts = s.server.accounts)
      (hemails : t.emails.Sublist s.emails)
  | created (k : S) (call : String × String) (hcall : call ∈ (s.signup k).creates)
      (htaken : s.server.taken c.key call.1 = false)
      (haccounts : t.server.accounts = s.server.accounts ++ [(c.key call.1, call.2)])
      (hemails : (∃ i, e = .createUser k i true false) ∧ t.emails = s.emails ∨
        t.emails = s.emails ++ [(s.signup k).email])

theorem perm_stored {i : ℕ} {id : String} {d : UserData} {docs : List (String × UserData)}
    {stores : List UserData} (hcall : stores[i]? = some d) :
    ((docs.orderedInsert (fun a b => a.1 ≤ b.1) (id, d)).map (fun d => d.2.email) ++
      (stores.eraseIdx i).map UserData.email).Perm
      (docs.map (fun d => d.2.email) ++ stores.map UserData.email) := by
  obtain ⟨hi, rfl⟩ := List.getElem?_eq_some_iff.mp hcall
  have hdocs := (List.perm_orderedInsert (fun a b => a.1 ≤ b.1) (id, stores[i]) docs).map
    fun d => d.2.email
  have hstores := (List.getElem_cons_eraseIdx_perm hi).map UserData.email
  exact (hdocs.append_right _).trans (List.perm_middle.symm.trans (hstores.append_left _))

theorem map_email_update (docs : Collection String UserData) (id : String)
    (allMergedSongs joinedSessions : List String) :
    (docs.update id fun d => { d with allMergedSongs, joinedSessions }).docs.map
      (fun d => d.2.email) = docs.docs.map fun d => d.2.email := by
  rw [Collection.update, List.map_map]
  refine List.map_congr_left fun d _ => ?_
  show (if d.1 = id then _ else d).2.email = d.2.email
  split <;> rfl

theorem emailStep (heff : Effect c s e t) : EmailStep c s t e := by
  cases heff with
  | @created k i told call hcall htaken =>
      refine .created k call (List.mem_of_getElem? hcall) htaken rfl ?_
      cases told with
      | false => exact .inl ⟨⟨i, rfl⟩, rfl⟩
      | true => exact .inr (by simp [System.emails, Signup.docData])
  | storeLost i =>
      exact .lost i rfl rfl ((List.eraseIdx_sublist s.stores i).map _ |>.append_left _)
  | stored hcall hfree => exact .kept rfl (perm_stored hcall)
  | update id allMergedSongs joinedSessions =>
      refine .kept rfl (List.Perm.of_eq ?_)
      exact congrArg (· ++ _) (map_email_update _ id allMergedSongs joinedSessions)
  | _ => exact .kept rfl (.refl _)

end Documents

/-! ### What holds of the screens and the phones -/

section Sound

variable [DecidableEq H] [DecidableEq S] [DecidableEq P]

/-- The email and username are in the user's document, and the password of the
email's account was accepted on the phone. -/
structure Identified (c : Setting H S P) (start : System H S P) (past : List (Event H S P))
    (v : Server) (p : P) (uid email username : String) : Prop where
  knows : v.Knows uid email username
  authenticated : Authenticated c start past p email

structure HomeSound (c : Setting H S P) (start : System H S P) (past : List (Event H S P))
    (v : Server) (p : P) (k : Home) : Prop where
  signIns : ∀ call ∈ k.signIns, call.1 = k.email
  queries : ∀ email ∈ k.queries, email = k.email ∧ c.key email ∈ v.accounts.map Prod.fst ∧
    Authenticated c start past p email
  resumes : ∀ call ∈ k.resumes, ∃ uid, Identified c start past v p uid call.1 call.2

structure PhoneSound (c : Setting H S P) (start : System H S P) (past : List (Event H S P))
    (v : Server) (p : P) (f : Phone) : Prop where
  saved : ∀ w ∈ f.saved, Identified c start past v p w.uid w.email w.username
  user : ∀ u ∈ f.user, Identified c start past v p u.uid u.email u.username

structure Sound (c : Setting H S P) (start : System H S P) (past : List (Event H S P))
    (s : System H S P) : Prop where
  home : ∀ h, HomeSound c start past s.server (c.ofHome h) (s.home h)
  signup : ∀ k, ∀ call ∈ (s.signup k).creates, call.1 = (s.signup k).email
  phone : ∀ p, PhoneSound c start past s.server p (s.phone p)
  emails : (s.emails.map c.key).Subperm (s.server.accounts.map Prod.fst)
  keys : (s.server.accounts.map Prod.fst).Nodup

variable {v : Server} {k : Home} {f : Phone} {i : ℕ} {uid username : String}

/-- Accounts stay. -/
theorem account_effect {key : String} (h : key ∈ s.server.accounts.map Prod.fst)
    (heff : Effect c s e t) : key ∈ t.server.accounts.map Prod.fst := by
  cases emailStep heff with
  | kept haccounts _ | lost _ _ haccounts _ => exact haccounts ▸ h
  | created k call hcall htaken haccounts _ =>
      rw [haccounts, List.map_append]
      exact List.mem_append_left _ h

theorem Identified.step (h : Identified c start past s.server p uid email username)
    (heff : Effect c s e t) :
    Identified c start (past ++ [e]) t.server p uid email username :=
  ⟨h.knows.effect heff, h.authenticated.concat⟩

namespace HomeSound

theorem initial : HomeSound c start past v p .initial := by
  constructor <;> exact fun _ h => absurd h List.not_mem_nil

theorem step (hk : HomeSound c start past s.server p k) (heff : Effect c s e t) :
    HomeSound c start (past ++ [e]) t.server p k where
  signIns := hk.signIns
  queries email hemail := by
    obtain ⟨htyped, haccount, hauth⟩ := hk.queries email hemail
    exact ⟨htyped, account_effect haccount heff, hauth.concat⟩
  resumes call hcall := (hk.resumes call hcall).imp fun _ h => h.step heff

theorem typed (hk : HomeSound c start past v p k) (pass : String)
    (hrepeats : k.signIns ≠ [] ∨ k.queries ≠ [] → email = k.email) :
    HomeSound c start past v p (k.typed email pass) where
  signIns call hcall := by
    rcases List.mem_append.mp hcall with hold | hnew
    · rw [hk.signIns call hold]
      exact (hrepeats (.inl (List.ne_nil_of_mem hold))).symm
    · rw [List.mem_singleton.mp hnew]
      rfl
  queries e he := by
    obtain ⟨hemail, hrest⟩ := hk.queries e he
    exact ⟨hemail.trans (hrepeats (.inr (List.ne_nil_of_mem he))).symm, hrest⟩
  resumes := hk.resumes

theorem answeredSignIn (hk : HomeSound c start past v p k) :
    HomeSound c start past v p (k.answeredSignIn i) where
  signIns call hcall := hk.signIns call (List.mem_of_mem_eraseIdx hcall)
  queries := hk.queries
  resumes := hk.resumes

theorem asks (hk : HomeSound c start past v p k)
    (haccount : c.key k.email ∈ v.accounts.map Prod.fst)
    (hauth : Authenticated c start past p k.email) : HomeSound c start past v p k.asks where
  signIns := hk.signIns
  queries e he := by
    rcases List.mem_append.mp he with hold | hnew
    · exact hk.queries e hold
    · rw [List.mem_singleton.mp hnew]
      exact ⟨rfl, haccount, hauth⟩
  resumes := hk.resumes

theorem answeredQuery (hk : HomeSound c start past v p k) :
    HomeSound c start past v p (k.answeredQuery i) where
  signIns := hk.signIns
  queries e he := hk.queries e (List.mem_of_mem_eraseIdx he)
  resumes := hk.resumes

theorem asksSaved (hk : HomeSound c start past v p k) {w : Saved}
    (hw : Identified c start past v p w.uid w.email w.username) :
    HomeSound c start past v p (k.asksSaved w) where
  signIns := hk.signIns
  queries := hk.queries
  resumes call hcall := by
    rcases List.mem_append.mp hcall with hold | hnew
    · exact hk.resumes call hold
    · rw [List.mem_singleton.mp hnew]
      exact ⟨w.uid, hw⟩

theorem answeredResume (hk : HomeSound c start past v p k) :
    HomeSound c start past v p (k.answeredResume i) where
  signIns := hk.signIns
  queries := hk.queries
  resumes call hcall := hk.resumes call (List.mem_of_mem_eraseIdx hcall)

end HomeSound

namespace PhoneSound

theorem step (hf : PhoneSound c start past s.server p f) (heff : Effect c s e t) :
    PhoneSound c start (past ++ [e]) t.server p f where
  saved w hw := (hf.saved w hw).step heff
  user u hu := (hf.user u hu).step heff

theorem loggedIn {d : UserData} (h : Identified c start past v p uid email d.username) :
    PhoneSound c start past v p (.loggedIn email uid d) where
  saved w hw := by
    obtain rfl := Option.some.inj hw
    exact h
  user u hu := by
    obtain rfl := Option.some.inj hu
    exact h

theorem resumed (hf : PhoneSound c start past v p f) {d : UserData}
    (h : Identified c start past v p uid email username) :
    PhoneSound c start past v p (f.resumed email username uid d) where
  saved := hf.saved
  user u hu := by
    obtain rfl := Option.some.inj hu
    exact h

theorem terminated (hf : PhoneSound c start past v p f) :
    PhoneSound c start past v p f.terminated where
  saved := hf.saved
  user u hu := absurd hu (Option.not_mem_none u)

theorem logout (hf : PhoneSound c start past v p f) :
    PhoneSound c start past v p { f with saved := none } where
  saved w hw := absurd hw (Option.not_mem_none w)
  user := hf.user

end PhoneSound

namespace Sound

theorem initial : Sound c start past (.initial : System H S P) where
  home _ := .initial
  signup _ _ h := absurd h List.not_mem_nil
  phone _ := ⟨fun w hw => absurd hw (Option.not_mem_none w),
    fun u hu => absurd hu (Option.not_mem_none u)⟩
  emails := List.nil_subperm
  keys := List.nodup_nil

theorem setHome (hs : Sound c start past s) {h : H}
    (hk : HomeSound c start past s.server (c.ofHome h) k) : Sound c start past (s.setHome h k) where
  home h' := by
    by_cases heq : h' = h
    · subst heq
      simpa [System.setHome] using hk
    · simpa [System.setHome, Function.update_of_ne heq] using hs.home h'
  signup := hs.signup
  phone := hs.phone
  emails := hs.emails
  keys := hs.keys

theorem setSignup (hs : Sound c start past s) {k : S} {f : Signup}
    (hf : ∀ call ∈ f.creates, call.1 = f.email) : Sound c start past (s.setSignup k f) where
  home := hs.home
  signup k' := by
    by_cases heq : k' = k
    · subst heq
      simpa [System.setSignup] using hf
    · simpa [System.setSignup, Function.update_of_ne heq] using hs.signup k'
  phone := hs.phone
  emails := hs.emails
  keys := hs.keys

theorem setPhone (hs : Sound c start past s) (hf : PhoneSound c start past s.server p f) :
    Sound c start past (s.setPhone p f) where
  home := hs.home
  signup := hs.signup
  phone q := by
    by_cases heq : q = p
    · subst heq
      simpa [System.setPhone] using hf
    · simpa [System.setPhone, Function.update_of_ne heq] using hs.phone q
  emails := hs.emails
  keys := hs.keys

theorem terminate (hs : Sound c start past s) : Sound c start past (s.terminate c p) where
  home h := by
    show HomeSound _ _ _ _ _ (if c.ofHome h = p then .initial else s.home h)
    split
    · exact .initial
    · exact hs.home h
  signup k := by
    show ∀ call ∈ (if c.ofSignup k = p then Signup.initial else s.signup k).creates,
      call.1 = (if c.ofSignup k = p then Signup.initial else s.signup k).email
    split
    · exact fun _ h => absurd h List.not_mem_nil
    · exact hs.signup k
  phone := (hs.setPhone (hs.phone p).terminated).phone
  emails := hs.emails
  keys := hs.keys

/-- An account has one document at most. -/
theorem unique (hs : Sound c start past s) {id : String} {d d' : UserData}
    (h : s.server.documents.find? uid = some d) (h' : s.server.documents.find? id = some d')
    (hkey : c.key d.email = c.key d'.email) : id = uid := by
  obtain ⟨kept, hperm, hsub⟩ := hs.emails
  have hnodup : (s.emails.map c.key).Nodup := hperm.nodup_iff.mp (hs.keys.sublist hsub)
  rw [System.emails, List.map_append, List.map_map] at hnodup
  have heq := List.inj_on_of_nodup_map (List.Nodup.of_append_left hnodup)
    (Collection.find?_eq_some.mp h') (Collection.find?_eq_some.mp h) hkey.symm
  exact congrArg Prod.fst heq

/-- What holds goes on holding when a step changes the server. -/
theorem serverStep (hs : Sound c start past s) (heff : Effect c s e t) :
    Sound c start (past ++ [e]) { s with server := t.server, stores := t.stores } where
  home h := HomeSound.step (t := t) (hs.home h) heff
  signup := hs.signup
  phone p := PhoneSound.step (t := t) (hs.phone p) heff
  emails := by
    show (t.emails.map c.key).Subperm (t.server.accounts.map Prod.fst)
    cases emailStep heff with
    | kept haccounts hemails =>
        rw [haccounts]
        exact (hemails.map c.key).subperm.trans hs.emails
    | lost _ _ haccounts hemails =>
        rw [haccounts]
        exact (hemails.map c.key).subperm.trans hs.emails
    | created k call hcall htaken haccounts hemails =>
        rw [haccounts, List.map_append]
        rcases hemails with ⟨-, hemails⟩ | hemails
        · rw [hemails]
          exact hs.emails.trans (List.sublist_append_left _ _).subperm
        · rw [hemails, List.map_append, ← hs.signup k call hcall]
          exact (List.subperm_append_right _).mpr hs.emails
  keys := by
    show (t.server.accounts.map Prod.fst).Nodup
    cases emailStep heff with
    | kept haccounts _ | lost _ _ haccounts _ => exact haccounts ▸ hs.keys
    | created k call hcall htaken haccounts _ =>
        rw [haccounts, List.map_append]
        refine hs.keys.append (List.nodup_singleton _) fun key hkey hnew => ?_
        obtain rfl := List.mem_singleton.mp hnew
        rw [Server.taken, List.contains_eq_mem, decide_eq_false_iff_not] at htaken
        exact htaken hkey

theorem identified_loggedIn (hs : Sound c start past s) {h : H} {d : UserData}
    {r : Reply} (hcall : (s.home h).queries[i]? = some email)
    (hfound : s.server.answer r email = some (some (uid, d))) :
    Identified c start past s.server (c.ofHome h) uid (s.home h).email d.username := by
  obtain ⟨hemail, -, hauth⟩ := (hs.home h).queries email (List.mem_of_getElem? hcall)
  exact hemail ▸ ⟨Server.knows_of_answer hfound, hauth⟩

theorem identified_resumed (hs : Sound c start past s) {h : H} {d : UserData}
    {call : String × String} {r : Reply} (hcall : (s.home h).resumes[i]? = some call)
    (hfound : s.server.answer r call.1 = some (some (uid, d))) :
    Identified c start past s.server (c.ofHome h) uid call.1 call.2 := by
  obtain ⟨uid', ⟨d', hfind', hemail', husername⟩, hauth⟩ :=
    (hs.home h).resumes call (List.mem_of_getElem? hcall)
  obtain ⟨d'', hfind, hemail, -⟩ := Server.knows_of_answer hfound
  obtain rfl := hs.unique hfind hfind' (by rw [hemail, hemail'])
  exact ⟨⟨d', hfind', hemail', husername⟩, hauth⟩

theorem authenticated_accepted (hs : Sound c start past s) (hrun : run (step c) start past = some s)
    {h : H} {call : String × String} (hcall : (s.home h).signIns[i]? = some call)
    (haccepts : s.server.accepts c.key call) :
    c.key (s.home h).email ∈ s.server.accounts.map Prod.fst ∧
      Authenticated c start (past ++ [.signIn h i true]) (c.ofHome h) (s.home h).email := by
  have haccount := List.contains_iff_mem.mp haccepts
  rw [← (hs.home h).signIns call (List.mem_of_getElem? hcall)]
  exact ⟨List.mem_map_of_mem haccount, past, [], h, i, call.2, s, rfl, hrun, rfl, hcall, haccount⟩

theorem step (hs : Sound c start past s) (hrun : run (step c) start past = some s)
    (hrepeats : Repeats s e) (heff : Effect c s e t) : Sound c start (past ++ [e]) t := by
  have hserver := hs.serverStep heff
  cases heff with
  | login h email pass => exact hserver.setHome ((hserver.home h).typed pass hrepeats)
  | @accepted h i call hcall haccepts =>
      obtain ⟨haccount, hauth⟩ := hs.authenticated_accepted hrun hcall haccepts
      exact hserver.setHome ((hserver.home h).answeredSignIn.asks haccount hauth)
  | refused h => exact hserver.setHome (hserver.home h).answeredSignIn
  | queryFailed h => exact hserver.setHome (hserver.home h).answeredQuery
  | @queryRaised h => exact (hserver.setHome (hserver.home h).answeredQuery).terminate
  | loggedIn hcall hfound =>
      exact (hserver.setHome (hserver.home _).answeredQuery).setPhone
        (.loggedIn (hserver.identified_loggedIn hcall hfound))
  | nothingSaved => exact hserver
  | @appeared h v hsaved =>
      exact hserver.setHome ((hserver.home h).asksSaved ((hserver.phone _).saved v hsaved))
  | resumeFailed h => exact hserver.setHome (hserver.home h).answeredResume
  | @resumeRaised h => exact (hserver.setHome (hserver.home h).answeredResume).terminate
  | resumed hcall hfound =>
      exact (hserver.setHome (hserver.home _).answeredResume).setPhone
        ((hserver.phone _).resumed (hserver.identified_resumed hcall hfound))
  | createAccount k email pass username bio =>
      refine hserver.setSignup fun call hcall => ?_
      rcases List.mem_append.mp hcall with hold | hnew
      · rw [hs.signup k call hold]
        exact (hrepeats (List.ne_nil_of_mem hold)).symm
      · rw [List.mem_singleton.mp hnew]
        rfl
  | createFailed k i | created =>
      exact hserver.setSignup fun call hcall => hs.signup _ call (List.mem_of_mem_eraseIdx hcall)
  | storeLost | stored | update => exact hserver
  | logout p => exact hserver.setPhone (hserver.phone p).logout

theorem run {es : List (Event H S P)} (hrun : Machine.run (Accounts.step c) .initial es = some t)
    (hmeets : Meets (Accounts.step c) Repeats .initial es) : Sound c .initial es t :=
  hmeets.history (I := Sound c .initial)
    (fun _ _ _ _ hpast hrepeats hs hstep => hs.step hpast hrepeats (step_effect hstep)) hrun
    .initial

end Sound

end Sound

section Identity

variable [DecidableEq H] [DecidableEq S] [DecidableEq P]

/-- Ann's account, whose key is the lower case email, and the login on her phone. -/
def twoSpellings : Setting Unit Unit Unit where
  key email := if email = "Ann@x.org" then "ann@x.org" else email
  ofHome _ := ()
  ofSignup _ := ()

def signUp : List (Event Unit Unit Unit) :=
  [.createAccount () "Ann@x.org" "secret" "ann" "bass", .createUser () 0 true true,
    .addDocument 0 (some "u1")]

def logIn (email : String) : List (Event Unit Unit Unit) :=
  [.login () email "secret", .signIn () 0 true, .query () 0 .server]

/-- What a phone has saved is what stands in the user's document. It is the only
document of that account, and the account's password was accepted on the phone. -/
theorem identity_authentic {es : List (Event H S P)} {w : Saved}
    (hrun : run (step c) .initial es = some t) (hmeets : Meets (step c) Repeats .initial es)
    (hsaved : (t.phone p).saved = some w) :
    (∃ d, t.server.documents.find? w.uid = some d ∧ d.email = w.email ∧
      d.username = w.username) ∧
    (∀ id d, t.server.documents.find? id = some d → c.key d.email = c.key w.email →
      id = w.uid) ∧
    Authenticated c .initial es p w.email := by
  have hs := Sound.run hrun hmeets
  obtain ⟨⟨d, hfind, hemail, husername⟩, hauth⟩ := (hs.phone p).saved w hsaved
  refine ⟨⟨d, hfind, hemail, husername⟩, fun id d' hfind' hkey => ?_, hauth⟩
  exact hs.unique hfind hfind' (by rw [hemail, hkey])

theorem identity_authentic_ann :
    ∃ t : System Unit Unit Unit,
      run (step twoSpellings) .initial (signUp ++ logIn "Ann@x.org") = some t ∧
        (t.phone ()).saved = some ⟨"u1", "Ann@x.org", "ann", []⟩ ∧
        Authenticated twoSpellings .initial (signUp ++ logIn "Ann@x.org") () "Ann@x.org" := by
  let es := signUp ++ logIn "Ann@x.org"
  have hok : (run (step twoSpellings) .initial es).map (fun t => (t.phone ()).saved) =
      some (some ⟨"u1", "Ann@x.org", "ann", []⟩) := by decide
  obtain ⟨t, ht, hsaved⟩ := Option.map_eq_some_iff.mp hok
  exact ⟨t, ht, hsaved, (identity_authentic ht (by decide) hsaved).2.2⟩

/-- With another email in the text field by then, the phone saves that one. -/
example : (run (step twoSpellings) .initial (signUp ++ [.login () "Ann@x.org" "secret",
    .signIn () 0 true, .login () "bob@x.org" "", .query () 0 .server])).map
      (fun t => (t.phone ()).saved) = some (some ⟨"u1", "bob@x.org", "ann", []⟩) := by
  decide

/-- Each account has its document, stored or on its way. -/
def Complete (c : Setting H S P) (s : System H S P) : Prop :=
  (s.emails.map c.key).Perm (s.server.accounts.map Prod.fst)

theorem Complete.step (h : Complete c s) (hs : Sound c start past s) (hstores : Stores s e)
    (heff : Effect c s e t) : Complete c t := by
  cases emailStep heff with
  | kept haccounts hemails =>
      rw [Complete, haccounts]
      exact (hemails.map c.key).trans h
  | lost i he => exact absurd (he ▸ hstores) nofun
  | created k call hcall htaken haccounts hemails =>
      rcases hemails with ⟨⟨i, he⟩, -⟩ | hemails
      · exact absurd (he ▸ hstores : Stores s (.createUser k i true false)) (by simp [Stores])
      · rw [Complete, haccounts, hemails, List.map_append, List.map_append,
          ← hs.signup k call hcall]
        exact h.append_right _

/-- When every sign-up went through, the app is ended exactly by an answer to a login
under an email that its account has under another spelling, and by the answer of a
cache that lacks the account's document, to such a login or to one with what is
saved. -/
theorem raises_iff_unfound {es : List (Event H S P)}
    (hrun : run (step c) .initial es = some t) (hmeets : Meets (step c) Stores .initial es)
    (harrived : t.stores = []) :
    Raises t e ↔
      (∃ h i r email id d, e = .query h i r ∧ r ≠ .failed ∧
        (t.home h).queries[i]? = some email ∧ t.server.documents.find? id = some d ∧
        c.key d.email = c.key email ∧ (d.email ≠ email ∨ r.Lacks id)) ∨
      ∃ h i r call id d, e = .resume h i r ∧ (t.home h).resumes[i]? = some call ∧
        t.server.documents.find? id = some d ∧ d.email = call.1 ∧ r.Lacks id := by
  obtain ⟨hs, hcomplete⟩ := hmeets.history
    (I := fun past s => Sound c .initial past s ∧ Complete c s)
    (fun past s e s' hpast hstores h hstep =>
      ⟨h.1.step hpast hstores.repeats (step_effect hstep),
        h.2.step h.1 hstores (step_effect hstep)⟩) hrun ⟨.initial, .refl _⟩
  have honly : ∀ {id d}, t.server.documents.find? id = some d → ∀ {email},
      c.key d.email = c.key email →
        ∀ j d', t.server.documents.find? j = some d' → d'.email = email → j = id :=
    fun hfind _ hkey j d' hfind' hemail => hs.unique hfind hfind' (by rw [hkey, hemail])
  constructor
  case mp =>
    intro hraises
    cases e with
    | query h i r =>
        obtain ⟨email, hcall, hfound⟩ := hraises
        obtain ⟨-, haccount, -⟩ := (hs.home h).queries email (List.mem_of_getElem? hcall)
        rw [← hcomplete.mem_iff, System.emails, harrived, List.map_nil, List.append_nil,
          List.map_map] at haccount
        obtain ⟨⟨id, d⟩, hd, hkey⟩ := List.mem_map.mp haccount
        have hfind := Collection.find?_eq_some.mpr hd
        obtain ⟨hr, hmissing⟩ := (Server.answer_eq_none_iff hfind (honly hfind hkey)).mp hfound
        exact .inl ⟨h, i, r, email, id, d, rfl, hr, hcall, hfind, hkey, hmissing⟩
    | resume h i r =>
        obtain ⟨call, hcall, hfound⟩ := hraises
        obtain ⟨uid, ⟨d, hfind, hemail, -⟩, -⟩ :=
          (hs.home h).resumes call (List.mem_of_getElem? hcall)
        obtain ⟨-, hmissing⟩ := (Server.answer_eq_none_iff hfind
          (honly hfind (congrArg c.key hemail))).mp hfound
        exact .inr ⟨h, i, r, call, uid, d, rfl, hcall, hfind, hemail,
          hmissing.resolve_left fun hspelled => hspelled hemail⟩
    | _ => exact absurd hraises id
  case mpr =>
    rintro (⟨h, i, r, email, id, d, rfl, hr, hcall, hfind, hkey, hmissing⟩ |
      ⟨h, i, r, call, id, d, rfl, hcall, hfind, hemail, hlacks⟩)
    · exact ⟨email, hcall,
        (Server.answer_eq_none_iff hfind (honly hfind hkey)).mpr ⟨hr, hmissing⟩⟩
    · refine ⟨call, hcall, (Server.answer_eq_none_iff hfind
        (honly hfind (congrArg c.key hemail))).mpr ⟨?_, .inr hlacks⟩⟩
      obtain ⟨cached, rfl, -⟩ := hlacks
      exact Reply.noConfusion

/-- Ann spells her email as she did, and her phone has gone offline. -/
theorem raises_iff_unfound_ann :
    ∃ t : System Unit Unit Unit,
      run (step twoSpellings) .initial (signUp ++ (logIn "Ann@x.org").dropLast) = some t ∧
        Raises t (.query () 0 (.cache [])) := by
  let es := signUp ++ (logIn "Ann@x.org").dropLast
  have hok : (run (step twoSpellings) .initial es).map
      (fun t => ((t.home ()).queries, t.stores, (t.server.documents.find? "u1").map (·.email))) =
        some (["Ann@x.org"], [], some "Ann@x.org") := by decide
  obtain ⟨t, ht, hend⟩ := Option.map_eq_some_iff.mp hok
  obtain ⟨hqueries, hrest⟩ := Prod.mk.inj hend
  obtain ⟨harrived, hemail⟩ := Prod.mk.inj hrest
  obtain ⟨d, hfind, hd⟩ := Option.map_eq_some_iff.mp hemail
  refine ⟨t, ht, (raises_iff_unfound ht (by decide) harrived).mpr (.inl ?_)⟩
  refine ⟨(), 0, .cache [], "Ann@x.org", "u1", d, rfl, Reply.noConfusion,
    by rw [hqueries]; rfl, hfind, by rw [hd], .inr ⟨[], rfl, List.not_mem_nil⟩⟩

end Identity

end Tootti.Accounts
