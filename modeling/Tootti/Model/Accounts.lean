import Mathlib.Logic.Function.Basic
import Tootti.Machine.Collection

/-!
Signing up, logging in and logging out: `SignupViewController.m`,
`HomeViewController.m` and `logout` of `ApplicationState.m`.

An account is known to Firebase Auth by the key of its email: two spellings with
one key are one account. The user's document is another matter. It is found by
the email as it was spelled, in a query of its own that is sent when the sign-in
was accepted. A phone that is offline answers its queries itself, from the
documents it happens to have in its cache, and reports no error.

The screens keep what was typed in properties. The blocks that run when an answer
comes read the properties again, so they see what was typed last.
-/

namespace Tootti.Accounts

open Machine

/-- `docData` of `createAccount:`. -/
structure UserData where
  email : String
  instrument : String
  username : String
  allMergedSongs : List String
  joinedSessions : List String
  deriving DecidableEq, Repr

structure Server where
  /-- The accounts of Firebase Auth, each the key of its email and a password. -/
  accounts : List (String × String)
  documents : Collection String UserData

/-- `User.m` -/
structure UserObject where
  uid : String
  email : String
  username : String
  instrument : String
  joinedSessions : List String
  allMergedSongs : List String
  deriving DecidableEq, Repr

/-- The four keys of the `NSUserDefaults`, which are set and removed together. -/
structure Saved where
  uid : String
  email : String
  username : String
  joinedSessions : List String
  deriving DecidableEq, Repr

/-- A `HomeViewController`: its properties, and the calls that it waits for. -/
structure Home where
  email : String
  pass : String
  signIns : List (String × String)
  /-- The queries of `login:`, each with the email it asks for. -/
  queries : List String
  /-- The queries of `viewWillAppear:`, each with the saved email and username. -/
  resumes : List (String × String)
  deriving DecidableEq, Repr

/-- A `SignupViewController`. -/
structure Signup where
  email : String
  pass : String
  username : String
  bio : String
  creates : List (String × String)
  deriving DecidableEq, Repr

structure Phone where
  saved : Option Saved
  /-- The static variable `user` of `HomeViewController.m`. -/
  user : Option UserObject
  deriving DecidableEq, Repr

def Home.initial : Home := ⟨"", "", [], [], []⟩

def Home.typed (k : Home) (email pass : String) : Home :=
  { k with email, pass, signIns := k.signIns ++ [(email, pass)] }

def Home.answeredSignIn (k : Home) (i : ℕ) : Home := { k with signIns := k.signIns.eraseIdx i }

/-- The block of an accepted sign-in asks for the email that is typed by then. -/
def Home.asks (k : Home) : Home := { k with queries := k.queries ++ [k.email] }

def Home.answeredQuery (k : Home) (i : ℕ) : Home := { k with queries := k.queries.eraseIdx i }

def Home.asksSaved (k : Home) (v : Saved) : Home :=
  { k with resumes := k.resumes ++ [(v.email, v.username)] }

def Home.answeredResume (k : Home) (i : ℕ) : Home := { k with resumes := k.resumes.eraseIdx i }

def Signup.initial : Signup := ⟨"", "", "", "", []⟩

def Signup.typed (k : Signup) (email pass username bio : String) : Signup :=
  { k with email, pass, username, bio, creates := k.creates ++ [(email, pass)] }

def Signup.answered (k : Signup) (i : ℕ) : Signup := { k with creates := k.creates.eraseIdx i }

def Signup.docData (k : Signup) : UserData := ⟨k.email, k.bio, k.username, [], []⟩

/-- What a login has found is archived under the email that is typed by then. -/
def Phone.loggedIn (email uid : String) (d : UserData) : Phone where
  saved := some ⟨uid, email, d.username, d.joinedSessions⟩
  user := some ⟨uid, email, d.username, d.instrument, d.joinedSessions, d.allMergedSongs⟩

def Phone.resumed (p : Phone) (email username uid : String) (d : UserData) : Phone :=
  { p with user := some ⟨uid, email, username, d.instrument, d.joinedSessions, d.allMergedSongs⟩ }

def Phone.terminated (p : Phone) : Phone := { p with user := none }

/-- Firebase Auth's answer to a sign-in. -/
def Server.accepts (key : String → String) (s : Server) (call : String × String) : Bool :=
  s.accounts.contains (key call.1, call.2)

def Server.taken (key : String → String) (s : Server) (email : String) : Bool :=
  (s.accounts.map Prod.fst).contains (key email)

/-- How a query comes to an end. -/
inductive Reply
  | failed
  | server
  /-- The cache has some of the documents, each with the lists of its two last fields
  as they once were. -/
  | cache (cached : List (String × List String × List String))
  deriving DecidableEq, Repr

/-- The documents that the reply is taken from; none at all when it is an error. -/
def Server.shown (s : Server) : Reply → Option (List (String × UserData))
  | .failed => none
  | .server => some s.documents.docs
  | .cache cached =>
      some (cached.filterMap fun (id, allMergedSongs, joinedSessions) =>
        (s.documents.find? id).map fun d => (id, { d with allMergedSongs, joinedSessions }))

/-- `documents[0]` of a query by email, which is missing when the array is empty. -/
def Server.answer (s : Server) (r : Reply) (email : String) :
    Option (Option (String × UserData)) :=
  (s.shown r).map fun docs => docs.find? fun x => x.2.email = email

/-- The screens stand on phones: `H` are the Home screens, `S` the sign-up ones. -/
structure System (H S P : Type) where
  server : Server
  /-- The documents that are on their way to the server. -/
  stores : List UserData
  home : H → Home
  signup : S → Signup
  phone : P → Phone

/-- Where the screens stand, and what makes two emails one account. -/
structure Setting (H S P : Type) where
  key : String → String
  ofHome : H → P
  ofSignup : S → P

inductive Event (H S P : Type)
  | login (h : H) (email pass : String)
  /-- The answer to a sign-in comes; the call may not have reached the server. -/
  | signIn (h : H) (i : ℕ) (reached : Bool)
  | query (h : H) (i : ℕ) (r : Reply)
  | viewWillAppear (h : H)
  | resume (h : H) (i : ℕ) (r : Reply)
  | createAccount (k : S) (email pass username bio : String)
  /-- `told` is whether the phone hears of an account that was made. -/
  | createUser (k : S) (i : ℕ) (created told : Bool)
  | addDocument (i : ℕ) (id : Option String)
  | logout (p : P)
  /-- Other screens have changed the lists of a user's document. -/
  | update (id : String) (allMergedSongs joinedSessions : List String)

variable {H S P : Type} [DecidableEq H] [DecidableEq S] [DecidableEq P]

namespace System

def initial : System H S P where
  server := ⟨[], ⟨[], List.nodup_nil⟩⟩
  stores := []
  home _ := .initial
  signup _ := .initial
  phone _ := ⟨none, none⟩

def setHome (s : System H S P) (h : H) (k : Home) : System H S P :=
  { s with home := Function.update s.home h k }

def setSignup (s : System H S P) (k : S) (f : Signup) : System H S P :=
  { s with signup := Function.update s.signup k f }

def setPhone (s : System H S P) (p : P) (f : Phone) : System H S P :=
  { s with phone := Function.update s.phone p f }

/-- `documents[0]` of an empty array raises, and the app is gone. What it saved
stays. -/
def terminate (c : Setting H S P) (s : System H S P) (p : P) : System H S P where
  server := s.server
  stores := s.stores
  home h := if c.ofHome h = p then .initial else s.home h
  signup k := if c.ofSignup k = p then .initial else s.signup k
  phone := Function.update s.phone p (s.phone p).terminated

end System

def step (c : Setting H S P) (s : System H S P) : Event H S P → Option (System H S P)
  | .login h email pass => some (s.setHome h ((s.home h).typed email pass))
  | .signIn h i reached =>
      (s.home h).signIns[i]?.map fun call =>
        let k := (s.home h).answeredSignIn i
        if reached && s.server.accepts c.key call then s.setHome h k.asks else s.setHome h k
  | .query h i r =>
      (s.home h).queries[i]?.map fun email =>
        let s' := s.setHome h ((s.home h).answeredQuery i)
        match s.server.answer r email with
        | none => s'
        | some none => s'.terminate c (c.ofHome h)
        | some (some (uid, d)) => s'.setPhone (c.ofHome h) (.loggedIn (s.home h).email uid d)
  | .viewWillAppear h =>
      match (s.phone (c.ofHome h)).saved with
      | none => some s
      | some saved => some (s.setHome h ((s.home h).asksSaved saved))
  | .resume h i r =>
      (s.home h).resumes[i]?.map fun call =>
        let s' := s.setHome h ((s.home h).answeredResume i)
        match s.server.answer r call.1 with
        | none => s'
        | some none => s'.terminate c (c.ofHome h)
        | some (some (uid, d)) =>
            s'.setPhone (c.ofHome h) ((s.phone (c.ofHome h)).resumed call.1 call.2 uid d)
  | .createAccount k email pass username bio =>
      some (s.setSignup k ((s.signup k).typed email pass username bio))
  | .createUser k i created told =>
      (s.signup k).creates[i]?.bind fun call =>
        let s' := s.setSignup k ((s.signup k).answered i)
        if created then
          if s.server.taken c.key call.1 then none
          else
            let accounts := s.server.accounts ++ [(c.key call.1, call.2)]
            let stores := if told then s.stores ++ [(s.signup k).docData] else s.stores
            some { s' with server := { s.server with accounts }, stores }
        else some s'
  | .addDocument i id =>
      s.stores[i]?.bind fun d =>
        let stores := s.stores.eraseIdx i
        match id with
        | none => some { s with stores }
        | some id =>
            if h : s.server.documents.find? id = none then
              let documents := s.server.documents.insert (· ≤ ·) id d h
              some { s with stores, server := { s.server with documents } }
            else none
  | .logout p => some (s.setPhone p { s.phone p with saved := none })
  | .update id allMergedSongs joinedSessions =>
      let documents := s.server.documents.update id fun d =>
        { d with allMergedSongs, joinedSessions }
      some { s with server := { s.server with documents } }

end Tootti.Accounts
