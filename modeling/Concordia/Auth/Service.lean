/-
The auth service (`services/auth/src/main/java/com/concordia/auth/service/AuthService.java`) under concurrency: login,
refresh and logout as programs that make one repository call a step.

- A request is a number with a `Phase`: what it has read and where it stands. `advance` performs its next step, which is
  one repository call or the local work between two of them. Only `logout` opens a transaction, and it makes one call.
- A refresh token is the text of a random UUID, modelled by the number drawn; the next one drawn is always new.
  `hashToken` is SHA-256, taken as injective; `passwordMatches` is the password encoder.
- `delete` of an entity deletes by id, and deletes nothing when the row is gone.
- A request that fails its JWT check (`extractUserId`) does nothing and is left out; `logout` carries the user's id.
- `log` records what was answered, in order, and when logouts began. Audit events are left out.
-/
import Concordia.Lib.Run
import Concordia.Servers.Db

namespace Concordia.Auth

open Concordia.Servers (Uuid)
open Concordia.Lib

/-! ## Data -/

abbrev Token := ℕ

/-- the library functions the service relies on -/
structure Crypto where
  hashToken : Token → String
  passwordMatches : String → String → Bool
  /-- SHA-256 has no collisions -/
  hashToken_injective : Function.Injective hashToken

structure User where
  id : Uuid
  username : String
  email : String
  passwordHash : String
deriving DecidableEq, Repr

/-- a row of `refresh_tokens` -/
structure RefreshToken where
  id : Uuid
  userId : Uuid
  tokenHash : String
  /-- in nanoseconds -/
  expiresAt : ℕ
deriving DecidableEq, Repr

/-- the claims of a JWT; `exp` is in seconds -/
structure AccessToken where
  subject : Uuid
  username : String
  iat : ℕ
  exp : ℕ
deriving DecidableEq, Repr

structure LoginResponse where
  accessToken : AccessToken
  refreshToken : Token
  expiresIn : ℕ
deriving DecidableEq, Repr

/-- where a request stands -/
inductive Phase where
  | idle
  /-- before `findByEmail` -/
  | login (email password : String)
  /-- the credentials were accepted -/
  | loginUser (user : User)
  /-- before `findByTokenHash` -/
  | refresh (token : Token)
  /-- the row was found; its expiry is not yet checked -/
  | found (token : Token) (oldToken : RefreshToken)
  /-- found expired; before `delete` -/
  | expired (token : Token) (oldToken : RefreshToken)
  /-- found unexpired; before `delete` -/
  | rotating (token : Token) (oldToken : RefreshToken)
  /-- deleted; before `findById` -/
  | rotated (token : Token) (oldToken : RefreshToken)
  | refreshUser (token : Token) (user : User)
  /-- before `save`; `parent` is the token a refresh exchanges -/
  | saving (parent : Option Token) (newToken : RefreshToken) (response : LoginResponse)
  /-- before `deleteByUserId` -/
  | logout (userId : Uuid)
  | loggedIn (response : LoginResponse)
  | refreshed (token : Token) (response : LoginResponse)
  | loggedOut
  | failed (error : String)

/-- the request has not begun -/
def Phase.isIdle : Phase → Bool
  | .idle => true
  | _ => false

/-- the request has been answered -/
def Phase.final : Phase → Bool
  | .loggedIn _ | .refreshed _ _ | .loggedOut | .failed _ => true
  | _ => false

inductive Event where
  | loggedIn (request : ℕ) (userId : Uuid) (new : Token)
  | refreshed (request : ℕ) (userId : Uuid) (old new : Token)
  | logoutBegan (request : ℕ) (userId : Uuid)
  | loggedOut (request : ℕ) (userId : Uuid)
deriving DecidableEq, Repr

structure St where
  users : List User
  refreshTokens : List RefreshToken
  /-- in nanoseconds -/
  now : ℕ
  /-- how many UUIDs have been drawn -/
  drawn : ℕ
  phase : ℕ → Phase
  log : List Event

def init (users : List User) : St := ⟨users, [], 0, 0, fun _ => .idle, []⟩

inductive Op where
  | login (request : ℕ) (email password : String)
  | refresh (request : ℕ) (token : Token)
  | logout (request : ℕ) (userId : Uuid)
  | advance (request : ℕ)
  | tick (nanos : ℕ)
deriving DecidableEq, Repr

/-! ## Steps -/

def St.setPhase (s : St) (request : ℕ) (p : Phase) : St := { s with phase := Function.update s.phase request p }

/-- 15 minutes, in seconds -/
def expiresIn : ℕ := 900

/-- 7 days -/
def refreshTtl : ℕ := 7 * 24 * 3600 * 10 ^ 9

/-- the new pair of tokens and the row to save, from the clock and two new UUIDs -/
def newTokens (C : Crypto) (s : St) (user : User) : RefreshToken × LoginResponse :=
  let rawRefreshToken := s.drawn
  let seconds := s.now / 10 ^ 9
  (⟨s.drawn + 1, user.id, C.hashToken rawRefreshToken, s.now + refreshTtl⟩,
    ⟨⟨user.id, user.username, seconds, seconds + expiresIn⟩, rawRefreshToken, expiresIn⟩)

def issueTokens (C : Crypto) (s : St) (request : ℕ) (parent : Option Token) (user : User) : St :=
  let (newToken, response) := newTokens C s user
  { s with
    drawn := s.drawn + 2
    phase := Function.update s.phase request (.saving parent newToken response) }

/-- `refreshTokenRepository.delete` -/
def St.deleteToken (s : St) (oldToken : RefreshToken) : St :=
  { s with refreshTokens := s.refreshTokens.filter (·.id ≠ oldToken.id) }

/-- `refreshTokenRepository.deleteByUserId` -/
def St.deleteByUserId (s : St) (userId : Uuid) : St :=
  { s with refreshTokens := s.refreshTokens.filter (·.userId ≠ userId) }

/-- `refreshTokenRepository.findByTokenHash` -/
def St.findByTokenHash (s : St) (tokenHash : String) : Option RefreshToken :=
  s.refreshTokens.find? (·.tokenHash = tokenHash)

/-- what a `save` answers -/
def answered (parent : Option Token) (response : LoginResponse) : Phase :=
  match parent with
  | none => .loggedIn response
  | some token => .refreshed token response

def savedEvent (request : ℕ) (parent : Option Token) (userId : Uuid) (new : Token) : Event :=
  match parent with
  | none => .loggedIn request userId new
  | some old => .refreshed request userId old new

/-- the next step of a request -/
def advance (C : Crypto) (s : St) (request : ℕ) : St :=
  match s.phase request with
  | .login email password =>
    match s.users.find? (·.email = email) with
    | none => s.setPhase request (.failed "invalid credentials")
    | some user =>
      if C.passwordMatches password user.passwordHash then s.setPhase request (.loginUser user)
      else s.setPhase request (.failed "invalid credentials")
  | .loginUser user => issueTokens C s request none user
  | .refresh token =>
    match s.findByTokenHash (C.hashToken token) with
    | none => s.setPhase request (.failed "invalid token")
    | some oldToken => s.setPhase request (.found token oldToken)
  | .found token oldToken =>
    if oldToken.expiresAt < s.now then s.setPhase request (.expired token oldToken)
    else s.setPhase request (.rotating token oldToken)
  | .expired _ oldToken => (s.deleteToken oldToken).setPhase request (.failed "refresh token expired")
  | .rotating token oldToken => (s.deleteToken oldToken).setPhase request (.rotated token oldToken)
  | .rotated token oldToken =>
    match s.users.find? (·.id = oldToken.userId) with
    | none => s.setPhase request (.failed "invalid token")
    | some user => s.setPhase request (.refreshUser token user)
  | .refreshUser token user => issueTokens C s request (some token) user
  | .saving parent newToken response =>
    { s with
      refreshTokens := s.refreshTokens ++ [newToken]
      phase := Function.update s.phase request (answered parent response)
      log := s.log ++ [savedEvent request parent newToken.userId response.refreshToken] }
  | .logout userId =>
    { s.deleteByUserId userId with
      phase := Function.update s.phase request .loggedOut
      log := s.log ++ [.loggedOut request userId] }
  | .idle | .loggedIn _ | .refreshed _ _ | .loggedOut | .failed _ => s

/-- a request begins once -/
def begin (s : St) (request : ℕ) (p : Phase) : St := if (s.phase request).isIdle then s.setPhase request p else s

def step (C : Crypto) (s : St) : Op → St
  | .login request email password => begin s request (.login email password)
  | .refresh request token => begin s request (.refresh token)
  | .logout request userId =>
    if (s.phase request).isIdle then
      { s.setPhase request (.logout userId) with log := s.log ++ [.logoutBegan request userId] }
    else s
  | .advance request => advance C s request
  | .tick nanos => { s with now := s.now + nanos }

/-! ## What a step can do -/

/-- the user is known, and a pair of tokens is about to be made for it -/
def issuing (parent : Option Token) (user : User) : Phase :=
  match parent with
  | none => .loginUser user
  | some token => .refreshUser token user

/-- the transitions of request `r`, each with the guard it passed -/
inductive Trans (C : Crypto) (s : St) (r : ℕ) : St → Prop where
  | failed (error : String) : Trans C s r (s.setPhase r (.failed error))
  | beganLogin (email password : String) : Trans C s r (s.setPhase r (.login email password))
  | beganRefresh (token : Token) : Trans C s r (s.setPhase r (.refresh token))
  | beganLogout (userId : Uuid) :
    Trans C s r { s.setPhase r (.logout userId) with log := s.log ++ [.logoutBegan r userId] }
  | loginUser (user : User) (hu : user ∈ s.users) : Trans C s r (s.setPhase r (.loginUser user))
  | found (token : Token) (old : RefreshToken) (h0 : s.phase r = .refresh token) (hold : old ∈ s.refreshTokens)
    (hhash : old.tokenHash = C.hashToken token) : Trans C s r (s.setPhase r (.found token old))
  | expired (token : Token) (old : RefreshToken) (h0 : s.phase r = .found token old) (he : old.expiresAt < s.now) :
    Trans C s r (s.setPhase r (.expired token old))
  | rotating (token : Token) (old : RefreshToken) (h0 : s.phase r = .found token old) (he : ¬ old.expiresAt < s.now) :
    Trans C s r (s.setPhase r (.rotating token old))
  | removed (token : Token) (old : RefreshToken) (h0 : s.phase r = .expired token old) :
    Trans C s r ((s.deleteToken old).setPhase r (.failed "refresh token expired"))
  | rotated (token : Token) (old : RefreshToken) (h0 : s.phase r = .rotating token old) :
    Trans C s r ((s.deleteToken old).setPhase r (.rotated token old))
  | refreshUser (token : Token) (old : RefreshToken) (user : User) (h0 : s.phase r = .rotated token old)
    (hm : user ∈ s.users) (hu : user.id = old.userId) : Trans C s r (s.setPhase r (.refreshUser token user))
  | issued (parent : Option Token) (user : User) (h0 : s.phase r = issuing parent user) :
    Trans C s r (issueTokens C s r parent user)
  | saved (parent : Option Token) (row : RefreshToken) (response : LoginResponse)
    (h0 : s.phase r = .saving parent row response) :
    Trans C s r { s with
      refreshTokens := s.refreshTokens ++ [row]
      phase := Function.update s.phase r (answered parent response)
      log := s.log ++ [savedEvent r parent row.userId response.refreshToken] }
  | loggedOut (userId : Uuid) (h0 : s.phase r = .logout userId) :
    Trans C s r { s.deleteByUserId userId with
      phase := Function.update s.phase r .loggedOut
      log := s.log ++ [.loggedOut r userId] }

theorem findByTokenHash_some {s : St} {h : String} {row : RefreshToken} (hf : s.findByTokenHash h = some row) :
    row ∈ s.refreshTokens ∧ row.tokenHash = h := by
  obtain ⟨hm, hp⟩ := find?_some_iff_mem hf
  exact ⟨hm, of_decide_eq_true hp⟩

/-- **Inversion of a step of a request.** -/
theorem advance_cases (C : Crypto) (s : St) (r : ℕ) :
    advance C s r = s ∨ ((s.phase r).final = false ∧ Trans C s r (advance C s r)) := by
  cases h : s.phase r with
  | idle | loggedIn | refreshed | loggedOut | failed => left; simp only [advance, h]
  | login email password =>
    refine Or.inr ⟨rfl, ?_⟩
    simp only [advance, h]
    split
    · exact .failed _
    · rename_i user hf
      split_ifs
      · exact .loginUser user (List.mem_of_find?_eq_some hf)
      · exact .failed _
  | loginUser user =>
    refine Or.inr ⟨rfl, ?_⟩
    simp only [advance, h]
    exact .issued none user h
  | refresh token =>
    refine Or.inr ⟨rfl, ?_⟩
    simp only [advance, h]
    split
    · exact .failed _
    · rename_i old hf
      obtain ⟨hm, hhash⟩ := findByTokenHash_some hf
      exact .found token old h hm hhash
  | found token old =>
    refine Or.inr ⟨rfl, ?_⟩
    simp only [advance, h]
    split_ifs with he
    · exact .expired token old h he
    · exact .rotating token old h he
  | expired token old =>
    refine Or.inr ⟨rfl, ?_⟩
    simp only [advance, h]
    exact .removed token old h
  | rotating token old =>
    refine Or.inr ⟨rfl, ?_⟩
    simp only [advance, h]
    exact .rotated token old h
  | rotated token old =>
    refine Or.inr ⟨rfl, ?_⟩
    simp only [advance, h]
    split
    · exact .failed _
    · rename_i user hf
      exact .refreshUser token old user h (List.mem_of_find?_eq_some hf) (by simpa using List.find?_some hf)
  | refreshUser token user =>
    refine Or.inr ⟨rfl, ?_⟩
    simp only [advance, h]
    exact .issued (some token) user h
  | saving parent row response =>
    refine Or.inr ⟨rfl, ?_⟩
    simp only [advance, h]
    exact .saved parent row response h
  | logout userId =>
    refine Or.inr ⟨rfl, ?_⟩
    simp only [advance, h]
    exact .loggedOut userId h

theorem isIdle_not_final {p : Phase} (h : p.isIdle = true) : p.final = false := by
  cases p <;> first | rfl | cases h

/-- **Inversion of a step.** Nothing happens, time passes, or one request that is not yet answered begins or moves. -/
theorem step_cases (C : Crypto) (s : St) (o : Op) :
    step C s o = s ∨ (∃ n, step C s o = { s with now := s.now + n }) ∨
      ∃ r, (o = .advance r ∨ (s.phase r).isIdle = true) ∧ (s.phase r).final = false ∧ Trans C s r (step C s o) := by
  cases o with
  | login r email password =>
    by_cases h : (s.phase r).isIdle = true
    · refine Or.inr (Or.inr ⟨r, Or.inr h, isIdle_not_final h, ?_⟩)
      simp only [step, begin, h, if_true]
      exact .beganLogin email password
    · exact Or.inl (if_neg h)
  | refresh r token =>
    by_cases h : (s.phase r).isIdle = true
    · refine Or.inr (Or.inr ⟨r, Or.inr h, isIdle_not_final h, ?_⟩)
      simp only [step, begin, h, if_true]
      exact .beganRefresh token
    · exact Or.inl (if_neg h)
  | logout r userId =>
    by_cases h : (s.phase r).isIdle = true
    · refine Or.inr (Or.inr ⟨r, Or.inr h, isIdle_not_final h, ?_⟩)
      simp only [step, h, if_true]
      exact .beganLogout userId
    · exact Or.inl (if_neg h)
  | advance r => exact (advance_cases C s r).imp id fun h => Or.inr ⟨r, Or.inl rfl, h⟩
  | tick n => exact Or.inr (Or.inl ⟨n, rfl⟩)

end Concordia.Auth
