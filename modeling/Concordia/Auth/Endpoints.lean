/-
The auth service (`AuthService.java`, `AuthController.java`) one request after another, with everything a request can run
into: absent fields, failing repository calls, a failing send to Kafka.

- A method is a program that throws (`Svc`): what it has stored before it throws stays stored, since no method but `logout`
  opens a transaction and each repository call commits on its own. A failing call stores nothing.
- Each repository call of a method has a name (`RegisterCall`, ..); `ok` says which of them go through. One with a NUL in a
  text does not.
- `St` carries the primary key of `refresh_tokens`, and that every row's id was drawn.
- `Library` is what the service calls: SHA-256, taken as injective, BCrypt, the JWT parser, the text of a UUID.
- `UUID.randomUUID()` draws the next unused number. The JWT of an answer is its claims. `created_at` is in
  `Concordia.Auth.Profile`.
-/
import Concordia.Auth.Service
import Concordia.Servers.CheckPerm

namespace Concordia.Auth.Endpoints

open Concordia.Lib
open Concordia.Servers (Uuid)

/-! ## Data -/

structure Library where
  hashToken : String → String
  hashToken_injective : Function.Injective hashToken
  uuidText : Uuid → String
  uuidText_injective : Function.Injective uuidText
  /-- `passwordEncoder.encode`; nothing where it throws IllegalArgumentException -/
  encode : String → Option String
  /-- `passwordEncoder.matches` -/
  passwordMatches : String → String → Bool
  /-- the subject of a JWT, where it verifies at that time -/
  parseClaimsJws : ℕ → String → Option String

structure RegisterRequest where
  username : Option String
  email : Option String
  password : Option String
deriving DecidableEq, Repr

structure LoginRequest where
  email : Option String
  password : Option String
deriving DecidableEq, Repr

structure RegisterResponse where
  userId : Uuid
  username : String
deriving DecidableEq, Repr

structure LoginResponse where
  accessToken : AccessToken
  refreshToken : String
  expiresIn : ℕ
deriving DecidableEq, Repr

structure UserRegisteredEvent where
  userId : Uuid
  username : String
  email : String
deriving DecidableEq, Repr

/-- what is handed to `AuditEmitter.emit` -/
structure AuditEvent where
  eventType : String
  actor : List (String × String)
  /-- empty where it is null -/
  resource : List (String × String)
  outcome : String
  metadata : List (String × String)
deriving DecidableEq, Repr

structure St where
  users : List User
  refreshTokens : List RefreshToken
  /-- in nanoseconds -/
  now : ℕ
  /-- how many UUIDs have been drawn -/
  drawn : ℕ
  /-- what Kafka has accepted on `user-registered` -/
  userRegistered : List UserRegisteredEvent
  audit : List AuditEvent
  refreshTokensPk : (refreshTokens.map RefreshToken.id).Nodup
  refreshTokensDrawn : ∀ row ∈ refreshTokens, row.id < drawn

inductive Thrown where
  | duplicateResource (message : String)
  | invalidCredentials (message : String)
  | invalidToken (message : String)
  | nullPointer
  | illegalArgument
  /-- a repository call fails -/
  | dataAccess
  /-- the send fails at once -/
  | kafka
deriving DecidableEq, Repr

abbrev Svc := EStateM Thrown St

/-! ## Tables -/

namespace St

/-- `findByEmail`; nobody has the email null -/
def findByEmail (s : St) (email : Option String) : Option User := s.users.find? fun u => some u.email = email

def existsByEmail (s : St) (email : Option String) : Bool := (s.findByEmail email).isSome

def existsByUsername (s : St) (username : Option String) : Bool := s.users.any fun u => some u.username = username

/-- `userRepository.findById` -/
def findById (s : St) (id : Uuid) : Option User := s.users.find? fun u => u.id = id

def findByTokenHash (s : St) (tokenHash : String) : Option RefreshToken :=
  s.refreshTokens.find? fun row => row.tokenHash = tokenHash

/-- `refreshTokenRepository.delete` -/
def delete (s : St) (oldToken : RefreshToken) : St := { s with
  refreshTokens := s.refreshTokens.filter (·.id ≠ oldToken.id)
  refreshTokensPk := s.refreshTokensPk.sublist (List.filter_sublist.map _)
  refreshTokensDrawn := fun row hrow => s.refreshTokensDrawn row (List.mem_filter.1 hrow).1 }

/-- `refreshTokenRepository.deleteByUserId` -/
def deleteByUserId (s : St) (userId : Uuid) : St := { s with
  refreshTokens := s.refreshTokens.filter (·.userId ≠ userId)
  refreshTokensPk := s.refreshTokensPk.sublist (List.filter_sublist.map _)
  refreshTokensDrawn := fun row hrow => s.refreshTokensDrawn row (List.mem_filter.1 hrow).1 }

/-- the row that is saved for a user: its id is the second UUID drawn, the first is the token itself -/
def newRefreshToken (s : St) (userId : Uuid) (tokenHash : String) : RefreshToken :=
  ⟨s.drawn + 1, userId, tokenHash, s.now + refreshTtl⟩

theorem newRefreshToken_fresh (s : St) (userId : Uuid) (tokenHash : String) :
    (s.newRefreshToken userId tokenHash).id ∉ s.refreshTokens.map RefreshToken.id := by
  intro hmem
  obtain ⟨row, hrow, hid⟩ := List.mem_map.1 hmem
  have hlt : row.id < s.drawn + 1 := Nat.lt_succ_of_lt (s.refreshTokensDrawn row hrow)
  exact absurd hid (Nat.ne_of_lt hlt)

/-- `refreshTokenRepository.save` of a new row -/
def saveRefreshToken (s : St) (userId : Uuid) (tokenHash : String) : St := { s with
  refreshTokens := s.refreshTokens ++ [s.newRefreshToken userId tokenHash]
  drawn := s.drawn + 2
  refreshTokensPk := nodup_keys_snoc s.refreshTokensPk (s.newRefreshToken_fresh userId tokenHash)
  refreshTokensDrawn := fun row hrow => (mem_snoc.1 hrow).elim
    (fun hold => Nat.lt_add_right 2 (s.refreshTokensDrawn row hold)) fun hnew => hnew ▸ Nat.lt_succ_self _ }

/-- NOT NULL, VARCHAR(255) and UNIQUE of the table `users` -/
def acceptsUser (s : St) (username email : Option String) (passwordHash : String) : Bool :=
  username.any (Servers.varchar255 ·) && email.any (Servers.varchar255 ·) && Servers.varchar255 passwordHash &&
    !s.existsByUsername username && !s.existsByEmail email

/-- `userRepository.save` of a new row -/
def saveUser (s : St) (user : User) : St := { s with
  users := s.users ++ [user]
  drawn := s.drawn + 1
  refreshTokensDrawn := fun row hrow => Nat.lt_succ_of_lt (s.refreshTokensDrawn row hrow) }

end St

/-! ## Programs -/

/-- a repository call that reads -/
def query {α : Type} (ok : Bool) (f : St → α) : Svc α := fun s => if ok then .ok (f s) s else .error .dataAccess s

/-- a repository call that writes, and commits -/
def update (ok : Bool) (f : St → St) : Svc Unit := fun s => if ok then .ok () (f s) else .error .dataAccess s

/-! The run of a sequence, by what its first program did. -/

theorem bind_ok {α β : Type} {x : Svc α} {f : α → Svc β} {s s' : St} {a : α} (h : x s = .ok a s') :
    (x >>= f) s = f a s' := by
  simp only [bind, EStateM.bind, h]

theorem bind_error {α β : Type} {x : Svc α} {f : α → Svc β} {s s' : St} {e : Thrown} (h : x s = .error e s') :
    (x >>= f) s = .error e s' := by
  simp only [bind, EStateM.bind, h]

theorem query_ok {α : Type} {f : St → α} {s : St} : query true f s = .ok (f s) s := rfl

theorem query_fails {α : Type} {f : St → α} {s : St} : query false f s = .error .dataAccess s := rfl

theorem update_ok {f : St → St} {s : St} : update true f s = .ok () (f s) := rfl

/-- `Map.of` throws NullPointerException for a null value -/
def mapOf (entries : List (String × Option String)) : Svc (List (String × String)) :=
  match entries.mapM fun entry => entry.2.map fun value => (entry.1, value) with
  | some entries => pure entries
  | none => throw .nullPointer

/-- `auditEmitter.emit` never throws -/
def emit (event : AuditEvent) : Svc Unit := modify fun s => { s with audit := s.audit ++ [event] }

/-- an access token and a refresh token for a user, the latter's row saved -/
def issueTokens (L : Library) (ok : Bool) (user : User) : Svc LoginResponse := do
  let s ← get
  let rawRefreshToken := L.uuidText s.drawn
  let seconds := s.now / 10 ^ 9
  update ok (·.saveRefreshToken user.id (L.hashToken rawRefreshToken))
  return ⟨⟨user.id, user.username, seconds, seconds + expiresIn⟩, rawRefreshToken, expiresIn⟩

/-- what becomes of a record handed to `kafkaTemplate.send` -/
inductive Send where
  | accepted
  /-- `send` throws -/
  | throws
  /-- the returned future fails; nobody looks at it -/
  | failsLater
deriving DecidableEq, Repr

def sendUserRegistered (send : Send) (event : UserRegisteredEvent) : Svc Unit :=
  match send with
  | .accepted => modify fun s => { s with userRegistered := s.userRegistered ++ [event] }
  | .throws => throw .kafka
  | .failsLater => pure ()

inductive RegisterCall where
  | existsByEmail
  | existsByUsername
  | save
deriving DecidableEq, Repr

/-- `passwordEncoder.encode` throws IllegalArgumentException for null -/
def encodePassword (L : Library) (password : Option String) : Svc String :=
  match password.bind L.encode with
  | some passwordHash => pure passwordHash
  | none => throw .illegalArgument

/-- `userRepository.save`, by the columns' constraints -/
def saveUser (ok : Bool) (username email : Option String) (passwordHash : String) : Svc User := fun s =>
  if ok && s.acceptsUser username email passwordHash then
    .ok ⟨s.drawn, username.getD "", email.getD "", passwordHash⟩
      (s.saveUser ⟨s.drawn, username.getD "", email.getD "", passwordHash⟩)
  else .error .dataAccess s

/-- `AuthService.registerUser` -/
def registerUser (L : Library) (ok : RegisterCall → Bool) (send : Send) (request : RegisterRequest) :
    Svc RegisterResponse := do
  if ← query (ok .existsByEmail) (·.existsByEmail request.email) then
    throw (.duplicateResource "email already registered")
  if ← query (ok .existsByUsername) (·.existsByUsername request.username) then
    throw (.duplicateResource "username already taken")
  let passwordHash ← encodePassword L request.password
  let user ← saveUser (ok .save) request.username request.email passwordHash
  sendUserRegistered send ⟨user.id, user.username, user.email⟩
  emit ⟨"auth.register", [("user_id", L.uuidText user.id)], [("type", "user"), ("id", L.uuidText user.id)], "success",
    [("username", user.username)]⟩
  return ⟨user.id, user.username⟩

inductive LoginCall where
  | findByEmail
  | save
deriving DecidableEq, Repr

/-- `passwordEncoder.matches` throws IllegalArgumentException for a null password -/
def matchesPassword (L : Library) (password : Option String) (passwordHash : String) : Svc Bool :=
  match password with
  | some password => pure (L.passwordMatches password passwordHash)
  | none => throw .illegalArgument

/-- `AuthService.login` -/
def login (L : Library) (ok : LoginCall → Bool) (request : LoginRequest) : Svc LoginResponse := do
  match ← query (ok .findByEmail) (·.findByEmail request.email) with
  | none =>
    let metadata ← mapOf [("email", request.email), ("reason", some "user not found")]
    emit ⟨"auth.login.failure", [], [], "failure", metadata⟩
    throw (.invalidCredentials "invalid credentials")
  | some user =>
    if ← matchesPassword L request.password user.passwordHash then
      let response ← issueTokens L (ok .save) user
      emit ⟨"auth.login.success", [("user_id", L.uuidText user.id)], [], "success", []⟩
      return response
    else
      let metadata ← mapOf [("email", request.email), ("reason", some "bad password")]
      emit ⟨"auth.login.failure", [("user_id", L.uuidText user.id)], [], "failure", metadata⟩
      throw (.invalidCredentials "invalid credentials")

inductive RefreshCall where
  | findByTokenHash
  | delete
  | findById
  | save
deriving DecidableEq, Repr

/-- `hashToken` throws NullPointerException for null -/
def hashOf (L : Library) (token : Option String) : Svc String :=
  match token with
  | some token => pure (L.hashToken token)
  | none => throw .nullPointer

/-- `AuthService.refresh` -/
def refresh (L : Library) (ok : RefreshCall → Bool) (token : Option String) : Svc LoginResponse := do
  let tokenHash ← hashOf L token
  match ← query (ok .findByTokenHash) (·.findByTokenHash tokenHash) with
  | none => throw (.invalidToken "invalid token")
  | some oldToken =>
    if ← query true fun s => decide (oldToken.expiresAt < s.now) then
      update (ok .delete) (·.delete oldToken)
      throw (.invalidToken "refresh token expired")
    else
      -- one-time use: the row goes first
      update (ok .delete) (·.delete oldToken)
      match ← query (ok .findById) (·.findById oldToken.userId) with
      | none => throw (.invalidToken "invalid token")
      | some user =>
        let response ← issueTokens L (ok .save) user
        emit ⟨"auth.token.refresh", [("user_id", L.uuidText user.id)], [], "success", []⟩
        return response

/-- `AuthService.extractUserId` -/
def extractUserId (L : Library) (authHeader : Option String) : Svc Uuid := do
  match authHeader with
  | none => throw (.invalidToken "unauthorized")
  | some authHeader =>
    if "Bearer ".toList.isPrefixOf authHeader.toList then
      match ← query true fun s => L.parseClaimsJws s.now (String.ofList (authHeader.toList.drop 7)) with
      | none => throw (.invalidToken "invalid token")
      | some subject =>
        match Uuid.fromString subject with
        | .ok userId => return userId
        | .error _ => throw (.invalidToken "invalid token")
    else throw (.invalidToken "unauthorized")

/-- `AuthService.logout` -/
def logout (L : Library) (ok : Bool) (authHeader : Option String) : Svc Unit := do
  let userId ← extractUserId L authHeader
  update ok (·.deleteByUserId userId)
  emit ⟨"auth.logout", [("user_id", L.uuidText userId)], [], "success", []⟩

/-! ## Controller -/

inductive Body (α : Type) where
  | of (response : α)
  | error (message : String)
  /-- what is sent for an exception that nobody handles -/
  | internalServerError
deriving DecidableEq, Repr

structure HttpResponse (α : Type) where
  status : ℕ
  body : Body α
deriving DecidableEq, Repr

/-- the `@ExceptionHandler`s of `AuthController` -/
def Thrown.response {α : Type} : Thrown → HttpResponse α
  | .duplicateResource message => ⟨409, .error message⟩
  | .invalidCredentials message => ⟨401, .error message⟩
  | .invalidToken message => ⟨401, .error message⟩
  | _ => ⟨500, .internalServerError⟩

/-- a handler of `AuthController` that answers a status where the service returns -/
def respond {α : Type} (status : ℕ) (x : Svc α) (s : St) : HttpResponse α :=
  match x s with
  | .ok response _ => ⟨status, .of response⟩
  | .error e _ => e.response

def postRegister (L : Library) (ok : RegisterCall → Bool) (send : Send) (request : RegisterRequest) (s : St) :
    HttpResponse RegisterResponse :=
  respond 201 (registerUser L ok send request) s

def postLogin (L : Library) (ok : LoginCall → Bool) (request : LoginRequest) (s : St) : HttpResponse LoginResponse :=
  respond 200 (login L ok request) s

def postRefresh (L : Library) (ok : RefreshCall → Bool) (token : Option String) (s : St) : HttpResponse LoginResponse :=
  respond 200 (refresh L ok token) s

end Concordia.Auth.Endpoints
