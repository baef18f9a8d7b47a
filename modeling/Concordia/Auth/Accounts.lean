/-
Accounts: what a registration leaves in the user store and on Kafka, and what a login tells about the user store.

- `Stores`: a registration passes its checks and the row of the new user is saved.
- `registered_or_nothing_iff`: a registration is all or nothing exactly if the send succeeds once the row is saved. The row
  is committed before the send, and nobody takes it back.
- `same_answer_iff`: a login with the wrong password is answered as one with an unknown email exactly if it brings a
  password. `matches` throws for a null one, and an unknown email never comes to it.
-/
import Concordia.Auth.Endpoints
import Concordia.Servers.UuidText

namespace Concordia.Auth.Endpoints

open Concordia.Lib
open Concordia.Servers (Uuid)

/-! ## Registration -/

/-- what is saved for a registration -/
def registeredUser (s : St) (request : RegisterRequest) (passwordHash : String) : User :=
  ⟨s.drawn, request.username.getD "", request.email.getD "", passwordHash⟩

def registeredEvent (user : User) : UserRegisteredEvent := ⟨user.id, user.username, user.email⟩

/-- the checks pass and the user is saved -/
structure Stores (L : Library) (ok : RegisterCall → Bool) (s : St) (request : RegisterRequest) (passwordHash : String) :
    Prop where
  emailAnswered : ok .existsByEmail = true
  emailFree : s.existsByEmail request.email = false
  usernameAnswered : ok .existsByUsername = true
  usernameFree : s.existsByUsername request.username = false
  encoded : request.password.bind L.encode = some passwordHash
  saved : ok .save = true
  accepted : s.acceptsUser request.username request.email passwordHash = true

theorem encodePassword_some {L : Library} {password : Option String} {passwordHash : String} {s : St}
    (h : password.bind L.encode = some passwordHash) : encodePassword L password s = .ok passwordHash s := by
  simp only [encodePassword, h]
  rfl

theorem encodePassword_null {L : Library} {password : Option String} {s : St} (h : password.bind L.encode = none) :
    encodePassword L password s = .error .illegalArgument s := by
  simp only [encodePassword, h]
  rfl

/-- A registration that does not get so far leaves nothing. -/
theorem registerUser_refused {L : Library} {ok : RegisterCall → Bool} (send : Send) {s : St} {request : RegisterRequest}
    (h : ¬ ∃ passwordHash, Stores L ok s request passwordHash) :
    ∃ e, registerUser L ok send request s = .error e s := by
  unfold registerUser
  cases he : ok .existsByEmail with
  | false => exact ⟨_, bind_error query_fails⟩
  | true =>
    rw [bind_ok query_ok]
    cases hemail : s.existsByEmail request.email with
    | true => exact ⟨_, rfl⟩
    | false =>
      simp only [Bool.false_eq_true, if_false]
      cases hu : ok .existsByUsername with
      | false => exact ⟨_, bind_error query_fails⟩
      | true =>
        rw [bind_ok query_ok]
        cases hname : s.existsByUsername request.username with
        | true => exact ⟨_, rfl⟩
        | false =>
          simp only [Bool.false_eq_true, if_false]
          cases hpw : request.password.bind L.encode with
          | none => exact ⟨_, bind_error (encodePassword_null hpw)⟩
          | some passwordHash =>
            rw [bind_ok (encodePassword_some hpw)]
            have hsave : ¬ (ok .save && s.acceptsUser request.username request.email passwordHash) = true := by
              intro hsave
              obtain ⟨hsave, hacc⟩ := Bool.and_eq_true_iff.1 hsave
              exact h ⟨passwordHash, he, hemail, hu, hname, hpw, hsave, hacc⟩
            exact ⟨_, bind_error (if_neg hsave)⟩

/-- **After the save.** The user is stored, whatever becomes of the send. -/
theorem registerUser_stores {L : Library} {ok : RegisterCall → Bool} (send : Send) {s : St} {request : RegisterRequest}
    {passwordHash : String} (h : Stores L ok s request passwordHash) :
    ∃ s', s'.users = s.users ++ [registeredUser s request passwordHash] ∧
      (send = .throws → registerUser L ok send request s = .error .kafka s') ∧
      (send ≠ .throws → registerUser L ok send request s = .ok ⟨s.drawn, request.username.getD ""⟩ s') ∧
      (s'.userRegistered = s.userRegistered ++
        if send = .accepted then [registeredEvent (registeredUser s request passwordHash)] else []) ∧
      s'.refreshTokens = s.refreshTokens ∧ s'.drawn = s.drawn + 1 ∧ s'.now = s.now := by
  have hsave : (ok .save && s.acceptsUser request.username request.email passwordHash) = true := by
    rw [h.saved, h.accepted]; rfl
  unfold registerUser
  rw [h.emailAnswered, bind_ok query_ok, h.emailFree]
  simp only [Bool.false_eq_true, if_false]
  rw [h.usernameAnswered, bind_ok query_ok, h.usernameFree]
  simp only [Bool.false_eq_true, if_false]
  rw [bind_ok (encodePassword_some h.encoded), bind_ok (if_pos hsave)]
  cases send with
  | accepted => exact ⟨_, rfl, nofun, fun _ => rfl, rfl, rfl, rfl, rfl⟩
  | throws => exact ⟨_, rfl, fun _ => rfl, fun hne => absurd rfl hne, (List.append_nil _).symm, rfl, rfl, rfl⟩
  | failsLater => exact ⟨_, rfl, nofun, fun _ => rfl, (List.append_nil _).symm, rfl, rfl, rfl⟩

/-- all or nothing: the user is stored and announced, or the registration throws and no user is stored -/
def Atomic (L : Library) (ok : RegisterCall → Bool) (send : Send) (request : RegisterRequest) (s : St) : Prop :=
  match registerUser L ok send request s with
  | .ok response s' => ∃ user : User, s'.users = s.users ++ [user] ∧ response = ⟨user.id, user.username⟩ ∧
    some user.username = request.username ∧ some user.email = request.email ∧
    s'.userRegistered = s.userRegistered ++ [registeredEvent user]
  | .error _ s' => s'.users = s.users

/-! Texts of UUIDs, beyond 128 bits in a form of their own, and BCrypt and the JWT parser with readable results. -/

def uuidText (id : Uuid) : String :=
  if id < 2 ^ 128 then id.toString else String.ofList ('№' :: List.replicate id '1')

theorem uuidText_injective : Function.Injective uuidText := by
  intro a b h
  have hne : ∀ (x : Uuid) (n : ℕ), x.toString ≠ String.ofList ('№' :: List.replicate n '1') := by
    intro x n heq
    have hmem : '№' ∈ x.toString.toList := by rw [heq]; simp
    exact absurd (Servers.mem_toString hmem) (by decide)
  unfold uuidText at h
  split_ifs at h with ha hb hb
  · exact Servers.toString_inj ha hb h
  · exact absurd h (hne a b)
  · exact absurd h.symm (hne b a)
  · simpa using congrArg String.length h

def readable : Library where
  hashToken token := token
  hashToken_injective _ _ h := h
  uuidText := uuidText
  uuidText_injective := uuidText_injective
  encode password := if password.utf8ByteSize ≤ 72 then some ("$2a$12$" ++ password) else none
  passwordMatches password hash := hash = "$2a$12$" ++ password
  parseClaimsJws _ jwt := some jwt

def emptySt : St := ⟨[], [], 0, 0, [], [], List.nodup_nil, nofun⟩

def registerAlice : RegisterRequest := ⟨some "alice", some "alice@test.com", some "secret123"⟩

/-- **A registration is atomic** exactly if the send succeeds or the registration does not get to it. -/
theorem registered_or_nothing_iff (L : Library) (ok : RegisterCall → Bool) (send : Send) (request : RegisterRequest)
    (s : St) :
    Atomic L ok send request s ↔ ((∃ passwordHash, Stores L ok s request passwordHash) → send = .accepted) := by
  by_cases hstores : ∃ passwordHash, Stores L ok s request passwordHash
  · obtain ⟨passwordHash, h⟩ := hstores
    obtain ⟨s', husers, hthrows, hreturns, hsent, -⟩ := registerUser_stores send h
    refine ⟨?_, ?_⟩
    · rintro hat -
      unfold Atomic at hat
      cases send with
      | accepted => rfl
      | throws =>
        -- the user is stored and the client is told that it failed
        rw [hthrows rfl] at hat
        simp [husers] at hat
      | failsLater =>
        rw [hreturns nofun] at hat
        obtain ⟨user, -, -, -, -, hevent⟩ := hat
        simp [hsent] at hevent
    · intro hsend
      obtain rfl := hsend ⟨passwordHash, h⟩
      unfold Atomic
      rw [hreturns nofun]
      have hacc := h.accepted
      simp only [St.acceptsUser, Bool.and_eq_true] at hacc
      obtain ⟨username, hu⟩ := Option.isSome_iff_exists.1 (Option.isSome_of_any hacc.1.1.1.1)
      obtain ⟨email, he⟩ := Option.isSome_iff_exists.1 (Option.isSome_of_any hacc.1.1.1.2)
      exact ⟨_, husers, rfl, by simp [registeredUser, hu], by simp [registeredUser, he], hsent⟩
  · obtain ⟨e, hrun⟩ := registerUser_refused send hstores
    refine ⟨fun _ h => absurd h hstores, fun _ => ?_⟩
    unfold Atomic
    rw [hrun]

/-- alice is told that her registration failed, and then that her email is taken -/
theorem failed_but_registered :
    ¬ Atomic readable (fun _ => true) .throws registerAlice emptySt ∧
      ∃ s', registerUser readable (fun _ => true) .throws registerAlice emptySt = .error .kafka s' ∧
        postRegister readable (fun _ => true) .accepted registerAlice s' = ⟨409, .error "email already registered"⟩ := by
  refine ⟨?_, _, rfl, by decide⟩
  intro h
  have hnobody : [(⟨0, "alice", "alice@test.com", "$2a$12$secret123"⟩ : User)] = [] := h
  cases hnobody

/-! ## Login -/

theorem matchesPassword_some {L : Library} {password passwordHash : String} {s : St} :
    matchesPassword L (some password) passwordHash s = .ok (L.passwordMatches password passwordHash) s := rfl

theorem mapOf_some {email reason : String} {s : St} :
    mapOf [("email", some email), ("reason", some reason)] s = .ok [("email", email), ("reason", reason)] s := rfl

section Login

variable {L : Library} {ok : LoginCall → Bool} {request : LoginRequest} {s : St}

theorem postLogin_fails (h : ok .findByEmail = false) : postLogin L ok request s = ⟨500, .internalServerError⟩ := by
  unfold postLogin respond login
  rw [h, bind_error query_fails]
  rfl

theorem postLogin_unknown {email : String} (h : ok .findByEmail = true) (hemail : request.email = some email)
    (hnone : s.findByEmail request.email = none) :
    postLogin L ok request s = ⟨401, .error "invalid credentials"⟩ := by
  unfold postLogin respond login
  rw [h, bind_ok query_ok, hnone]
  simp only [hemail]
  rw [bind_ok mapOf_some]
  rfl

theorem postLogin_mismatch {email password : String} {user : User} (h : ok .findByEmail = true)
    (hemail : request.email = some email) (huser : s.findByEmail request.email = some user)
    (hpassword : request.password = some password) (hwrong : L.passwordMatches password user.passwordHash = false) :
    postLogin L ok request s = ⟨401, .error "invalid credentials"⟩ := by
  unfold postLogin respond login
  rw [h, bind_ok query_ok, huser]
  simp only [hpassword]
  rw [bind_ok matchesPassword_some, hwrong]
  simp only [Bool.false_eq_true, if_false, hemail]
  rw [bind_ok mapOf_some]
  rfl

theorem postLogin_null {user : User} (h : ok .findByEmail = true) (huser : s.findByEmail request.email = some user)
    (hpassword : request.password = none) : postLogin L ok request s = ⟨500, .internalServerError⟩ := by
  unfold postLogin respond login
  rw [h, bind_ok query_ok, huser]
  simp only [hpassword]
  rfl

end Login

/-- the same store with one more account -/
def St.withAccount (s : St) (before after : List User) (user : User) : St := { s with users := before ++ user :: after }

theorem findByEmail_withAccount {s : St} {before after : List User} {user : User} {email : Option String}
    (hs : s.users = before ++ after) (hnone : s.findByEmail email = none) (huser : some user.email = email) :
    (s.withAccount before after user).findByEmail email = some user := by
  simp only [St.findByEmail, hs, List.find?_append, Option.or_eq_none_iff] at hnone
  simp [St.findByEmail, St.withAccount, hnone.1, huser]

/-- **Whether an account exists does not show** in the answer to a wrong password exactly if a password is given. -/
theorem same_answer_iff (L : Library) (ok : LoginCall → Bool) (request : LoginRequest) (s : St) (before after : List User)
    (user : User) (hs : s.users = before ++ after) (hnone : s.findByEmail request.email = none)
    (huser : some user.email = request.email)
    (hwrong : ∀ password, request.password = some password → L.passwordMatches password user.passwordHash = false) :
    postLogin L ok request (s.withAccount before after user) = postLogin L ok request s ↔
      request.password.isSome = true ∨ ok .findByEmail = false := by
  have hfind := findByEmail_withAccount hs hnone huser
  cases hok : ok .findByEmail with
  | false => simp [postLogin_fails hok]
  | true =>
    rw [postLogin_unknown hok huser.symm hnone]
    cases hpassword : request.password with
    | none => simp [postLogin_null hok hfind hpassword]
    | some password => simp [postLogin_mismatch hok huser.symm hfind hpassword (hwrong password hpassword)]

def alice : User := ⟨0, "alice", "alice@test.com", "$2a$12$secret123"⟩

theorem same_answer_guess :
    postLogin readable (fun _ => true) ⟨some "alice@test.com", some "guess"⟩ (emptySt.withAccount [] [] alice) =
      postLogin readable (fun _ => true) ⟨some "alice@test.com", some "guess"⟩ emptySt :=
  (same_answer_iff readable (fun _ => true) ⟨some "alice@test.com", some "guess"⟩ emptySt [] [] alice rfl rfl rfl
    (by decide)).2 (Or.inl rfl)

/-- a login without a password is answered 500 if the account exists and 401 if it does not -/
theorem null_password_tells :
    ¬ ∀ (request : LoginRequest) (s : St) (before after : List User) (user : User), s.users = before ++ after →
      s.findByEmail request.email = none → some user.email = request.email →
      (∀ password, request.password = some password → readable.passwordMatches password user.passwordHash = false) →
      postLogin readable (fun _ => true) request (s.withAccount before after user) =
        postLogin readable (fun _ => true) request s := by
  intro h
  exact absurd (h ⟨some "alice@test.com", none⟩ emptySt [] [] alice rfl rfl rfl nofun) (by decide)

end Concordia.Auth.Endpoints
