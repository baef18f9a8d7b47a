/-
`GET /auth/me` (`AuthService.getMe`, `AuthController.getMe`) over a whole history of requests.

- `Accounts` adds the column `created_at` of the table `users`, which this endpoint alone reads: `registerUser` sets it to
  the current time, and the column holds microseconds.
- The text of a JWT and its parser are the library's. `Verifies`: a text is accepted as an access token up to the second
  in its `exp`.
- `Registered`: an account as one registration of the run has made it.
- `profile_law`: nothing but registered accounts is shown, whatever the header; and an access token that a login or a
  refresh has handed out shows its own account for 900 seconds, whatever logouts and exchanges come in between, and is
  refused from then on.
-/
import Concordia.Auth.History

namespace Concordia.Auth.Endpoints

open Concordia.Lib
open Concordia.Servers (Uuid)

/-! ## The endpoint -/

structure UserProfileResponse where
  userId : Uuid
  username : String
  email : String
  createdAt : Option ℕ
deriving DecidableEq, Repr

/-- `AuthService.getMe`; `createdAt` is the column of that name -/
def getMe (L : Library) (ok : Bool) (createdAt : Uuid → Option ℕ) (authHeader : Option String) :
    Svc UserProfileResponse := do
  let userId ← extractUserId L authHeader
  match ← query ok (·.findById userId) with
  | none => throw (.invalidToken "invalid token")
  | some user => return ⟨user.id, user.username, user.email, createdAt user.id⟩

/-- `AuthController.getMe` -/
def getMeResponse (L : Library) (ok : Bool) (createdAt : Uuid → Option ℕ) (authHeader : Option String) (s : St) :
    HttpResponse UserProfileResponse :=
  respond 200 (getMe L ok createdAt authHeader) s

/-! ## Runs -/

structure Accounts where
  sys : Sys
  /-- the column `created_at` of `users` -/
  createdAt : Uuid → Option ℕ

/-- a time in nanoseconds as a column TIMESTAMP WITH TIME ZONE holds it -/
def timestamptz (nanos : ℕ) : ℕ := (nanos + 500) / 1000 * 1000

/-- a row that was not there before has the time of the request -/
def Accounts.step (L : Library) (z : Accounts) (q : Request) : Accounts :=
  let y := Endpoints.step L z.sys q
  ⟨y, fun id =>
    if z.sys.st.findById id = none ∧ y.st.findById id ≠ none then some (timestamptz z.sys.st.now) else z.createdAt id⟩

/-- a service without users -/
def Accounts.init : Accounts := ⟨start [] 0 0, fun _ => none⟩

abbrev reachedAccounts (L : Library) (requests : List Request) : Accounts := run (Accounts.step L) Accounts.init requests

/-- `GET /auth/me`, asked now -/
def Accounts.getMe (L : Library) (z : Accounts) (ok : Bool) (authHeader : Option String) :
    HttpResponse UserProfileResponse :=
  getMeResponse L ok z.createdAt authHeader z.sys.st

/-- what a login or a refresh signs for a user -/
def accessToken (user : User) (now : ℕ) : AccessToken :=
  ⟨user.id, user.username, now / 10 ^ 9, now / 10 ^ 9 + expiresIn⟩

/-- the answer hands out the access token -/
def Answer.Hands (x : Answer) (token : AccessToken) (time : ℕ) : Prop :=
  match x with
  | .loggedIn response time' => response.accessToken = token ∧ time' = time
  | .refreshed _ response time' => response.accessToken = token ∧ time' = time
  | .loggedOut _ => False

/-- the text is accepted as the token, up to the second in its `exp`; the parser compares milliseconds -/
def Verifies (L : Library) (jwt : String) (token : AccessToken) : Prop :=
  ∀ now, L.parseClaimsJws now jwt = if now / 10 ^ 6 ≤ token.exp * 1000 then some token.subject.toString else none

/-- the account as a registration of the run has made it, at the time and under the id that it had drawn then -/
def Registered (L : Library) (requests : List Request) (account : UserProfileResponse) : Prop :=
  ∃ before send request after, requests = before ++ .register send request :: after ∧
    request.username = some account.username ∧ request.email = some account.email ∧
    account.userId = (reachedAccounts L before).sys.st.drawn ∧
    account.createdAt = some (timestamptz (reachedAccounts L before).sys.st.now)

/-! ## What keeps the accounts -/

/-- the program leaves the users alone, and takes no drawn UUID back -/
def Keeps {α : Type} (x : Svc α) : Prop := ∀ s : St, (s.after x).users = s.users ∧ s.drawn ≤ (s.after x).drawn

theorem Keeps.bind {α β : Type} {x : Svc α} {f : α → Svc β} (hx : Keeps x) (hf : ∀ a, Keeps (f a)) : Keeps (x >>= f) := by
  intro s
  have hfirst := hx s
  unfold St.after at hfirst ⊢
  cases h : x s with
  | error e s' =>
    rw [h] at hfirst
    rw [bind_error h]
    exact hfirst
  | ok a s' =>
    rw [h] at hfirst
    rw [bind_ok h]
    obtain ⟨husers, hdrawn⟩ := hf a s'
    exact ⟨husers.trans hfirst.1, hfirst.2.trans hdrawn⟩

theorem keeps_pure {α : Type} (a : α) : Keeps (pure a : Svc α) := fun _ => ⟨rfl, le_rfl⟩

theorem keeps_throw {α : Type} (e : Thrown) : Keeps (throw e : Svc α) := fun _ => ⟨rfl, le_rfl⟩

theorem keeps_query {α : Type} (ok : Bool) (f : St → α) : Keeps (query ok f) := by
  intro s
  cases ok <;> exact ⟨rfl, le_rfl⟩

theorem keeps_update (ok : Bool) (f : St → St) (hf : ∀ s, (f s).users = s.users ∧ s.drawn ≤ (f s).drawn) :
    Keeps (update ok f) := by
  intro s
  cases ok with
  | true => exact hf s
  | false => exact ⟨rfl, le_rfl⟩

theorem keeps_emit (event : AuditEvent) : Keeps (emit event) := fun _ => ⟨rfl, le_rfl⟩

theorem keeps_mapOf (entries : List (String × Option String)) : Keeps (mapOf entries) := by
  unfold mapOf
  split
  · exact keeps_pure _
  · exact keeps_throw _

theorem keeps_issueTokens (L : Library) (ok : Bool) (user : User) : Keeps (issueTokens L ok user) := by
  unfold issueTokens
  refine Keeps.bind (fun _ => ⟨rfl, le_rfl⟩) fun s => Keeps.bind (keeps_update ok _ ?_) fun _ => keeps_pure _
  exact fun s' => ⟨rfl, Nat.le_add_right _ _⟩

theorem keeps_login (L : Library) (ok : LoginCall → Bool) (request : LoginRequest) : Keeps (login L ok request) := by
  unfold login
  refine Keeps.bind (keeps_query _ _) fun found => ?_
  cases found with
  | none => exact (keeps_mapOf _).bind fun _ => (keeps_emit _).bind fun _ => keeps_throw _
  | some user =>
    refine Keeps.bind ?_ fun matched => ?_
    · unfold matchesPassword
      cases request.password with
      | some password => exact keeps_pure _
      | none => exact keeps_throw _
    · cases matched with
      | true => exact (keeps_issueTokens L _ user).bind fun _ => (keeps_emit _).bind fun _ => keeps_pure _
      | false => exact (keeps_mapOf _).bind fun _ => (keeps_emit _).bind fun _ => keeps_throw _

theorem keeps_refresh (L : Library) (ok : RefreshCall → Bool) (token : Option String) : Keeps (refresh L ok token) := by
  have hdelete : ∀ old : RefreshToken, Keeps (update (ok .delete) (·.delete old)) := fun old =>
    keeps_update _ _ fun _ => ⟨rfl, le_rfl⟩
  unfold refresh
  refine Keeps.bind ?_ fun tokenHash => Keeps.bind (keeps_query _ _) fun found => ?_
  · unfold hashOf
    cases token with
    | some token => exact keeps_pure _
    | none => exact keeps_throw _
  · cases found with
    | none => exact keeps_throw _
    | some old =>
      refine Keeps.bind (keeps_query _ _) fun expired => ?_
      cases expired with
      | true => exact (hdelete old).bind fun _ => keeps_throw _
      | false =>
        refine (hdelete old).bind fun _ => Keeps.bind (keeps_query _ _) fun user => ?_
        cases user with
        | none => exact keeps_throw _
        | some user => exact (keeps_issueTokens L _ user).bind fun _ => (keeps_emit _).bind fun _ => keeps_pure _

theorem keeps_logout (L : Library) (ok : Bool) (authHeader : Option String) : Keeps (logout L ok authHeader) := by
  unfold logout
  refine Keeps.bind ?_ fun userId => Keeps.bind (keeps_update ok _ ?_) fun _ => keeps_emit _
  swap
  · exact fun _ => ⟨rfl, le_rfl⟩
  intro s
  have hkeeps := extractUserId_keeps L authHeader s
  unfold St.after
  cases h : extractUserId L authHeader s with
  | ok userId s' =>
    rw [h] at hkeeps
    rw [hkeeps]
    exact ⟨rfl, le_rfl⟩
  | error e s' =>
    rw [h] at hkeeps
    rw [hkeeps]
    exact ⟨rfl, le_rfl⟩

/-- **registerUser** adds the row of one user under a new id, or nothing. -/
theorem registerUser_cases (L : Library) (send : Send) (request : RegisterRequest) (s : St) :
    s.after (registerUser L up send request) = s ∨
      ∃ user, user.id = s.drawn ∧ request.username = some user.username ∧ request.email = some user.email ∧
        (s.after (registerUser L up send request)).users = s.users ++ [user] ∧
        (s.after (registerUser L up send request)).drawn = s.drawn + 1 := by
  by_cases hstores : ∃ passwordHash, Stores L up s request passwordHash
  swap
  · obtain ⟨e, hrun⟩ := registerUser_refused send hstores
    left
    unfold St.after
    rw [hrun]
  obtain ⟨passwordHash, h⟩ := hstores
  obtain ⟨s', husers, hthrows, hreturns, -, -, hdrawn, -⟩ := registerUser_stores send h
  have hafter : s.after (registerUser L up send request) = s' := by
    unfold St.after
    by_cases hsend : send = .throws
    · rw [hthrows hsend]
    · rw [hreturns hsend]
  have hacc := h.accepted
  simp only [St.acceptsUser, Bool.and_eq_true] at hacc
  obtain ⟨username, hu⟩ := Option.isSome_iff_exists.1 (Option.isSome_of_any hacc.1.1.1.1)
  obtain ⟨email, he⟩ := Option.isSome_iff_exists.1 (Option.isSome_of_any hacc.1.1.1.2)
  rw [hafter]
  exact .inr ⟨_, rfl, by simp [registeredUser, hu], by simp [registeredUser, he], husers, hdrawn⟩

/-- what a request does to the accounts -/
theorem step_users (L : Library) (y : Sys) (q : Request) :
    ((step L y q).st.users = y.st.users ∧ y.st.drawn ≤ (step L y q).st.drawn) ∨
      ∃ send request user, q = .register send request ∧ user.id = y.st.drawn ∧ request.username = some user.username ∧
        request.email = some user.email ∧ (step L y q).st.users = y.st.users ++ [user] ∧
        (step L y q).st.drawn = y.st.drawn + 1 := by
  cases q with
  | register send request =>
    rcases registerUser_cases L send request y.st with h | ⟨user, hid, hname, hemail, husers, hdrawn⟩
    · exact .inl ⟨congrArg St.users h, (congrArg St.drawn h).ge⟩
    · exact .inr ⟨send, request, user, rfl, hid, hname, hemail, husers, hdrawn⟩
  | login request =>
    have hkeeps := keeps_login L up request y.st
    unfold St.after at hkeeps
    left
    simp only [step]
    cases h : login L up request y.st with
    | _ => rwa [h] at hkeeps
  | refresh token =>
    have hkeeps := keeps_refresh L up token y.st
    unfold St.after at hkeeps
    left
    simp only [step]
    cases h : refresh L up token y.st with
    | _ => rwa [h] at hkeeps
  | logout authHeader => exact .inl (keeps_logout L true authHeader y.st)
  | tick elapsed => exact .inl ⟨rfl, le_rfl⟩

/-! ## Access tokens -/

/-- a program that ends by throwing -/
theorem throws_after {α β γ : Type} {x : Svc α} {y : α → Svc β} {e : Thrown} {s s' : St} {c : γ} :
    (x >>= fun a => y a >>= fun _ => (throw e : Svc γ)) s ≠ .ok c s' := by
  intro h
  cases hx : x s with
  | error e' t =>
    rw [bind_error hx] at h
    cases h
  | ok a t =>
    rw [bind_ok hx] at h
    cases hy : y a t with
    | error e' t' =>
      rw [bind_error hy] at h
      cases h
    | ok b t' =>
      rw [bind_ok hy] at h
      cases h

theorem login_token {L : Library} {request : LoginRequest} {s s' : St} {response : LoginResponse}
    (h : login L up request s = .ok response s') :
    ∃ user ∈ s.users, accessToken user s.now = response.accessToken := by
  unfold login at h
  rw [show up LoginCall.findByEmail = true from rfl, bind_ok query_ok] at h
  cases hfind : s.findByEmail request.email with
  | none =>
    rw [hfind] at h
    exact absurd h throws_after
  | some user =>
    rw [hfind] at h
    cases hpassword : request.password with
    | none =>
      simp only [hpassword] at h
      cases h
    | some password =>
      simp only [hpassword] at h
      rw [bind_ok matchesPassword_some] at h
      cases hmatches : L.passwordMatches password user.passwordHash with
      | true =>
        rw [hmatches] at h
        cases h
        exact ⟨user, (find?_some_iff_mem hfind).1, rfl⟩
      | false =>
        rw [hmatches] at h
        exact absurd h throws_after

theorem refresh_answers {L : Library} {token : Option String} {s : St} {old : RefreshToken} {user : User}
    (h : Presents L up token s old) (hexp : ¬ old.expiresAt < s.now) (hcomp : Completes up s old user) :
    refresh L up token s = .ok ⟨accessToken user s.now, L.uuidText s.drawn, expiresIn⟩
      (issued L (s.delete old) user "auth.token.refresh") := by
  obtain ⟨tokenHash, h1, h2⟩ := refresh_found h
  have huser : (s.delete old).findById old.userId = some user := hcomp.found
  unfold refresh
  rw [bind_ok h1, bind_ok h2]
  simp only
  rw [bind_ok query_ok, decide_eq_false hexp, if_neg Bool.false_ne_true, show up RefreshCall.delete = true from rfl,
    bind_ok update_ok, hcomp.answered, bind_ok query_ok, huser, hcomp.saved]
  rfl

theorem refresh_token {L : Library} {token : Option String} {s s' : St} {response : LoginResponse}
    (h : refresh L up token s = .ok response s') :
    ∃ user ∈ s.users, accessToken user s.now = response.accessToken := by
  by_cases hpres : ∃ old, Presents L up token s old
  swap
  · obtain ⟨e, hrun⟩ := refresh_unknown hpres
    cases hrun.symm.trans h
  obtain ⟨old, hp⟩ := hpres
  by_cases hexp : old.expiresAt < s.now
  · cases (refresh_expired hp hexp rfl).symm.trans h
  by_cases hcomp : ∃ user, Completes up s old user
  swap
  · obtain ⟨e, hrun⟩ := refresh_lost hp hexp rfl hcomp
    cases hrun.symm.trans h
  obtain ⟨user, hc⟩ := hcomp
  cases (refresh_answers hp hexp hc).symm.trans h
  exact ⟨user, (find?_some_iff_mem hc.found).1, rfl⟩

/-- an access token is handed out for the account that is its subject, at that moment -/
theorem step_hands {L : Library} {y : Sys} {q : Request} {x : Answer} {token : AccessToken} {time : ℕ}
    (hx : x ∈ (step L y q).log) (hands : x.Hands token time) :
    x ∈ y.log ∨ ∃ user ∈ y.st.users, accessToken user time = token := by
  cases q with
  | register send request => exact .inl hx
  | login request =>
    simp only [step] at hx
    cases h : login L up request y.st with
    | error e s' =>
      rw [h] at hx
      exact .inl hx
    | ok response s' =>
      rw [h] at hx
      rcases mem_snoc.1 hx with hx | rfl
      · exact .inl hx
      · obtain ⟨rfl, rfl⟩ := hands
        exact .inr (login_token h)
  | refresh presented =>
    simp only [step] at hx
    cases h : refresh L up presented y.st with
    | error e s' =>
      rw [h] at hx
      exact .inl hx
    | ok response s' =>
      rw [h] at hx
      rcases mem_snoc.1 hx with hx | rfl
      · exact .inl hx
      · obtain ⟨rfl, rfl⟩ := hands
        exact .inr (refresh_token h)
  | logout authHeader =>
    rcases List.mem_append.1 hx with hx | hx
    · exact .inl hx
    · rcases logout_cases L authHeader y.st with ⟨-, hlog⟩ | ⟨userId, -, -, hlog, -⟩
      · rw [hlog] at hx
        cases hx
      · rw [hlog, List.mem_singleton] at hx
        rw [hx] at hands
        exact hands.elim
  | tick elapsed => exact .inl hx

/-! ## The accounts of a run -/

/-- what is shown of an account -/
def Accounts.profile (z : Accounts) (user : User) : UserProfileResponse :=
  ⟨user.id, user.username, user.email, z.createdAt user.id⟩

theorem findById_ne_none {s : St} {user : User} (h : user ∈ s.users) : s.findById user.id ≠ none := by
  intro hnone
  simpa using List.find?_eq_none.1 hnone user h

section Runs

variable {L : Library} {requests : List Request} {q : Request} {z : Accounts} {account : UserProfileResponse}

theorem createdAt_old {id : Uuid} (h : z.sys.st.findById id ≠ none) : (z.step L q).createdAt id = z.createdAt id :=
  if_neg fun hnew => h hnew.1

theorem createdAt_new {id : Uuid} (hold : z.sys.st.findById id = none) (hnew : (z.step L q).sys.st.findById id ≠ none) :
    (z.step L q).createdAt id = some (timestamptz z.sys.st.now) := if_pos ⟨hold, hnew⟩

theorem Registered.append (h : Registered L requests account) (later : List Request) :
    Registered L (requests ++ later) account := by
  obtain ⟨before, send, request, after, rfl, hrest⟩ := h
  exact ⟨before, send, request, after ++ later, List.append_assoc before _ later, hrest⟩

/-- the table of users, with the answers that name one of them -/
structure Settled (L : Library) (requests : List Request) (z : Accounts) : Prop where
  ids : (z.sys.st.users.map User.id).Nodup
  drawn : ∀ user ∈ z.sys.st.users, user.id < z.sys.st.drawn
  registered : ∀ user ∈ z.sys.st.users, Registered L requests (z.profile user)
  handed : ∀ x ∈ z.sys.log, ∀ token time, x.Hands token time → ∃ user ∈ z.sys.st.users, accessToken user time = token

theorem settled_init : Settled L [] Accounts.init where
  ids := List.nodup_nil
  drawn := fun user h => by cases h
  registered := fun user h => by cases h
  handed := fun x h => by cases h

theorem Settled.kept (h : Settled L requests z) (q : Request) {user : User} (huser : user ∈ z.sys.st.users) :
    Registered L (requests ++ [q]) ((z.step L q).profile user) := by
  rw [Accounts.profile, createdAt_old (findById_ne_none huser)]
  exact (h.registered user huser).append [q]

theorem Settled.hands (h : Settled L requests z) (hgrow : z.sys.st.users ⊆ (z.step L q).sys.st.users) :
    ∀ x ∈ (z.step L q).sys.log, ∀ token time, x.Hands token time →
      ∃ user ∈ (z.step L q).sys.st.users, accessToken user time = token := by
  intro x hx token time hands
  rcases step_hands hx hands with hbefore | ⟨user, huser, htoken⟩
  · obtain ⟨user, huser, htoken⟩ := h.handed x hbefore token time hands
    exact ⟨user, hgrow huser, htoken⟩
  · exact ⟨user, hgrow huser, htoken⟩

/-- a drawn id is no user's -/
theorem Settled.unused (h : Settled L requests z) : z.sys.st.drawn ∉ z.sys.st.users.map User.id := by
  intro hmem
  obtain ⟨user, huser, hid⟩ := List.mem_map.1 hmem
  exact absurd hid (h.drawn user huser).ne

theorem settled_step (h : Settled L requests (reachedAccounts L requests)) (q : Request) :
    Settled L (requests ++ [q]) ((reachedAccounts L requests).step L q) := by
  generalize hz : reachedAccounts L requests = z at h
  rcases step_users L z.sys q with ⟨husers, hdrawn⟩ | ⟨send, request, user, rfl, hid, hname, hemail, husers, hdrawn⟩
  · have hsame : (z.step L q).sys.st.users = z.sys.st.users := husers
    refine ⟨?_, ?_, ?_, h.hands (hsame ▸ List.Subset.refl _)⟩
    · rw [hsame]
      exact h.ids
    · rw [hsame]
      exact fun user huser => (h.drawn user huser).trans_le hdrawn
    · rw [hsame]
      exact fun user huser => h.kept q huser
  · have hadded : (z.step L (.register send request)).sys.st.users = z.sys.st.users ++ [user] := husers
    have hfresh : user.id ∉ z.sys.st.users.map User.id := hid ▸ h.unused
    refine ⟨?_, ?_, ?_, h.hands (hadded ▸ List.subset_append_left _ _)⟩
    · rw [hadded]
      exact nodup_keys_snoc h.ids hfresh
    · intro user' huser'
      have hdrawn' : (z.step L (.register send request)).sys.st.drawn = z.sys.st.drawn + 1 := hdrawn
      rw [hadded] at huser'
      rw [hdrawn']
      rcases mem_snoc.1 huser' with huser' | rfl
      · exact (h.drawn user' huser').trans (Nat.lt_succ_self _)
      · exact hid.trans_lt (Nat.lt_succ_self _)
    · intro user' huser'
      rw [hadded] at huser'
      rcases mem_snoc.1 huser' with huser' | rfl
      · exact h.kept _ huser'
      · have hnone : z.sys.st.findById user'.id = none := by
          refine List.find?_eq_none.2 fun other hother => ?_
          simp only [decide_eq_true_eq]
          exact fun hsame => hfresh (hsame ▸ List.mem_map_of_mem hother)
        have hsome : (z.step L (.register send request)).sys.st.findById user'.id ≠ none :=
          findById_ne_none (hadded ▸ List.mem_append_right _ (List.mem_singleton_self _))
        subst hz
        exact ⟨requests, send, request, [], rfl, hname, hemail, hid, createdAt_new hnone hsome⟩

theorem settled_reached (L : Library) (requests : List Request) : Settled L requests (reachedAccounts L requests) := by
  induction requests using List.reverseRecOn with
  | nil => exact settled_init
  | append_singleton requests q ih =>
    rw [reachedAccounts, run_snoc]
    exact settled_step ih q

end Runs

/-! ## Answers -/

theorem extractUserId_bearer (L : Library) (jwt : String) (s : St) :
    extractUserId L (some ("Bearer " ++ jwt)) s =
      match L.parseClaimsJws s.now jwt with
      | none => .error (.invalidToken "invalid token") s
      | some subject =>
        match Uuid.fromString subject with
        | .ok userId => .ok userId s
        | .error _ => .error (.invalidToken "invalid token") s := by
  have hprefix : "Bearer ".toList.isPrefixOf ("Bearer " ++ jwt).toList = true := by simp
  have hrest : String.ofList (("Bearer " ++ jwt).toList.drop 7) = jwt := by simp
  unfold extractUserId
  simp only
  rw [if_pos hprefix, hrest, bind_ok query_ok]
  cases L.parseClaimsJws s.now jwt with
  | none => rfl
  | some subject =>
    simp only
    cases Uuid.fromString subject with
    | _ => rfl

/-- **Only registered accounts are shown**, whatever the header. -/
theorem me_registered {L : Library} {requests : List Request} {z : Accounts} (h : Settled L requests z) {ok : Bool}
    {authHeader : Option String} {account : UserProfileResponse}
    (hanswer : z.getMe L ok authHeader = ⟨200, .of account⟩) : Registered L requests account := by
  unfold Accounts.getMe getMeResponse respond getMe at hanswer
  have hkeeps := extractUserId_keeps L authHeader z.sys.st
  cases hextract : extractUserId L authHeader z.sys.st with
  | error e s' =>
    rw [bind_error hextract] at hanswer
    cases e <;> cases hanswer
  | ok userId s' =>
    rw [hextract] at hkeeps
    obtain rfl := hkeeps
    rw [bind_ok hextract] at hanswer
    cases ok with
    | false =>
      rw [bind_error query_fails] at hanswer
      cases hanswer
    | true =>
      rw [bind_ok query_ok] at hanswer
      cases hfind : z.sys.st.findById userId with
      | none =>
        rw [hfind] at hanswer
        cases hanswer
      | some user =>
        rw [hfind] at hanswer
        obtain rfl := Body.of.inj (congrArg HttpResponse.body hanswer)
        exact h.registered user (find?_some_iff_mem hfind).1

/-- a text that verifies as an access token of a user -/
theorem me_of_token {L : Library} {z : Accounts} {user : User} {jwt : String} {time : ℕ}
    (hids : (z.sys.st.users.map User.id).Nodup) (huser : user ∈ z.sys.st.users) (hfits : user.id < 2 ^ 128)
    (hjwt : Verifies L jwt (accessToken user time)) :
    z.getMe L true (some ("Bearer " ++ jwt)) =
      if z.sys.st.now / 10 ^ 6 ≤ (time / 10 ^ 9 + expiresIn) * 1000 then ⟨200, .of (z.profile user)⟩
      else ⟨401, .error "invalid token"⟩ := by
  have hparse : L.parseClaimsJws z.sys.st.now jwt =
      if z.sys.st.now / 10 ^ 6 ≤ (time / 10 ^ 9 + expiresIn) * 1000 then some user.id.toString else none :=
    hjwt z.sys.st.now
  have hextract := extractUserId_bearer L jwt z.sys.st
  rw [hparse] at hextract
  unfold Accounts.getMe getMeResponse respond getMe
  split_ifs with hnow
  · rw [if_pos hnow] at hextract
    simp only [Servers.fromString_toString hfits] at hextract
    have hfind : z.sys.st.findById user.id = some user := by
      refine find?_eq_of_unique huser (by simp) fun other hother hid => ?_
      exact eq_of_key hids hother huser (by simpa using hid)
    rw [bind_ok hextract, bind_ok query_ok, hfind]
    rfl
  · rw [if_neg hnow] at hextract
    rw [bind_error hextract]
    rfl

/-- **The profile.** In every run, as long as no more than 2 ^ 128 UUIDs are drawn: `GET /auth/me` shows nothing but
registered accounts, and with an access token that a login or a refresh has handed out the account whose id and name the
token carries, until it expires. -/
theorem profile_law (L : Library) (requests : List Request) (hdrawn : (reachedAccounts L requests).sys.st.drawn ≤ 2 ^ 128) :
    (∀ ok authHeader account, (reachedAccounts L requests).getMe L ok authHeader = ⟨200, .of account⟩ →
      Registered L requests account) ∧
    ∀ x ∈ (reachedAccounts L requests).sys.log, ∀ token time jwt, x.Hands token time → Verifies L jwt token →
      ∃ account, Registered L requests account ∧ account.userId = token.subject ∧ account.username = token.username ∧
        (reachedAccounts L requests).getMe L true (some ("Bearer " ++ jwt)) =
          if (reachedAccounts L requests).sys.st.now / 10 ^ 6 ≤ (time / 10 ^ 9 + expiresIn) * 1000 then
            ⟨200, .of account⟩
          else ⟨401, .error "invalid token"⟩ := by
  have hsettled := settled_reached L requests
  refine ⟨fun ok authHeader account h => me_registered hsettled h, ?_⟩
  intro x hx token time jwt hands hjwt
  obtain ⟨user, huser, rfl⟩ := hsettled.handed x hx token time hands
  have hfits : user.id < 2 ^ 128 := (hsettled.drawn user huser).trans_le hdrawn
  exact ⟨_, hsettled.registered user huser, rfl, rfl, me_of_token hsettled.ids huser hfits hjwt⟩

/-- a library that accepts one text, as the access token of the first account -/
def oneToken : Library := { readable with
  parseClaimsJws := fun now jwt =>
    if jwt = "alice.jwt" then if now / 10 ^ 6 ≤ 900 * 1000 then some (Servers.Uuid.toString 0) else none else none }

/-- alice logs in, logs out, and asks for her profile a minute later -/
def loggedOut : List Request :=
  [.register .accepted registerAlice, .login ⟨some "alice@test.com", some "secret123"⟩, .logout (some "Bearer alice.jwt"),
    .tick (60 * 10 ^ 9)]

/-- her refresh token is gone, and her access token still shows who she is -/
theorem loggedOut_profile : (reachedAccounts oneToken loggedOut).sys.st.refreshTokens = [] ∧
    ∃ account, Registered oneToken loggedOut account ∧ account.userId = 0 ∧ account.username = "alice" ∧
      (reachedAccounts oneToken loggedOut).getMe oneToken true (some ("Bearer " ++ "alice.jwt")) = ⟨200, .of account⟩ := by
  have hx : Answer.loggedIn ⟨⟨0, "alice", 0, 900⟩, "00000000-0000-0000-0000-000000000001", 900⟩ 0 ∈
      (reachedAccounts oneToken loggedOut).sys.log := by decide
  have hjwt : Verifies oneToken "alice.jwt" ⟨0, "alice", 0, 900⟩ := fun now => by simp [oneToken]
  refine ⟨by decide, ?_⟩
  obtain ⟨account, hregistered, hid, hname, hanswer⟩ :=
    (profile_law oneToken loggedOut (by decide)).2 _ hx _ 0 "alice.jwt" ⟨rfl, rfl⟩ hjwt
  rw [if_pos (by decide)] at hanswer
  exact ⟨account, hregistered, hid, hname, hanswer⟩

end Concordia.Auth.Endpoints
