/-
The web client's session (`apps/web-app/app/lib/api.ts`, `apiFetch`) against the auth service.

- The browser keeps an access token and a refresh token in `localStorage`, and any number of `apiFetch` calls are under
  way; each takes its steps one by one, interleaved with the steps of the auth service and with time.
- The gateway answers 401 unless the bearer token's `exp` lies ahead; otherwise the upstream's status comes back.
- On a 401 a call reads the stored refresh token, has the auth service refresh it, stores the new access token and
  retries once; a refused refresh clears the storage and sends the browser to /login.
- Only the access token of the answer is stored: the refresh token that came with it is dropped, while the service has
  rotated the old one away.

Results: `session_intact`, over every run in which no call is answered 401; `not_intact_after_refresh`, after any refresh;
`second_expiry_logs_out`, over two expiries.
Calls that bring their own `Authorization` header are left out, and so are network errors.
-/
import Concordia.Auth.Rotation

namespace Concordia.Web

open Concordia.Lib
open Concordia.Auth (AccessToken Crypto LoginResponse Token User)

/-- where an `apiFetch` call stands -/
inductive Call where
  | idle
  /-- the request is out, with the access token that was stored -/
  | sent (token : Option AccessToken)
  /-- answered 401 -/
  | unauthorized
  /-- the refresh is out, as this request of the auth service -/
  | refreshing (request : ℕ)
  /-- the retry is out -/
  | retrying (token : AccessToken)
  | done (status : ℕ)
deriving DecidableEq, Repr

structure St where
  auth : Auth.St
  /-- `localStorage` -/
  accessToken : Option AccessToken
  refreshToken : Option Token
  /-- the browser was sent to /login -/
  atLogin : Bool
  calls : ℕ → Call

inductive Op where
  | fetch (call : ℕ)
  /-- the upstream would answer `status` -/
  | answer (call status : ℕ)
  | refresh (call request : ℕ)
  /-- the auth service takes the next step of a request -/
  | advance (request : ℕ)
  | receive (call : ℕ)
  | retry (call status : ℕ)
  | tick (nanos : ℕ)
deriving DecidableEq, Repr

def St.setCall (s : St) (k : ℕ) (c : Call) : St := { s with calls := Function.update s.calls k c }

/-- `RequireAuth` in front of an upstream that would answer `status`; `now` is in nanoseconds -/
def gatewayStatus (now : ℕ) (token : Option AccessToken) (status : ℕ) : ℕ :=
  match token with
  | none => 401
  | some t => if now < t.exp * 10 ^ 9 then status else 401

/-- the browser right after a login -/
def start (auth : Auth.St) (response : LoginResponse) : St :=
  ⟨auth, some response.accessToken, some response.refreshToken, false, fun _ => .idle⟩

/-- `apiFetch`, one step of a call at a time -/
def step (C : Crypto) (s : St) : Op → St
  | .fetch k =>
    match s.calls k with
    | .idle => s.setCall k (.sent s.accessToken)
    | _ => s
  | .answer k status =>
    match s.calls k with
    | .sent token =>
      let status := gatewayStatus s.auth.now token status
      s.setCall k (if status = 401 then .unauthorized else .done status)
    | _ => s
  | .refresh k request =>
    match s.calls k with
    | .unauthorized =>
      match s.refreshToken with
      | none => s.setCall k (.done 401)
      | some t =>
        if (s.auth.phase request).isIdle then
          { s.setCall k (.refreshing request) with auth := Auth.step C s.auth (.refresh request t) }
        else s
    | _ => s
  | .advance request => { s with auth := Auth.step C s.auth (.advance request) }
  | .receive k =>
    match s.calls k with
    | .refreshing request =>
      match s.auth.phase request with
      | .refreshed _ response =>
        { s.setCall k (.retrying response.accessToken) with accessToken := some response.accessToken }
      | .failed _ => { s.setCall k (.done 401) with accessToken := none, refreshToken := none, atLogin := true }
      | _ => s
    | _ => s
  | .retry k status =>
    match s.calls k with
    | .retrying token => s.setCall k (.done (gatewayStatus s.auth.now (some token) status))
    | _ => s
  | .tick nanos => { s with auth := Auth.step C s.auth (.tick nanos) }

/-! ## The session -/

/-- the auth service right after a login was answered, with no other request under way -/
structure LoggedIn (C : Crypto) (users : List User) (auth : Auth.St) (response : LoginResponse) : Prop where
  reached : ∃ ops, auth = Auth.reached C users ops
  answered : ∃ r, auth.phase r = .loggedIn response
  row : ∃ row ∈ auth.refreshTokens, row.tokenHash = C.hashToken response.refreshToken
  settled : ∀ r, (auth.phase r).isIdle = true ∨ (auth.phase r).final = true

/-- the session goes on: while no refresh is under way the service holds the stored refresh token; no call was given up
on a 401, and the browser was not sent to /login -/
structure Intact (C : Crypto) (s : St) : Prop where
  token : (∀ k r, s.calls k ≠ .refreshing r) → ∃ t, s.refreshToken = some t ∧ Auth.Held C s.auth t
  calls : ∀ k, s.calls k ≠ .done 401
  stays : s.atLogin = false

/-- no call is answered 401 -/
def Answered (s : St) : Op → Prop
  | .answer k status => ∀ token, s.calls k = .sent token → gatewayStatus s.auth.now token status ≠ 401
  | _ => True

/-- what a run in which no call is answered 401 leaves as it was: time has passed, and calls are out or answered -/
structure Untouched (auth : Auth.St) (response : LoginResponse) (s : St) : Prop where
  auth : ∃ n, s.auth = { auth with now := auth.now + n }
  refreshToken : s.refreshToken = some response.refreshToken
  calls : ∀ k, s.calls k = .idle ∨ (∃ token, s.calls k = .sent token) ∨ ∃ status, s.calls k = .done status ∧ status ≠ 401
  stays : s.atLogin = false

theorem Untouched.setCall {auth : Auth.St} {response : LoginResponse} {s : St} (h : Untouched auth response s) (k : ℕ)
    {c : Call} (hc : c = .idle ∨ (∃ token, c = .sent token) ∨ ∃ status, c = .done status ∧ status ≠ 401) :
    Untouched auth response (s.setCall k c) := by
  refine { h with calls := fun q => ?_ }
  by_cases hq : q = k
  · simp only [St.setCall, hq, Function.update_self]; exact hc
  · simp only [St.setCall, Function.update_of_ne hq]; exact h.calls q

theorem advance_settled {C : Crypto} {a : Auth.St} {r : ℕ} (h : (a.phase r).isIdle = true ∨ (a.phase r).final = true) :
    Auth.step C a (.advance r) = a := by
  rcases Auth.advance_cases C a r with he | ⟨hf, ht⟩
  · exact he
  · rcases h with h | h
    · cases hp : a.phase r with
      | idle => simp only [Auth.step, Auth.advance, hp]
      | _ => rw [hp] at h; cases h
    · rw [h] at hf; cases hf

/-- **One step.** A step that answers no call 401 leaves the session untouched. -/
theorem untouched_step {C : Crypto} {auth : Auth.St} {response : LoginResponse}
    (hsettled : ∀ r, (auth.phase r).isIdle = true ∨ (auth.phase r).final = true) {s : St} {o : Op}
    (h : Untouched auth response s) (ho : Answered s o) : Untouched auth response (step C s o) := by
  obtain ⟨n, hauth⟩ := h.auth
  cases o with
  | fetch k =>
    simp only [step]
    split
    · exact h.setCall k (Or.inr (Or.inl ⟨_, rfl⟩))
    · exact h
  | answer k status =>
    simp only [step]
    split
    · rename_i token hk
      rw [if_neg (ho token hk)]
      exact h.setCall k (Or.inr (Or.inr ⟨_, rfl, ho token hk⟩))
    · exact h
  | advance r =>
    have hsame : Auth.step C s.auth (.advance r) = s.auth := advance_settled (by rw [hauth]; exact hsettled r)
    simp only [step, hsame]; exact h
  | tick m =>
    refine { h with auth := ⟨n + m, ?_⟩ }
    simp only [step, hauth, Auth.step, Nat.add_assoc]
  | refresh k r | receive k | retry k status =>
    -- these steps need a call that was answered 401
    rcases h.calls k with hk | ⟨token, hk⟩ | ⟨st, hk, -⟩ <;> simp only [step, hk] <;> exact h

theorem Untouched.intact {C : Crypto} {users : List User} {auth : Auth.St} {response : LoginResponse} {s : St}
    (h0 : LoggedIn C users auth response) (h : Untouched auth response s) : Intact C s := by
  refine ⟨fun _ => ⟨_, h.refreshToken, ?_⟩, fun k hk => ?_, h.stays⟩
  · obtain ⟨ops, rfl⟩ := h0.reached
    obtain ⟨n, hauth⟩ := h.auth
    obtain ⟨row, hrow, hhash⟩ := h0.row
    -- letting time pass is a run of the auth service too
    have htick : s.auth = Auth.reached C users (ops ++ [.tick n]) :=
      hauth.trans (run_snoc (Auth.step C) (Auth.init users) ops (.tick n)).symm
    refine Auth.held_of_row (htick ▸ Auth.reached_inv C users _) (htick ▸ Auth.reached_known C users _) ?_ hhash
    rw [hauth]; exact hrow
  · rcases h.calls k with hk' | ⟨token, hk'⟩ | ⟨status, hk', hne⟩ <;> rw [hk'] at hk <;> cases hk
    exact hne rfl

/-- **Session continuity.** From right after a login, in every run in which no call is answered 401, the session stays
intact. -/
theorem session_intact (C : Crypto) (users : List User) (auth : Auth.St) (response : LoginResponse)
    (h0 : LoggedIn C users auth response) (ops : List Op)
    (h : Along (step C) Answered (start auth response) ops) : Intact C (run (step C) (start auth response) ops) := by
  refine Untouched.intact h0 (run_inv (I := Untouched auth response) ?_ ?_ h)
  · intro _ _ hI ho
    exact untouched_step h0.settled hI ho
  · exact ⟨⟨0, rfl⟩, rfl, fun _ => Or.inl rfl, rfl⟩

/-! ## After a refresh -/

theorem auth_inv_step {C : Crypto} {s : St} (o : Op) (h : Auth.Inv C s.auth) : Auth.Inv C (step C s o).auth := by
  cases o with
  | advance r => exact Auth.step_inv C s.auth (.advance r) h
  | tick n => exact Auth.step_inv C s.auth (.tick n) h
  | fetch k | answer k status | retry k status => simp only [step]; split <;> exact h
  | refresh k r =>
    simp only [step]
    split
    · split
      · exact h
      · rename_i t ht
        split_ifs
        · exact Auth.step_inv C s.auth (.refresh r t) h
        · exact h
    · exact h
  | receive k =>
    simp only [step]
    split
    · split <;> exact h
    · exact h

/-- **A refresh spends the stored token.** Once the service has answered a refresh of the token that is stored, the
session is not intact, unless another refresh is under way. -/
theorem not_intact_after_refresh {C : Crypto} {users : List User} {auth : Auth.St} {response : LoginResponse}
    (h0 : LoggedIn C users auth response) (ops : List Op) {s : St} (hs : s = run (step C) (start auth response) ops)
    {t : Token} (ht : s.refreshToken = some t) {r : ℕ} {answer : LoginResponse}
    (hr : s.auth.phase r = .refreshed t answer) (hquiet : ∀ k q, s.calls k ≠ .refreshing q) : ¬ Intact C s := by
  rintro ⟨htoken, -, -⟩
  obtain ⟨t', ht', row, hrow, hhash, -⟩ := htoken hquiet
  obtain rfl : t = t' := Option.some.inj (ht.symm.trans ht')
  have hinv : Auth.Inv C s.auth := by
    obtain ⟨authOps, hauth⟩ := h0.reached
    rw [hs]
    exact run_inv' (I := fun s : St => Auth.Inv C s.auth) (fun _ o => auth_inv_step o)
      (show Auth.Inv C auth from hauth ▸ Auth.reached_inv C users authOps) ops
  have hok := hinv.phase r
  rw [hr] at hok
  exact hok.2 row hrow hhash

/-! ## Alice's browser -/

def aliceAuth : Auth.St := Auth.reached Auth.unary [Auth.alice] Auth.loginOps

def aliceResponse : LoginResponse := ⟨⟨7, "alice", 0, 900⟩, 0, 900⟩

theorem alice_loggedIn : LoggedIn Auth.unary [Auth.alice] aliceAuth aliceResponse where
  reached := ⟨_, rfl⟩
  answered := ⟨0, rfl⟩
  row := ⟨⟨1, 7, "", Auth.refreshTtl⟩, by decide, by decide⟩
  settled := fun
    | 0 => Or.inr rfl
    | _ + 1 => Or.inl rfl

theorem session_intact_alice :
    Intact Auth.unary (run (step Auth.unary) (start aliceAuth aliceResponse)
      [.fetch 0, .tick (899 * 10 ^ 9), .answer 0 200]) := by
  refine session_intact _ _ _ _ alice_loggedIn _ ⟨trivial, trivial, ?_, trivial⟩
  intro token h
  obtain rfl : token = some aliceResponse.accessToken := (Call.sent.inj h).symm
  decide

/-- the first expiry is repaired; the refresh token that is left is spent, so the second one ends at /login -/
theorem second_expiry_logs_out :
    let ops := [Op.tick (901 * 10 ^ 9), .fetch 0, .answer 0 200, .refresh 0 1] ++ List.replicate 6 (Op.advance 1) ++
      [Op.receive 0, .retry 0 200, .tick (901 * 10 ^ 9), .fetch 1, .answer 1 200, .refresh 1 2, .advance 2, .receive 1]
    LoggedIn Auth.unary [Auth.alice] aliceAuth aliceResponse ∧
      ¬ Intact Auth.unary (run (step Auth.unary) (start aliceAuth aliceResponse) ops) :=
  ⟨alice_loggedIn, fun h => absurd h.stays (by decide)⟩

end Concordia.Web
