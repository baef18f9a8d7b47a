/-
The refresh tokens over a whole history of requests, one after another, with no failing storage.

- `Sys` is the service and what it has answered; `step` carries one request out, or lets time pass.
- `Valid`: by the answers so far, a token was handed to a user who has not logged out since, it is not yet seven days old,
  and no refresh has exchanged it.
- `Inv` ties the token table to the answers: a row for each handed-out token that is still good, and no other row.
- `refresh_law`: a refresh goes through exactly for a valid token, the new pair is for the same user, and the fate of no
  other token changes.
-/
import Concordia.Auth.Exchange

namespace Concordia.Auth.Endpoints

open Concordia.Lib
open Concordia.Servers (Uuid)

/-! ## Runs -/

/-- what has been answered -/
inductive Answer where
  | loggedIn (response : LoginResponse) (time : ℕ)
  /-- `token` was presented -/
  | refreshed (token : String) (response : LoginResponse) (time : ℕ)
  | loggedOut (userId : Uuid)
deriving DecidableEq, Repr

structure Sys where
  st : St
  log : List Answer

inductive Request where
  | register (send : Send) (request : RegisterRequest)
  | login (request : LoginRequest)
  | refresh (token : Option String)
  | logout (authHeader : Option String)
  /-- in nanoseconds -/
  | tick (elapsed : ℕ)
deriving DecidableEq, Repr

/-- no repository call fails -/
def up {κ : Type} : κ → Bool := fun _ => true

/-- what a program leaves -/
def St.after {α : Type} (s : St) (x : Svc α) : St :=
  match x s with
  | .ok _ s' => s'
  | .error _ s' => s'

/-- whose tokens a logout deletes -/
def loggedOutBy (L : Library) (authHeader : Option String) (s : St) : List Answer :=
  match extractUserId L authHeader s with
  | .ok userId _ => [.loggedOut userId]
  | .error _ _ => []

def step (L : Library) (y : Sys) : Request → Sys
  | .register send request => { y with st := y.st.after (registerUser L up send request) }
  | .login request =>
    match login L up request y.st with
    | .ok response s' => ⟨s', y.log ++ [.loggedIn response y.st.now]⟩
    | .error _ s' => ⟨s', y.log⟩
  | .refresh token =>
    match refresh L up token y.st with
    | .ok response s' => ⟨s', y.log ++ [.refreshed (token.getD "") response y.st.now]⟩
    | .error _ s' => ⟨s', y.log⟩
  | .logout authHeader => ⟨y.st.after (logout L true authHeader), y.log ++ loggedOutBy L authHeader y.st⟩
  | .tick elapsed => { y with st := { y.st with now := y.st.now + elapsed } }

/-- the service starts without tokens -/
def start (users : List User) (now drawn : ℕ) : Sys := ⟨⟨users, [], now, drawn, [], [], List.nodup_nil, nofun⟩, []⟩

/-! ## Answers -/

/-- the answer hands token `t` to `u` -/
def Answer.Issues (x : Answer) (t : String) (u : Uuid) (time : ℕ) : Prop :=
  match x with
  | .loggedIn response time' => response.refreshToken = t ∧ response.accessToken.subject = u ∧ time' = time
  | .refreshed _ response time' => response.refreshToken = t ∧ response.accessToken.subject = u ∧ time' = time
  | .loggedOut _ => False

/-- `t` was handed to `u`, who has not logged out since -/
def IssuedSince (log : List Answer) (t : String) (u : Uuid) (time : ℕ) : Prop :=
  ∃ before x after, log = before ++ x :: after ∧ x.Issues t u time ∧ .loggedOut u ∉ after

/-- `t` has been presented in a successful refresh -/
def Used (log : List Answer) (t : String) : Prop := ∃ response time, .refreshed t response time ∈ log

/-- what the answers so far say of a token -/
def Valid (y : Sys) (t : String) (u : Uuid) : Prop :=
  ∃ time, IssuedSince y.log t u time ∧ y.st.now ≤ time + refreshTtl ∧ ¬ Used y.log t

/-- a refresh presenting `t` goes through -/
def Accepts (L : Library) (s : St) (t : String) : Prop := ∃ response s', refresh L up (some t) s = .ok response s'

theorem issuedSince_snoc {log : List Answer} {x : Answer} {t : String} {u : Uuid} {time : ℕ} :
    IssuedSince (log ++ [x]) t u time ↔ x.Issues t u time ∨ (IssuedSince log t u time ∧ x ≠ .loggedOut u) := by
  refine ⟨?_, ?_⟩
  · rintro ⟨before, z, after, heq, hz, hout⟩
    rcases List.eq_nil_or_concat after with rfl | ⟨after, w, rfl⟩
    · obtain ⟨-, hx⟩ := List.append_inj' heq rfl
      cases hx
      exact Or.inl hz
    · have hsplit : log ++ [x] = (before ++ z :: after) ++ [w] := by simpa using heq
      obtain ⟨hlog, hx⟩ := List.append_inj' hsplit rfl
      cases hx
      simp only [List.concat_eq_append, List.mem_append, List.mem_singleton, not_or] at hout
      exact Or.inr ⟨⟨before, z, after, hlog, hz, hout.1⟩, fun h => hout.2 h.symm⟩
  · rintro (hx | ⟨⟨before, z, after, rfl, hz, hout⟩, hx⟩)
    · exact ⟨log, x, [], rfl, hx, List.not_mem_nil⟩
    · refine ⟨before, z, after ++ [x], by simp, hz, ?_⟩
      rw [mem_snoc]
      exact fun h => h.elim hout fun h => hx h.symm

theorem used_snoc {log : List Answer} {x : Answer} {t : String} :
    Used (log ++ [x]) t ↔ Used log t ∨ ∃ response time, x = .refreshed t response time := by
  refine ⟨?_, ?_⟩
  · rintro ⟨response, time, h⟩
    exact (mem_snoc.1 h).elim (fun h => Or.inl ⟨response, time, h⟩) fun h => Or.inr ⟨response, time, h.symm⟩
  · rintro (⟨response, time, h⟩ | ⟨response, time, rfl⟩)
    · exact ⟨response, time, mem_snoc.2 (Or.inl h)⟩
    · exact ⟨response, time, mem_snoc.2 (Or.inr rfl)⟩

theorem used_snoc_other {log : List Answer} {x : Answer} (hx : ∀ t response time, x ≠ .refreshed t response time) :
    Used (log ++ [x]) = Used log := by
  funext t
  rw [used_snoc]
  refine propext (or_iff_left ?_)
  rintro ⟨response, time, heq⟩
  exact hx t response time heq

/-! ## What a request does -/

/-- no token is issued or removed -/
structure St.Quiet (s s' : St) : Prop where
  tokens : s'.refreshTokens = s.refreshTokens
  users : s.users ⊆ s'.users
  drawn : s.drawn ≤ s'.drawn
  now : s.now ≤ s'.now

theorem St.Quiet.refl (s : St) : s.Quiet s := ⟨rfl, fun _ h => h, le_rfl, le_rfl⟩

theorem registerUser_quiet (L : Library) (send : Send) (request : RegisterRequest) (s : St) :
    s.Quiet (s.after (registerUser L up send request)) := by
  by_cases hstores : ∃ passwordHash, Stores L up s request passwordHash
  · obtain ⟨passwordHash, h⟩ := hstores
    obtain ⟨s', husers, hthrows, hreturns, -, htokens, hdrawn, hnow⟩ := registerUser_stores send h
    have hafter : s.after (registerUser L up send request) = s' := by
      unfold St.after
      by_cases hsend : send = .throws
      · rw [hthrows hsend]
      · rw [hreturns hsend]
    rw [hafter]
    exact ⟨htokens, husers ▸ List.subset_append_left _ _, hdrawn ▸ Nat.le_succ _, hnow.ge⟩
  · obtain ⟨e, hrun⟩ := registerUser_refused send hstores
    have hafter : s.after (registerUser L up send request) = s := by
      unfold St.after
      rw [hrun]
    rw [hafter]
    exact St.Quiet.refl s

/-- **login** is refused, or issues a token to a known user. -/
theorem login_cases (L : Library) (request : LoginRequest) (s : St) :
    (∃ e s', login L up request s = .error e s' ∧ s.Quiet s') ∨
      ∃ user ∈ s.users, ∃ response, login L up request s = .ok response (issued L s user "auth.login.success") ∧
        response.accessToken.subject = user.id ∧ response.refreshToken = L.uuidText s.drawn := by
  unfold login
  rw [show up LoginCall.findByEmail = true from rfl, bind_ok query_ok]
  cases hfind : s.findByEmail request.email with
  | none =>
    left
    cases request.email with
    | none => exact ⟨_, _, rfl, St.Quiet.refl s⟩
    | some email => exact ⟨_, _, rfl, rfl, fun _ h => h, le_rfl, le_rfl⟩
  | some user =>
    simp only
    cases request.password with
    | none => exact Or.inl ⟨_, _, rfl, St.Quiet.refl s⟩
    | some password =>
      rw [bind_ok matchesPassword_some]
      cases L.passwordMatches password user.passwordHash with
      | true => exact Or.inr ⟨user, (find?_some_iff_mem hfind).1, _, rfl, rfl, rfl⟩
      | false =>
        left
        cases request.email with
        | none => exact ⟨_, _, rfl, St.Quiet.refl s⟩
        | some email => exact ⟨_, _, rfl, rfl, fun _ h => h, le_rfl, le_rfl⟩

theorem extractUserId_keeps (L : Library) (authHeader : Option String) (s : St) :
    match extractUserId L authHeader s with
    | .ok _ s' => s' = s
    | .error _ s' => s' = s := by
  unfold extractUserId
  cases authHeader with
  | none => rfl
  | some authHeader =>
    simp only
    split_ifs
    · rw [bind_ok query_ok]
      cases L.parseClaimsJws s.now (String.ofList (authHeader.toList.drop 7)) with
      | none => rfl
      | some subject =>
        simp only
        cases Uuid.fromString subject with
        | error => rfl
        | ok userId => rfl
    · rfl

/-- **logout** deletes the rows of the user its header names, or does nothing. -/
theorem logout_cases (L : Library) (authHeader : Option String) (s : St) :
    (s.after (logout L true authHeader) = s ∧ loggedOutBy L authHeader s = []) ∨
      ∃ userId s', s.after (logout L true authHeader) = s' ∧ loggedOutBy L authHeader s = [.loggedOut userId] ∧
        s'.refreshTokens = s.refreshTokens.filter (·.userId ≠ userId) ∧ s'.users = s.users ∧ s'.drawn = s.drawn ∧
        s'.now = s.now := by
  unfold St.after logout loggedOutBy
  have hkeeps := extractUserId_keeps L authHeader s
  cases h : extractUserId L authHeader s with
  | error e s' =>
    rw [h] at hkeeps
    rw [bind_error h]
    exact Or.inl ⟨hkeeps, rfl⟩
  | ok userId s' =>
    rw [h] at hkeeps
    rw [bind_ok h, hkeeps]
    exact Or.inr ⟨userId, _, rfl, rfl, rfl, rfl, rfl, rfl⟩

/-! ## The invariant -/

/-- the token table against the answers; `used` are the tokens that have been exchanged -/
structure Inv (L : Library) (s : St) (log : List Answer) (used : String → Prop) : Prop where
  hashes : (s.refreshTokens.map RefreshToken.tokenHash).Nodup
  known : ∀ row ∈ s.refreshTokens, ∃ user ∈ s.users, user.id = row.userId
  /-- every row is of a token that was handed out and is still good, but for its age -/
  sound : ∀ row ∈ s.refreshTokens, ∃ t time, row.tokenHash = L.hashToken t ∧ row.expiresAt = time + refreshTtl ∧
    IssuedSince log t row.userId time ∧ ¬ used t
  /-- every good token has its row -/
  complete : ∀ t u time, IssuedSince log t u time → ¬ used t → s.now ≤ time + refreshTtl →
    ∃ row ∈ s.refreshTokens, row.tokenHash = L.hashToken t ∧ row.userId = u ∧ row.expiresAt = time + refreshTtl
  issuedDrawn : ∀ t u time, IssuedSince log t u time → ∃ n < s.drawn, t = L.uuidText n
  usedDrawn : ∀ t, used t → ∃ n < s.drawn, t = L.uuidText n

section Invariant

variable {L : Library} {s s' : St} {log : List Answer} {used used' : String → Prop}

theorem Inv.quiet (h : Inv L s log used) (hq : s.Quiet s') : Inv L s' log used := by
  refine ⟨?_, ?_, ?_, ?_, ?_, ?_⟩
  · rw [hq.tokens]
    exact h.hashes
  · rw [hq.tokens]
    intro row hrow
    obtain ⟨user, huser, hid⟩ := h.known row hrow
    exact ⟨user, hq.users huser, hid⟩
  · rw [hq.tokens]
    exact h.sound
  · rw [hq.tokens]
    exact fun t u time hi hu hnow => h.complete t u time hi hu (hq.now.trans hnow)
  · intro t u time hi
    obtain ⟨n, hn, ht⟩ := h.issuedDrawn t u time hi
    exact ⟨n, hn.trans_le hq.drawn, ht⟩
  · intro t hu
    obtain ⟨n, hn, ht⟩ := h.usedDrawn t hu
    exact ⟨n, hn.trans_le hq.drawn, ht⟩

/-- the row of a token goes, since the token is used now or has expired -/
theorem Inv.delete (h : Inv L s log used) {old : RefreshToken} {t : String} (hold : old ∈ s.refreshTokens)
    (hhash : old.tokenHash = L.hashToken t) (hmono : ∀ t', used t' → used' t') (hother : ∀ t' ≠ t, used' t' → used t')
    (hgone : used' t ∨ old.expiresAt < s.now) : Inv L (s.delete old) log used' := by
  -- a row that stays is of another token
  have hstays : ∀ row ∈ s.refreshTokens, row.id ≠ old.id → row.tokenHash ≠ L.hashToken t := by
    intro row hrow hid heq
    have hsame : row = old := eq_of_key h.hashes hrow hold (heq.trans hhash.symm)
    exact hid (congrArg RefreshToken.id hsame)
  refine ⟨h.hashes.sublist (List.filter_sublist.map _), fun row hrow => h.known row (List.mem_filter.1 hrow).1, ?_, ?_,
    h.issuedDrawn, ?_⟩
  · intro row hrow
    obtain ⟨hrow, hid⟩ := List.mem_filter.1 hrow
    obtain ⟨t', time, hh, he, hi, hu⟩ := h.sound row hrow
    have hne : t' ≠ t := by
      rintro rfl
      exact hstays row hrow (by simpa using hid) hh
    exact ⟨t', time, hh, he, hi, fun h' => hu (hother t' hne h')⟩
  · intro t' u time hi hu hnow
    obtain ⟨row, hrow, hh, huser, he⟩ := h.complete t' u time hi (fun h' => hu (hmono t' h')) hnow
    refine ⟨row, List.mem_filter.2 ⟨hrow, ?_⟩, hh, huser, he⟩
    simp only [decide_eq_true_eq]
    intro hid
    have hsame : row = old := eq_of_key s.refreshTokensPk hrow hold hid
    subst hsame
    have htt : t' = t := L.hashToken_injective (hh.symm.trans hhash)
    subst htt
    rcases hgone with hused | hexp
    · exact hu hused
    · rw [he] at hexp
      exact absurd hnow (Nat.not_le.2 hexp)
  · intro t' hu
    by_cases hne : t' = t
    · obtain ⟨t'', time, hh, -, hi, -⟩ := h.sound old hold
      have htt : t'' = t := L.hashToken_injective (hh.symm.trans hhash)
      obtain ⟨n, hn, ht⟩ := h.issuedDrawn t'' _ time hi
      exact ⟨n, hn, by rw [hne, ← htt, ht]⟩
    · exact h.usedDrawn t' (hother t' hne hu)

theorem uuidText_fresh {n drawn : ℕ} (hn : n < drawn) : L.uuidText n ≠ L.uuidText drawn :=
  fun h => absurd (L.uuidText_injective h) hn.ne

/-- a token is handed to a known user -/
theorem Inv.issue (h : Inv L s log used) {user : User} (huser : user ∈ s.users) (eventType : String) {x : Answer}
    (hx : ∀ t u time, x.Issues t u time ↔ L.uuidText s.drawn = t ∧ user.id = u ∧ s.now = time)
    (hout : ∀ u, x ≠ .loggedOut u) : Inv L (issued L s user eventType) (log ++ [x]) used := by
  have hnew : L.hashToken (L.uuidText s.drawn) ∉ s.refreshTokens.map RefreshToken.tokenHash := by
    intro hmem
    obtain ⟨row, hrow, hhash⟩ := List.mem_map.1 hmem
    obtain ⟨t, time, hh, -, hi, -⟩ := h.sound row hrow
    obtain ⟨n, hn, rfl⟩ := h.issuedDrawn t _ time hi
    exact uuidText_fresh hn (L.hashToken_injective (hh.symm.trans hhash))
  refine ⟨nodup_keys_snoc h.hashes hnew, ?_, ?_, ?_, ?_, ?_⟩
  · intro row hrow
    rcases mem_snoc.1 hrow with hrow | rfl
    · exact h.known row hrow
    · exact ⟨user, huser, rfl⟩
  · intro row hrow
    rcases mem_snoc.1 hrow with hrow | rfl
    · obtain ⟨t, time, hh, he, hi, hu⟩ := h.sound row hrow
      exact ⟨t, time, hh, he, issuedSince_snoc.2 (Or.inr ⟨hi, hout _⟩), hu⟩
    · refine ⟨L.uuidText s.drawn, s.now, rfl, rfl, issuedSince_snoc.2 (Or.inl ((hx _ _ _).2 ⟨rfl, rfl, rfl⟩)), ?_⟩
      intro hu
      obtain ⟨n, hn, ht⟩ := h.usedDrawn _ hu
      exact uuidText_fresh hn ht.symm
  · intro t u time hi hu hnow
    rcases issuedSince_snoc.1 hi with hi | ⟨hi, -⟩
    · obtain ⟨rfl, rfl, rfl⟩ := (hx _ _ _).1 hi
      exact ⟨_, mem_snoc.2 (Or.inr rfl), rfl, rfl, rfl⟩
    · obtain ⟨row, hrow, hrest⟩ := h.complete t u time hi hu hnow
      exact ⟨row, mem_snoc.2 (Or.inl hrow), hrest⟩
  · intro t u time hi
    rcases issuedSince_snoc.1 hi with hi | ⟨hi, -⟩
    · exact ⟨s.drawn, Nat.lt_add_of_pos_right (by decide), ((hx _ _ _).1 hi).1.symm⟩
    · obtain ⟨n, hn, ht⟩ := h.issuedDrawn t u time hi
      exact ⟨n, Nat.lt_add_right 2 hn, ht⟩
  · intro t hu
    obtain ⟨n, hn, ht⟩ := h.usedDrawn t hu
    exact ⟨n, Nat.lt_add_right 2 hn, ht⟩

/-- the tokens of a user go -/
theorem Inv.logout (h : Inv L s log used) {userId : Uuid}
    (htokens : s'.refreshTokens = s.refreshTokens.filter (·.userId ≠ userId)) (husers : s'.users = s.users)
    (hdrawn : s'.drawn = s.drawn) (hnow : s'.now = s.now) : Inv L s' (log ++ [.loggedOut userId]) used := by
  have hsince : ∀ {t u time}, IssuedSince (log ++ [.loggedOut userId]) t u time ↔
      IssuedSince log t u time ∧ u ≠ userId := by
    intro t u time
    rw [issuedSince_snoc]
    refine ⟨?_, fun ⟨hi, hne⟩ => Or.inr ⟨hi, fun heq => hne (Answer.loggedOut.inj heq).symm⟩⟩
    rintro (hi | ⟨hi, hne⟩)
    · exact absurd hi id
    · exact ⟨hi, fun heq => hne (congrArg Answer.loggedOut heq.symm)⟩
  refine ⟨?_, ?_, ?_, ?_, ?_, ?_⟩
  · rw [htokens]
    exact h.hashes.sublist (List.filter_sublist.map _)
  · rw [htokens, husers]
    exact fun row hrow => h.known row (List.mem_filter.1 hrow).1
  · rw [htokens]
    intro row hrow
    obtain ⟨hrow, hne⟩ := List.mem_filter.1 hrow
    obtain ⟨t, time, hh, he, hi, hu⟩ := h.sound row hrow
    exact ⟨t, time, hh, he, hsince.2 ⟨hi, by simpa using hne⟩, hu⟩
  · rw [htokens, hnow]
    intro t u time hi hu hle
    obtain ⟨hi, hne⟩ := hsince.1 hi
    obtain ⟨row, hrow, hh, rfl, he⟩ := h.complete t u time hi hu hle
    exact ⟨row, List.mem_filter.2 ⟨hrow, by simpa using hne⟩, hh, rfl, he⟩
  · rw [hdrawn]
    exact fun t u time hi => h.issuedDrawn t u time (hsince.1 hi).1
  · rw [hdrawn]
    exact h.usedDrawn

/-- a row of the token that has not expired -/
def Holds (L : Library) (s : St) (t : String) (row : RefreshToken) : Prop :=
  row ∈ s.refreshTokens ∧ row.tokenHash = L.hashToken t ∧ ¬ row.expiresAt < s.now

/-- **refresh** without a row, with an expired row, and with a row that is good. -/
theorem Inv.refresh_cases (h : Inv L s log used) (token : Option String) :
    (∃ e, refresh L up token s = .error e s ∧ ∀ t row, token = some t → ¬ Holds L s t row) ∨
    (∃ t old e, token = some t ∧ old ∈ s.refreshTokens ∧ old.tokenHash = L.hashToken t ∧ old.expiresAt < s.now ∧
      refresh L up token s = .error e (s.delete old)) ∨
    ∃ t old user response, token = some t ∧ Holds L s t old ∧ user ∈ s.users ∧ user.id = old.userId ∧
      refresh L up token s = .ok response (issued L (s.delete old) user "auth.token.refresh") ∧
      response.accessToken.subject = user.id ∧ response.refreshToken = L.uuidText s.drawn := by
  by_cases hpres : ∃ old, Presents L up token s old
  swap
  · obtain ⟨e, hrun⟩ := refresh_unknown hpres
    refine Or.inl ⟨e, hrun, ?_⟩
    rintro t row rfl ⟨hrow, hhash, -⟩
    have hfind : s.findByTokenHash (L.hashToken t) = some row :=
      find?_eq_of_unique hrow (by simpa using hhash) fun row' hrow' hhash' =>
        eq_of_key h.hashes hrow' hrow ((by simpa using hhash' : row'.tokenHash = L.hashToken t).trans hhash.symm)
    exact hpres ⟨row, rfl, hfind⟩
  obtain ⟨old, hp⟩ := hpres
  obtain ⟨t, rfl, hfind⟩ := hp.given
  have hhash : old.tokenHash = L.hashToken t := by simpa using (find?_some_iff_mem hfind).2
  right
  by_cases hexp : old.expiresAt < s.now
  · exact Or.inl ⟨t, old, _, rfl, hp.mem, hhash, hexp, refresh_expired hp hexp rfl⟩
  · obtain ⟨user', huser', hid'⟩ := h.known old hp.mem
    obtain ⟨user, huser⟩ : ∃ user, s.findById old.userId = some user :=
      Option.isSome_iff_exists.1 (List.find?_isSome.2 ⟨user', huser', by simpa using hid'⟩)
    have hmem := find?_some_iff_mem huser
    obtain ⟨response, hrun, hsub, htok⟩ := refresh_exchanged hp hexp rfl ⟨rfl, huser, rfl⟩
    exact Or.inr ⟨t, old, user, response, rfl, ⟨hp.mem, hhash, hexp⟩, hmem.1, by simpa using hmem.2, hrun, hsub, htok⟩

theorem Inv.accepts_iff (h : Inv L s log used) {t : String} : Accepts L s t ↔ ∃ row, Holds L s t row := by
  rcases h.refresh_cases (some t) with ⟨e, hrun, hnone⟩ | ⟨t', old, e, ht, hold, hhash, hexp, hrun⟩ |
    ⟨t', old, user, response, ht, hholds, -, -, hrun, -, -⟩
  · refine ⟨?_, fun ⟨row, hrow⟩ => absurd hrow (hnone t row rfl)⟩
    rintro ⟨response, s', hok⟩
    rw [hrun] at hok
    cases hok
  · cases ht
    refine ⟨?_, ?_⟩
    · rintro ⟨response, s', hok⟩
      rw [hrun] at hok
      cases hok
    · rintro ⟨row, hrow, hrowhash, hnot⟩
      have hsame : row = old := eq_of_key h.hashes hrow hold (hrowhash.trans hhash.symm)
      exact absurd (hsame ▸ hexp) hnot
  · cases ht
    exact ⟨fun _ => ⟨old, hholds⟩, fun _ => ⟨response, _, hrun⟩⟩

/-- The row of a token is there exactly if the answers say that the token is good. -/
theorem Inv.holds_iff (h : Inv L s log used) {t : String} {u : Uuid} : (∃ row, Holds L s t row ∧ row.userId = u) ↔
    ∃ time, IssuedSince log t u time ∧ s.now ≤ time + refreshTtl ∧ ¬ used t := by
  refine ⟨?_, ?_⟩
  · rintro ⟨row, ⟨hrow, hhash, hexp⟩, rfl⟩
    obtain ⟨t', time, hh, he, hi, hu⟩ := h.sound row hrow
    obtain rfl : t' = t := L.hashToken_injective (hh.symm.trans hhash)
    exact ⟨time, hi, he ▸ Nat.not_lt.1 hexp, hu⟩
  · rintro ⟨time, hi, hnow, hu⟩
    obtain ⟨row, hrow, hh, huser, he⟩ := h.complete t u time hi hu hnow
    exact ⟨row, ⟨hrow, hh, he ▸ Nat.not_lt.2 hnow⟩, huser⟩

end Invariant

/-- the invariant of a service whose exchanged tokens are those that it has answered for -/
abbrev Tied (L : Library) (y : Sys) : Prop := Inv L y.st y.log (Used y.log)

theorem inv_start (L : Library) (users : List User) (now drawn : ℕ) : Tied L (start users now drawn) := by
  have hnone : ∀ t u time, ¬ IssuedSince (start users now drawn).log t u time := by
    rintro t u time ⟨before, x, after, heq, -⟩
    cases before <;> cases heq
  refine ⟨List.nodup_nil, nofun, nofun, fun t u time hi => absurd hi (hnone t u time),
    fun t u time hi => absurd hi (hnone t u time), ?_⟩
  rintro t ⟨response, time, hmem⟩
  cases hmem

/-- what an exchange of `t` does to the invariant -/
theorem Inv.exchange {L : Library} {s : St} {log : List Answer} (h : Inv L s log (Used log)) {t : String}
    {old : RefreshToken} {user : User} {response : LoginResponse} (hholds : Holds L s t old) (huser : user ∈ s.users)
    (hsub : response.accessToken.subject = user.id) (htok : response.refreshToken = L.uuidText s.drawn) :
    Inv L (issued L (s.delete old) user "auth.token.refresh") (log ++ [.refreshed t response s.now])
      (Used (log ++ [.refreshed t response s.now])) := by
  have hdel : Inv L (s.delete old) log (Used (log ++ [.refreshed t response s.now])) := by
    refine h.delete hholds.1 hholds.2.1 (fun t' hu => used_snoc.2 (Or.inl hu)) ?_
      (Or.inl (used_snoc.2 (Or.inr ⟨response, s.now, rfl⟩)))
    intro t' hne hu
    rcases used_snoc.1 hu with hu | ⟨_, _, heq⟩
    · exact hu
    · exact absurd (Answer.refreshed.inj heq).1.symm hne
  refine hdel.issue huser "auth.token.refresh" ?_ nofun
  intro t' u time
  simp only [Answer.Issues, htok, hsub, St.delete]

theorem inv_step {L : Library} {y : Sys} (h : Tied L y) (q : Request) : Tied L (step L y q) := by
  cases q with
  | register send request => exact h.quiet (registerUser_quiet L send request y.st)
  | login request =>
    simp only [step]
    rcases login_cases L request y.st with ⟨e, s', hrun, hq⟩ | ⟨user, huser, response, hrun, hsub, htok⟩
    · rw [hrun]
      exact h.quiet hq
    · rw [hrun]
      have hused : Used (y.log ++ [.loggedIn response y.st.now]) = Used y.log := used_snoc_other nofun
      simp only [Tied, hused]
      refine h.issue huser _ ?_ nofun
      intro t u time
      simp only [Answer.Issues, htok, hsub]
  | refresh token =>
    simp only [step]
    rcases h.refresh_cases token with ⟨e, hrun, -⟩ | ⟨t, old, e, rfl, hold, hhash, hexp, hrun⟩ |
      ⟨t, old, user, response, rfl, hholds, huser, -, hrun, hsub, htok⟩
    · rw [hrun]
      exact h
    · rw [hrun]
      exact h.delete hold hhash (fun _ => id) (fun _ _ => id) (Or.inr hexp)
    · rw [hrun]
      exact h.exchange hholds huser hsub htok
  | logout authHeader =>
    simp only [step]
    rcases logout_cases L authHeader y.st with ⟨hst, hlog⟩ | ⟨userId, s', hst, hlog, htokens, husers, hdrawn, hnow⟩
    · rw [hst, hlog, List.append_nil]
      exact h
    · rw [hst, hlog]
      have hused : Used (y.log ++ [.loggedOut userId]) = Used y.log := used_snoc_other nofun
      simp only [Tied, hused]
      exact h.logout htokens husers hdrawn hnow
  | tick elapsed => exact h.quiet ⟨rfl, fun _ h => h, le_rfl, Nat.le_add_right _ _⟩

theorem reached_inv (L : Library) (users : List User) (now drawn : ℕ) (requests : List Request) :
    Tied L (run (step L) (start users now drawn) requests) :=
  run_inv' (I := Tied L) (fun _ q h => inv_step h q) (inv_start L users now drawn) requests

/-! ## The law -/

section Others

variable {L : Library} {s : St} {t t' : String} {old row : RefreshToken}

theorem Holds.of_delete (h : Holds L (s.delete old) t row) : Holds L s t row := ⟨(List.mem_filter.1 h.1).1, h.2⟩

/-- a row of another token stays -/
theorem holds_delete (hold : old ∈ s.refreshTokens) (hhash : old.tokenHash = L.hashToken t) (hne : t' ≠ t) :
    Holds L (s.delete old) t' row ↔ Holds L s t' row := by
  refine ⟨Holds.of_delete, ?_⟩
  rintro ⟨hrow, hrowhash, hexp⟩
  refine ⟨List.mem_filter.2 ⟨hrow, ?_⟩, hrowhash, hexp⟩
  simp only [decide_eq_true_eq]
  intro hid
  have hsame : row = old := eq_of_key s.refreshTokensPk hrow hold hid
  subst hsame
  exact hne (L.hashToken_injective (hrowhash.symm.trans hhash))

theorem holds_issued {user : User} {eventType : String} (hne : t' ≠ L.uuidText s.drawn) :
    Holds L (issued L s user eventType) t' row ↔ Holds L s t' row := by
  refine ⟨?_, fun ⟨hrow, hrest⟩ => ⟨mem_snoc.2 (Or.inl hrow), hrest⟩⟩
  rintro ⟨hrow, hhash, hexp⟩
  rcases mem_snoc.1 hrow with hrow | rfl
  · exact ⟨hrow, hhash, hexp⟩
  · exact absurd (L.hashToken_injective hhash).symm hne

end Others

/-- **The refresh law.** At any point of a history, a refresh goes through exactly for a valid token. The new pair is for
the token's user, and all other tokens are accepted or refused as before. -/
theorem refresh_law (L : Library) (users : List User) (now drawn : ℕ) (requests : List Request) (t : String) :
    let y := run (step L) (start users now drawn) requests
    let y' := step L y (.refresh (some t))
    (Accepts L y.st t ↔ ∃ u, Valid y t u) ∧
      (∀ response s', refresh L up (some t) y.st = .ok response s' → ∃ u, Valid y t u ∧
        response.accessToken.subject = u ∧ Valid y' response.refreshToken u ∧
        ∀ t', t' ≠ t → t' ≠ response.refreshToken → (Accepts L y'.st t' ↔ Accepts L y.st t')) ∧
      (¬ Accepts L y.st t → ∀ t', Accepts L y'.st t' ↔ Accepts L y.st t') := by
  intro y y'
  have h : Tied L y := reached_inv L users now drawn requests
  have h' : Tied L y' := inv_step h _
  refine ⟨?_, ?_, ?_⟩
  · rw [h.accepts_iff]
    refine ⟨?_, ?_⟩
    · rintro ⟨row, hrow⟩
      exact ⟨row.userId, h.holds_iff.1 ⟨row, hrow, rfl⟩⟩
    · rintro ⟨u, hvalid⟩
      obtain ⟨row, hrow, -⟩ := h.holds_iff.2 hvalid
      exact ⟨row, hrow⟩
  · intro response s' hok
    rcases h.refresh_cases (some t) with ⟨e, hrun, -⟩ | ⟨_, old, e, -, -, -, -, hrun⟩ |
      ⟨_, old, user, response', ht, hholds, -, hid, hrun, hsub, htok⟩
    · exact absurd (hrun.symm.trans hok) nofun
    · exact absurd (hrun.symm.trans hok) nofun
    · cases ht
      cases hrun.symm.trans hok
      have hy' : y' = ⟨issued L (y.st.delete old) user "auth.token.refresh", y.log ++ [.refreshed t response y.st.now]⟩ := by
        simp only [y', step, hrun]
        rfl
      have hst : y'.st = issued L (y.st.delete old) user "auth.token.refresh" := by rw [hy']
      refine ⟨user.id, h.holds_iff.1 ⟨old, hholds, hid.symm⟩, hsub, ?_, ?_⟩
      · refine h'.holds_iff.1 ⟨(y.st.delete old).newRefreshToken user.id (L.hashToken response.refreshToken), ?_, rfl⟩
        rw [hst, htok]
        exact ⟨mem_snoc.2 (Or.inr rfl), rfl, Nat.not_lt.2 (Nat.le_add_right _ _)⟩
      · intro t' hne hnew
        rw [h.accepts_iff, h'.accepts_iff, hst]
        refine exists_congr fun row => ?_
        rw [holds_issued (htok ▸ hnew), holds_delete hholds.1 hholds.2.1 hne]
  · intro hno t'
    rcases h.refresh_cases (some t) with ⟨e, hrun, -⟩ | ⟨_, old, e, ht, hold, hhash, -, hrun⟩ |
      ⟨_, old, user, response, -, -, -, -, hrun, -, -⟩
    · have hst : y'.st = y.st := by
        simp only [y', step, hrun]
      rw [hst]
    · cases ht
      have hst : y'.st = y.st.delete old := by
        simp only [y', step, hrun]
      rw [h.accepts_iff] at hno
      rw [h.accepts_iff, h'.accepts_iff, hst]
      by_cases hne : t' = t
      · subst hne
        exact ⟨fun ⟨row, hrow⟩ => ⟨row, hrow.of_delete⟩, fun hyes => absurd hyes hno⟩
      · exact exists_congr fun row => holds_delete hold hhash hne
    · exact absurd ⟨_, _, hrun⟩ hno

end Concordia.Auth.Endpoints
