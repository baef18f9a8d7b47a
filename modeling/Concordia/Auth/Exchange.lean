/-
`refresh`, call by call: what each failure leaves in the token table.

- `Presents`: the token that is presented has a row.
- `Completes`: after the row is deleted, the user is found and the new row is saved.
- `refresh_untouched`, `refresh_expired`, `refresh_lost`, `refresh_exchanged`: the four ways a refresh ends.
- `exchanged_or_untouched_iff`: a refresh is all or nothing exactly if, for a token that is stored and unexpired, what
  follows the delete goes through. The delete is committed on its own, and nobody puts the row back.
-/
import Concordia.Auth.Accounts

namespace Concordia.Auth.Endpoints

open Concordia.Lib
open Concordia.Servers (Uuid)

/-- the token is found, with its row -/
structure Presents (L : Library) (ok : RefreshCall → Bool) (token : Option String) (s : St) (oldToken : RefreshToken) :
    Prop where
  answered : ok .findByTokenHash = true
  found : (token.map L.hashToken).bind s.findByTokenHash = some oldToken

/-- after the delete, the user is found and the new row is saved -/
structure Completes (ok : RefreshCall → Bool) (s : St) (oldToken : RefreshToken) (user : User) : Prop where
  answered : ok .findById = true
  found : s.findById oldToken.userId = some user
  saved : ok .save = true

section Refresh

variable {L : Library} {ok : RefreshCall → Bool} {token : Option String} {s : St} {oldToken : RefreshToken}

theorem hashOf_some {token : String} : hashOf L (some token) s = .ok (L.hashToken token) s := rfl

theorem Presents.given (h : Presents L ok token s oldToken) :
    ∃ t, token = some t ∧ s.findByTokenHash (L.hashToken t) = some oldToken := by
  cases token with
  | none => exact absurd h.found nofun
  | some t => exact ⟨t, rfl, h.found⟩

theorem Presents.mem (h : Presents L ok token s oldToken) : oldToken ∈ s.refreshTokens := by
  obtain ⟨t, -, hfind⟩ := h.given
  exact (find?_some_iff_mem hfind).1

/-- the lookup, and what comes after it -/
theorem refresh_found (h : Presents L ok token s oldToken) :
    ∃ tokenHash, hashOf L token s = .ok tokenHash s ∧
      query (ok .findByTokenHash) (·.findByTokenHash tokenHash) s = .ok (some oldToken) s := by
  obtain ⟨t, rfl, hfind⟩ := h.given
  refine ⟨L.hashToken t, rfl, ?_⟩
  rw [h.answered, query_ok, hfind]

theorem refresh_unknown (h : ¬ ∃ oldToken, Presents L ok token s oldToken) : ∃ e, refresh L ok token s = .error e s := by
  unfold refresh
  cases token with
  | none => exact ⟨_, bind_error rfl⟩
  | some t =>
    rw [bind_ok hashOf_some]
    cases hok : ok .findByTokenHash with
    | false => exact ⟨_, bind_error query_fails⟩
    | true =>
      rw [bind_ok query_ok]
      cases hfind : s.findByTokenHash (L.hashToken t) with
      | none => exact ⟨_, rfl⟩
      | some oldToken => exact absurd ⟨oldToken, hok, hfind⟩ h

theorem refresh_expired (h : Presents L ok token s oldToken) (hexp : oldToken.expiresAt < s.now)
    (hdel : ok .delete = true) :
    refresh L ok token s = .error (.invalidToken "refresh token expired") (s.delete oldToken) := by
  obtain ⟨tokenHash, h1, h2⟩ := refresh_found h
  unfold refresh
  rw [bind_ok h1, bind_ok h2]
  simp only
  rw [bind_ok query_ok, decide_eq_true hexp, if_pos rfl, hdel]
  rfl

/-- a delete that fails leaves the row, expired or not -/
theorem refresh_undeleted (h : Presents L ok token s oldToken) (hdel : ok .delete = false) :
    refresh L ok token s = .error .dataAccess s := by
  obtain ⟨tokenHash, h1, h2⟩ := refresh_found h
  unfold refresh
  rw [bind_ok h1, bind_ok h2]
  simp only
  rw [bind_ok query_ok, hdel]
  split_ifs
  · rfl
  · rfl

/-- **Lost.** The row is deleted and no new one takes its place. -/
theorem refresh_lost (h : Presents L ok token s oldToken) (hexp : ¬ oldToken.expiresAt < s.now) (hdel : ok .delete = true)
    (hcomp : ¬ ∃ user, Completes ok s oldToken user) : ∃ e, refresh L ok token s = .error e (s.delete oldToken) := by
  obtain ⟨tokenHash, h1, h2⟩ := refresh_found h
  unfold refresh
  rw [bind_ok h1, bind_ok h2]
  simp only
  rw [bind_ok query_ok, decide_eq_false hexp, if_neg Bool.false_ne_true, hdel, bind_ok update_ok]
  cases hok : ok .findById with
  | false => exact ⟨_, bind_error query_fails⟩
  | true =>
    rw [bind_ok query_ok]
    cases huser : (s.delete oldToken).findById oldToken.userId with
    | none => exact ⟨_, rfl⟩
    | some user =>
      cases hsave : ok .save with
      | false => exact ⟨_, rfl⟩
      | true => exact absurd ⟨user, hok, huser, hsave⟩ hcomp

/-- what is left when a token is issued to a user -/
def issued (L : Library) (s : St) (user : User) (eventType : String) : St :=
  let s' := s.saveRefreshToken user.id (L.hashToken (L.uuidText s.drawn))
  { s' with audit := s'.audit ++ [⟨eventType, [("user_id", L.uuidText user.id)], [], "success", []⟩] }

theorem refresh_exchanged {user : User} (h : Presents L ok token s oldToken) (hexp : ¬ oldToken.expiresAt < s.now)
    (hdel : ok .delete = true) (hcomp : Completes ok s oldToken user) :
    ∃ response, refresh L ok token s = .ok response (issued L (s.delete oldToken) user "auth.token.refresh") ∧
      response.accessToken.subject = user.id ∧ response.refreshToken = L.uuidText s.drawn := by
  obtain ⟨tokenHash, h1, h2⟩ := refresh_found h
  have huser : (s.delete oldToken).findById oldToken.userId = some user := hcomp.found
  unfold refresh
  rw [bind_ok h1, bind_ok h2]
  simp only
  rw [bind_ok query_ok, decide_eq_false hexp, if_neg Bool.false_ne_true, hdel, bind_ok update_ok, hcomp.answered,
    bind_ok query_ok, huser, hcomp.saved]
  exact ⟨_, rfl, rfl, rfl⟩

end Refresh

/-- a delete takes an existing row away -/
theorem delete_ne {s : St} {row : RefreshToken} (hrow : row ∈ s.refreshTokens) :
    (s.delete row).refreshTokens ≠ s.refreshTokens := by
  intro heq
  rw [← heq] at hrow
  simpa using (List.mem_filter.1 hrow).2

/-- all or nothing: the old row is replaced by the new one, or the table is as before, but for an expired row -/
def Exchanges (L : Library) (ok : RefreshCall → Bool) (token : Option String) (s : St) : Prop :=
  match refresh L ok token s with
  | .ok response s' => ∃ oldToken new, (token.map L.hashToken).bind s.findByTokenHash = some oldToken ∧
    new.tokenHash = L.hashToken response.refreshToken ∧ new.userId = oldToken.userId ∧
    s'.refreshTokens = s.refreshTokens.filter (·.id ≠ oldToken.id) ++ [new]
  | .error _ s' => s'.refreshTokens = s.refreshTokens ∨ ∃ oldToken,
    (token.map L.hashToken).bind s.findByTokenHash = some oldToken ∧ oldToken.expiresAt < s.now ∧
      s'.refreshTokens = s.refreshTokens.filter (·.id ≠ oldToken.id)

/-- **A refresh is atomic** exactly if, once it has deleted an unexpired row, the user is found and the new row saved. -/
theorem exchanged_or_untouched_iff (L : Library) (ok : RefreshCall → Bool) (token : Option String) (s : St) :
    Exchanges L ok token s ↔ ∀ oldToken, Presents L ok token s oldToken → ¬ oldToken.expiresAt < s.now →
      ok .delete = true → ∃ user, Completes ok s oldToken user := by
  unfold Exchanges
  by_cases hpres : ∃ oldToken, Presents L ok token s oldToken
  swap
  · obtain ⟨e, hrun⟩ := refresh_unknown hpres
    rw [hrun]
    exact ⟨fun _ oldToken h => absurd ⟨oldToken, h⟩ hpres, fun _ => Or.inl rfl⟩
  obtain ⟨oldToken, h⟩ := hpres
  have huniq : ∀ row, Presents L ok token s row → row = oldToken := fun row hrow =>
    Option.some.inj (hrow.found.symm.trans h.found)
  cases hdel : ok .delete with
  | false =>
    rw [refresh_undeleted h hdel]
    exact ⟨fun _ _ _ _ => nofun, fun _ => Or.inl rfl⟩
  | true =>
    by_cases hexp : oldToken.expiresAt < s.now
    · rw [refresh_expired h hexp hdel]
      exact ⟨fun _ row hrow hnot => absurd (huniq row hrow ▸ hexp) hnot, fun _ => Or.inr ⟨oldToken, h.found, hexp, rfl⟩⟩
    · by_cases hcomp : ∃ user, Completes ok s oldToken user
      · obtain ⟨user, hc⟩ := hcomp
        obtain ⟨response, hrun, -, htoken⟩ := refresh_exchanged h hexp hdel hc
        have hid : user.id = oldToken.userId := by simpa using (find?_some_iff_mem hc.found).2
        rw [hrun]
        refine ⟨fun _ row hrow _ _ => huniq row hrow ▸ ⟨user, hc⟩, fun _ => ?_⟩
        exact ⟨oldToken, _, h.found, congrArg L.hashToken htoken.symm, hid, rfl⟩
      · obtain ⟨e, hrun⟩ := refresh_lost h hexp hdel hcomp
        rw [hrun]
        refine ⟨?_, fun hall => absurd (hall oldToken h hexp rfl) hcomp⟩
        -- the row is gone although it had not expired
        rintro (heq | ⟨row, hfound, hrowexp, -⟩)
        · exact absurd heq (delete_ne h.mem)
        · rw [h.found] at hfound
          exact absurd (Option.some.inj hfound ▸ hrowexp) hexp

/-- alice holds one token -/
def signedIn : St := (emptySt.withAccount [] [] alice).saveRefreshToken 0 "00000000-0000-4000-8000-000000000000"

/-- the save fails, and alice's retry with the same token is refused -/
theorem token_lost :
    ¬ Exchanges readable (· ≠ .save) (some "00000000-0000-4000-8000-000000000000") signedIn ∧
      ∃ s', refresh readable (· ≠ .save) (some "00000000-0000-4000-8000-000000000000") signedIn = .error .dataAccess s' ∧
        postRefresh readable (fun _ => true) (some "00000000-0000-4000-8000-000000000000") s' =
          ⟨401, .error "invalid token"⟩ := by
  refine ⟨?_, _, rfl, by decide⟩
  rintro (heq | ⟨oldToken, hfound, hexp, -⟩)
  · have hgone : [] = signedIn.refreshTokens := heq
    cases hgone
  · cases hfound
    exact absurd hexp (by decide)

end Concordia.Auth.Endpoints
