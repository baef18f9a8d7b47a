/-
A refresh that runs on its own, from its lookup to its answer.

- `Known`: every stored row belongs to a known user, in every reachable state (`refresh_tokens.user_id` references `users`).
- `refresh_accepted`: a token with an unexpired row is exchanged.
- `Held`: what it means for the service to hold a token; `held_of_row`.
-/
import Concordia.Auth.Tokens

namespace Concordia.Auth

open Concordia.Servers (Uuid)
open Concordia.Lib

/-! ## Rows of known users -/

def PhaseKnown (users : List User) : Phase → Prop
  | .loginUser user | .refreshUser _ user => user ∈ users
  | .saving _ row _ => ∃ user ∈ users, user.id = row.userId
  | _ => True

structure Known (s : St) : Prop where
  row : ∀ row ∈ s.refreshTokens, ∃ user ∈ s.users, user.id = row.userId
  phase : ∀ r, PhaseKnown s.users (s.phase r)

theorem known_init (users : List User) : Known (init users) := ⟨by simp [init], fun _ => trivial⟩

/-- a step of one request that stores no new row, or a row of a known user -/
theorem Known.move {s s' : St} (h : Known s) {r : ℕ} {p : Phase} (husers : s'.users = s.users)
    (hphase : s'.phase = Function.update s.phase r p)
    (htok : ∀ row ∈ s'.refreshTokens, row ∈ s.refreshTokens ∨ ∃ user ∈ s.users, user.id = row.userId)
    (hp : PhaseKnown s.users p) : Known s' := by
  refine ⟨?_, ?_⟩
  · intro row hrow
    rw [husers]
    exact (htok row hrow).elim (h.row row) id
  · intro q
    rw [husers, hphase]
    by_cases hq : q = r
    · rw [hq, Function.update_self]; exact hp
    · rw [Function.update_of_ne hq]; exact h.phase q

theorem known_step {C : Crypto} {s : St} {o : Op} (h : Known s) : Known (step C s o) := by
  rcases step_cases C s o with he | ⟨n, he⟩ | ⟨r, -, -, ht⟩
  · rw [he]; exact h
  · rw [he]; exact { h with }
  · have hr := h.phase r
    generalize step C s o = s' at ht ⊢
    cases ht with
    | loginUser user hu => exact h.move rfl rfl (fun _ => Or.inl) hu
    | refreshUser t old user h0 hm hu => exact h.move rfl rfl (fun _ => Or.inl) hm
    | issued parent user h0 =>
      rw [h0] at hr
      refine h.move rfl rfl (fun _ => Or.inl) ⟨user, ?_, rfl⟩
      cases parent <;> exact hr
    | saved parent row response h0 =>
      rw [h0] at hr
      refine h.move (p := answered parent response) rfl rfl ?_ (by cases parent <;> trivial)
      intro x hx
      rcases mem_snoc.1 hx with hx | rfl
      · exact Or.inl hx
      · exact Or.inr hr
    | removed | rotated | loggedOut => exact h.move rfl rfl (fun x hx => Or.inl (List.mem_filter.1 hx).1) trivial
    | failed | beganLogin | beganRefresh | beganLogout | found | expired | rotating =>
      exact h.move rfl rfl (fun _ => Or.inl) trivial

theorem reached_known (C : Crypto) (users : List User) (ops : List Op) : Known (reached C users ops) :=
  run_inv' (fun _ _ h => known_step h) (known_init users) ops

/-! ## One refresh, undisturbed -/

/-- a refresh from its lookup to its answer -/
def refreshOps (r : ℕ) (t : Token) : List Op := .refresh r t :: List.replicate 6 (.advance r)

/-- **Acceptance.** A refresh on its own exchanges a token whose row is stored and has not expired. -/
theorem refresh_accepted {C : Crypto} {s : St} (h : Inv C s) (hk : Known s) {t : Token} {row : RefreshToken}
    (hrow : row ∈ s.refreshTokens) (hhash : row.tokenHash = C.hashToken t) (hfresh : s.now ≤ row.expiresAt) {r : ℕ}
    (hr : (s.phase r).isIdle = true) :
    ∃ response, (run (step C) s (refreshOps r t)).phase r = .refreshed t response := by
  have hfind : s.refreshTokens.find? (·.tokenHash = C.hashToken t) = some row :=
    find?_eq_of_unique hrow (decide_eq_true hhash) fun x hx hp =>
      eq_of_key h.hashes hx hrow ((of_decide_eq_true hp).trans hhash.symm)
  obtain ⟨user, huser⟩ : ∃ user, s.users.find? (·.id = row.userId) = some user := by
    obtain ⟨user, hm, hid⟩ := hk.row row hrow
    exact Option.isSome_iff_exists.1 (List.find?_isSome.2 ⟨user, hm, decide_eq_true hid⟩)
  simp [refreshOps, run, step, begin, hr, advance, St.setPhase, St.findByTokenHash, hfind, Nat.not_lt.2 hfresh,
    St.deleteToken, huser, issueTokens, newTokens, answered]

/-- the service holds the token: its row is stored, and until the row expires a refresh with it is answered -/
def Held (C : Crypto) (s : St) (t : Token) : Prop :=
  ∃ row ∈ s.refreshTokens, row.tokenHash = C.hashToken t ∧ (s.now ≤ row.expiresAt →
    ∀ r, (s.phase r).isIdle = true → ∃ response, (run (step C) s (refreshOps r t)).phase r = .refreshed t response)

theorem held_of_row {C : Crypto} {s : St} (h : Inv C s) (hk : Known s) {t : Token} {row : RefreshToken}
    (hrow : row ∈ s.refreshTokens) (hhash : row.tokenHash = C.hashToken t) : Held C s t :=
  ⟨row, hrow, hhash, fun hfresh _ hr => refresh_accepted h hk hrow hhash hfresh hr⟩

end Concordia.Auth
