/-
One-time use of refresh tokens. A refresh looks its token up, deletes the row and saves a successor in three separate
steps. Deleting a row that is already gone is no error, so two refreshes that both found the row both go on.

- `Exclusive`: no refresh finds a token's row while another one, which found it unexpired, has yet to delete it.
- `alone_step`: such a step keeps every token with one exchanger; `exchanged_at_most_once` is the run.
- `exchanged_twice`: two overlapping refreshes both succeed with one token.
-/
import Concordia.Auth.Sequential

namespace Concordia.Auth

open Concordia.Servers (Uuid)
open Concordia.Lib

/-- the token a refresh has found unexpired, while it has yet to delete the row -/
def Phase.deleting (now : ℕ) : Phase → Option Token
  | .found t old => if old.expiresAt < now then none else some t
  | .rotating t _ => some t
  | _ => none

/-- the request is about to look its token up -/
def Phase.isRefresh : Phase → Bool
  | .refresh _ => true
  | _ => false

/-- the token a request has deleted the row of, to exchange it -/
def Phase.spent : Phase → Option Token
  | .rotated t _ | .refreshUser t _ | .refreshed t _ => some t
  | .saving parent _ _ => parent
  | _ => none

/-- the request is exchanging the token, or has exchanged it -/
def Phase.Exchanges (now : ℕ) (p : Phase) (t : Token) : Prop := p.deleting now = some t ∨ p.spent = some t

/-- a refresh that finds the row of its token is the only one between finding and deleting it -/
def Exclusive (C : Crypto) (s : St) : Op → Prop
  | .advance r => ∀ t, s.phase r = .refresh t → (∃ row ∈ s.refreshTokens, row.tokenHash = C.hashToken t) →
    ∀ q, (s.phase q).deleting s.now ≠ some t
  | _ => True

/-- every token has at most one exchanger -/
def Alone (s : St) : Prop :=
  ∀ q q' t, (s.phase q).Exchanges s.now t → (s.phase q').Exchanges s.now t → q = q'

/-- a token that has been spent has no row -/
theorem PhaseOk.gone {C : Crypto} {s : St} {p : Phase} (h : PhaseOk C s p) {t : Token} (ht : p.spent = some t) :
    Gone C s t := by
  cases p with
  | rotated | refreshUser => cases ht; exact h.2
  | refreshed => cases ht; exact h.2
  | saving parent row response =>
    obtain ⟨-, -, -, hpar⟩ := h
    exact (hpar t ht).2
  | _ => cases ht

theorem deleting_of_later {now later : ℕ} (hle : now ≤ later) {p : Phase} {t : Token}
    (h : p.deleting later = some t) : p.deleting now = some t := by
  cases p with
  | found t' old =>
    simp only [Phase.deleting] at h ⊢
    split_ifs at h with he
    rw [if_neg (by omega)]; exact h
  | rotating => exact h
  | _ => cases h

/-- a request that moves to a phase in which it exchanges no other token, or one that nobody exchanges -/
theorem Alone.move {s s' : St} (h : Alone s) {r : ℕ} {p : Phase} (hphase : s'.phase = Function.update s.phase r p)
    (hnow : s'.now = s.now)
    (hp : ∀ t, p.Exchanges s.now t → (s.phase r).Exchanges s.now t ∨ ∀ q, ¬ (s.phase q).Exchanges s.now t) :
    Alone s' := by
  intro q q' t hq hq'
  rw [hphase, hnow] at hq hq'
  by_cases h1 : q = r <;> by_cases h2 : q' = r
  · exact h1.trans h2.symm
  · subst h1
    rw [Function.update_self] at hq; rw [Function.update_of_ne h2] at hq'
    exact (hp t hq).elim (fun hold => h q q' t hold hq') fun hnone => absurd hq' (hnone q')
  · subst h2
    rw [Function.update_self] at hq'; rw [Function.update_of_ne h1] at hq
    exact (hp t hq').elim (fun hold => h q q' t hq hold) fun hnone => absurd hq (hnone q)
  · rw [Function.update_of_ne h1] at hq; rw [Function.update_of_ne h2] at hq'
    exact h q q' t hq hq'

theorem not_exchanges {now : ℕ} {p : Phase} (h1 : p.deleting now = none) (h2 : p.spent = none) (t : Token) :
    ¬ p.Exchanges now t := by
  rintro (h | h)
  · rw [h1] at h; cases h
  · rw [h2] at h; cases h

/-- **One step.** An exclusive step leaves every token with at most one exchanger. -/
theorem alone_step {C : Crypto} {s : St} {o : Op} (hinv : Inv C s) (h : Alone s) (hx : Exclusive C s o) :
    Alone (step C s o) := by
  rcases step_cases C s o with he | ⟨n, he⟩ | ⟨r, ho, -, ht⟩
  · rw [he]; exact h
  · rw [he]
    have hback : ∀ q t, (s.phase q).Exchanges (s.now + n) t → (s.phase q).Exchanges s.now t := fun q t hq =>
      hq.imp (deleting_of_later (Nat.le_add_right _ _)) id
    exact fun q q' t hq hq' => h q q' t (hback q t hq) (hback q' t hq')
  · generalize step C s o = s' at ht ⊢
    cases ht with
    | found t old h0 hold hhash =>
      obtain rfl : o = .advance r := ho.resolve_right (by rw [h0]; simp [Phase.isIdle])
      refine h.move rfl rfl fun t' ht' => Or.inr fun q hq => ?_
      obtain rfl : t' = t := by
        rcases ht' with ht' | ht'
        · simp only [Phase.deleting] at ht'
          split_ifs at ht'
          exact (Option.some.inj ht').symm
        · cases ht'
      -- whoever still has to delete the row is excluded, and whoever deleted it left none to find
      rcases hq with hq | hq
      · exact hx t' h0 ⟨old, hold, hhash⟩ q hq
      · exact (hinv.phase q).gone hq old hold hhash
    | rotating t old h0 he =>
      refine h.move rfl rfl fun t' ht' => Or.inl (Or.inl ?_)
      rcases ht' with ht' | ht' <;> cases ht'
      rw [h0, Phase.deleting, if_neg he]
    | rotated t old h0 =>
      refine h.move rfl rfl fun t' ht' => Or.inl (Or.inl ?_)
      rcases ht' with ht' | ht' <;> cases ht'
      rw [h0]; rfl
    | refreshUser t old user h0 =>
      refine h.move rfl rfl fun t' ht' => Or.inl (Or.inr ?_)
      rcases ht' with ht' | ht' <;> cases ht'
      rw [h0]; rfl
    | issued parent user h0 =>
      refine h.move rfl rfl fun t' ht' => Or.inl (Or.inr ?_)
      rcases ht' with ht' | ht'
      · cases ht'
      · obtain rfl : parent = some t' := ht'
        rw [h0]; rfl
    | saved parent row response h0 =>
      refine h.move rfl rfl fun t' ht' => Or.inl (Or.inr ?_)
      rw [h0]
      cases parent with
      | none => rcases ht' with ht' | ht' <;> cases ht'
      | some t => rcases ht' with ht' | ht' <;> cases ht'; rfl
    | failed | beganLogin | beganRefresh | beganLogout | loginUser | expired | removed | loggedOut =>
      exact h.move rfl rfl fun t' ht' => absurd ht' (not_exchanges rfl rfl t')

theorem alone_init (users : List User) : Alone (init users) := fun _ _ t h => absurd h (not_exchanges rfl rfl t)

/-- **One-time use.** In every run in which no refresh finds a row that another one is about to delete, every refresh
token is exchanged successfully by at most one request. -/
theorem exchanged_at_most_once (C : Crypto) (users : List User) (ops : List Op)
    (h : Along (step C) (Exclusive C) (init users) ops) (t r r' : ℕ) (u u' : Uuid) (new new' : Token)
    (h1 : .refreshed r u t new ∈ (reached C users ops).log)
    (h2 : .refreshed r' u' t new' ∈ (reached C users ops).log) : r = r' := by
  obtain ⟨hinv, halone⟩ : Inv C (reached C users ops) ∧ Alone (reached C users ops) :=
    run_inv (I := fun s => Inv C s ∧ Alone s) (fun s o hI hx => ⟨step_inv C s o hI.1, alone_step hI.1 hI.2 hx⟩)
      ⟨inv_init C users, alone_init users⟩ h
  obtain ⟨_, hr⟩ := hinv.answer _ _ _ _ h1
  obtain ⟨_, hr'⟩ := hinv.answer _ _ _ _ h2
  exact halone r r' t (Or.inr (by rw [hr]; rfl)) (Or.inr (by rw [hr']; rfl))

/-- only a lookup has something to exclude -/
theorem exclusive_of_not_refresh {C : Crypto} {s : St} {r : ℕ} (h : (s.phase r).isRefresh = false) :
    Exclusive C s (.advance r) := by
  intro t ht
  rw [ht] at h
  cases h

theorem exclusive_of_none {C : Crypto} {s : St} {r : ℕ} (h : ∀ q, (s.phase q).deleting s.now = none) :
    Exclusive C s (.advance r) := fun t _ _ q hq => by rw [h q] at hq; cases hq

/-! ## Two overlapping refreshes -/

/-- hashing in unary, plain passwords -/
def unary : Crypto where
  hashToken t := String.ofList (List.replicate t '1')
  passwordMatches password hash := password = hash
  hashToken_injective t t' h := by simpa using congrArg String.length h

def alice : User := ⟨7, "alice", "alice@test.com", "secret123"⟩

/-- alice logs in and gets token 0 -/
def loginOps : List Op := [.login 0 "alice@test.com" "secret123", .advance 0, .advance 0, .advance 0]

theorem exchanged_at_most_once_sequential :
    let ops := loginOps ++ refreshOps 1 0 ++ refreshOps 2 0
    (∃ new, .refreshed 1 7 0 new ∈ (reached unary [alice] ops).log) ∧
      ∀ r u new, .refreshed r u 0 new ∈ (reached unary [alice] ops).log → r = 1 := by
  intro ops
  have hfirst : .refreshed 1 7 0 2 ∈ (reached unary [alice] ops).log := by decide
  -- only the two lookups have something to exclude, and nobody is deleting a row then
  have hq : Along (step unary) (Exclusive unary) (init [alice]) ops := by
    refine ⟨trivial, ?_, ?_, ?_, trivial, ?_, ?_, ?_, ?_, ?_, ?_, trivial, ?_, ?_, ?_, ?_, ?_, ?_, trivial⟩
    case refine_4 => exact exclusive_of_none fun | 0 => by decide | 1 => by decide | n + 2 => rfl
    case refine_10 => exact exclusive_of_none fun | 0 => by decide | 1 => by decide | 2 => by decide | n + 3 => rfl
    all_goals exact exclusive_of_not_refresh (by decide)
  exact ⟨⟨2, hfirst⟩, fun r u new h => exchanged_at_most_once unary [alice] ops hq 0 r 1 u 7 new 2 h hfirst⟩

/-- both refreshes look token 0 up before either deletes its row -/
theorem exchanged_twice :
    let ops := loginOps ++ [Op.refresh 1 0, .refresh 2 0, .advance 1, .advance 2] ++
      List.replicate 5 (.advance 1) ++ List.replicate 5 (.advance 2)
    ¬ ∀ t r r' u u' new new', .refreshed r u t new ∈ (reached unary [alice] ops).log →
      .refreshed r' u' t new' ∈ (reached unary [alice] ops).log → r = r' := by
  intro ops h
  exact absurd (h 0 1 2 7 7 2 4 (by decide) (by decide)) (by decide)

end Concordia.Auth
