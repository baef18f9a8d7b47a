/-
Finality of logout. `deleteByUserId` removes the rows that are stored at one instant; a refresh under way at that instant
has its row in hand, and saves a successor afterwards.

- `Descends log t₀ t`: `t` comes from `t₀` through refreshes.
- `Doomed log before u t`: `t` descends from a login of `u` in the part `before` of the log, where a logout began.
- `Undisturbed`: no logout deletes while a refresh of a doomed token is under way.
- `Sealed`: once a logout has returned, a doomed token has no row and no refresh under way, and is never accepted.
- `logout_final`: the run. `accepted_after_logout`: a refresh under way at the logout outlives it.
-/
import Concordia.Auth.Rotation

namespace Concordia.Auth

open Concordia.Servers (Uuid)
open Concordia.Lib

/-- `t` comes from `t₀` through any number of refreshes -/
inductive Descends (log : List Event) (t₀ : Token) : Token → Prop where
  | refl : Descends log t₀ t₀
  | refreshed {r : ℕ} {u : Uuid} {old new : Token} (h : Descends log t₀ old) (he : .refreshed r u old new ∈ log) :
    Descends log t₀ new

/-- `t` descends from a login of `u` that was answered in the part `before` of the log -/
def Doomed (log before : List Event) (u : Uuid) (t : Token) : Prop :=
  ∃ t₀ q, .loggedIn q u t₀ ∈ before ∧ Descends log t₀ t

/-- the token a refresh is exchanging: found unexpired, its successor not yet saved -/
def Phase.underway (now : ℕ) : Phase → Option Token
  | .found t old => if old.expiresAt < now then none else some t
  | .rotating t _ | .rotated t _ | .refreshUser t _ => some t
  | .saving parent _ _ => parent
  | _ => none

/-- no logout deletes while a refresh of a token it should end is under way -/
def Undisturbed (s : St) : Op → Prop
  | .advance r => ∀ u, s.phase r = .logout u → ∀ before after, s.log = before ++ Event.logoutBegan r u :: after →
    ∀ q t, (s.phase q).underway s.now = some t → ¬ Doomed s.log before u t
  | _ => True

/-! ## Descent and the log -/

/-- a new event adds no descendant unless it refreshes one -/
theorem descends_snoc {log : List Event} {e : Event} {t₀ t : Token} (h : Descends (log ++ [e]) t₀ t)
    (he : ∀ r u old new, e = .refreshed r u old new → ¬ Descends log t₀ old) : Descends log t₀ t := by
  induction h with
  | refl => exact .refl
  | refreshed _ hm ih =>
    rcases mem_snoc.1 hm with hm | rfl
    · exact .refreshed ih hm
    · exact absurd ih (he _ _ _ _ rfl)

theorem descends_issued {C : Crypto} {s : St} (h : Inv C s) {t₀ t : Token} {u : Uuid} (h0 : Issued s.log t₀ u)
    (hd : Descends s.log t₀ t) : Issued s.log t u := by
  induction hd with
  | refl => exact h0
  | refreshed _ he ih =>
    obtain rfl := h.user _ _ _ ih (h.parent _ _ _ _ he)
    exact ⟨_, Or.inr ⟨_, he⟩⟩

theorem Doomed.issued {C : Crypto} {s : St} (h : Inv C s) {before after : List Event} {u : Uuid} {t : Token}
    (hlog : s.log = before ++ after) (hd : Doomed s.log before u t) : Issued s.log t u := by
  obtain ⟨t₀, q, hm, hd⟩ := hd
  exact descends_issued h ⟨q, Or.inl (by rw [hlog]; exact List.mem_append_left _ hm)⟩ hd

/-- a log that has grown by one event holds a finished logout that it held before, or one that just finished -/
theorem split_snoc {log before mid after : List Event} {e x y : Event}
    (h : log ++ [e] = before ++ x :: (mid ++ y :: after)) :
    (∃ after', after = after' ++ [e] ∧ log = before ++ x :: (mid ++ y :: after')) ∨
      (after = [] ∧ e = y ∧ log = before ++ x :: mid) := by
  rcases List.eq_nil_or_concat' after with rfl | ⟨after', z, rfl⟩
  · right
    have h' : log ++ [e] = (before ++ x :: mid) ++ [y] := by rw [h]; simp
    obtain ⟨h1, h2⟩ := List.append_inj' h' rfl
    exact ⟨rfl, List.singleton_inj.1 h2, h1⟩
  · left
    have h' : log ++ [e] = (before ++ x :: (mid ++ y :: after')) ++ [z] := by rw [h]; simp
    obtain ⟨h1, h2⟩ := List.append_inj' h' rfl
    exact ⟨after', by rw [List.singleton_inj.1 h2], h1⟩

/-! ## The invariant -/

/-- nothing of the token is left: no row, and no refresh under way -/
def Dead (C : Crypto) (s : St) (t : Token) : Prop :=
  Gone C s t ∧ ∀ q, (s.phase q).underway s.now ≠ some t

/-- the tokens a finished logout should end are dead, and have not been accepted since -/
def Sealed (C : Crypto) (s : St) : Prop :=
  ∀ before mid after r u, s.log = before ++ Event.logoutBegan r u :: (mid ++ Event.loggedOut r u :: after) →
    ∀ t, Doomed s.log before u t → Dead C s t ∧ ∀ q v new, .refreshed q v t new ∉ after

/-- a step that brings no dead token back and does not finish a logout -/
theorem Sealed.grow {C : Crypto} {s s' : St} (hinv : Inv C s) (h : Sealed C s) {more : List Event}
    (hlog : s'.log = s.log ++ more) (hmore : more = [] ∨ ∃ e, more = [e] ∧ ∀ r u, e ≠ .loggedOut r u)
    (hdead : ∀ t u, Issued s.log t u → Dead C s t → Dead C s' t)
    (hev : ∀ r u old new, .refreshed r u old new ∈ more → ¬ Dead C s old) : Sealed C s' := by
  intro before mid after r u hsplit t hdoom
  rw [hlog] at hsplit hdoom
  rcases hmore with rfl | ⟨e, rfl, he⟩
  · rw [List.append_nil] at hsplit hdoom
    obtain ⟨hd, hnot⟩ := h before mid after r u hsplit t hdoom
    exact ⟨hdead t u (hdoom.issued hinv hsplit) hd, hnot⟩
  · rcases split_snoc hsplit with ⟨after', rfl, hsplit'⟩ | ⟨-, rfl, -⟩
    · obtain ⟨t₀, q, hm, hdesc⟩ := hdoom
      have hold : Descends s.log t₀ t := descends_snoc hdesc fun r' u' old new e' hold =>
        hev r' u' old new (by rw [e']; exact List.mem_singleton_self _)
          (h before mid after' r u hsplit' old ⟨t₀, q, hm, hold⟩).1
      have hdoom' : Doomed s.log before u t := ⟨t₀, q, hm, hold⟩
      obtain ⟨hd, hnot⟩ := h before mid after' r u hsplit' t hdoom'
      refine ⟨hdead t u (hdoom'.issued hinv hsplit') hd, ?_⟩
      intro q' v new hmem
      rcases mem_snoc.1 hmem with hmem | rfl
      · exact hnot q' v new hmem
      · exact hev q' v t new (List.mem_singleton_self _) hd
    · exact absurd rfl (he r u)

/-- a request that moves to a phase in which the refresh under way is the one that was, or one of a stored token -/
theorem Dead.move {C : Crypto} {s s' : St} {t : Token} (h : Dead C s t) {r : ℕ} {p : Phase}
    (hphase : s'.phase = Function.update s.phase r p) (hnow : s'.now = s.now) (hgone : Gone C s' t)
    (hp : p.underway s.now = some t → (s.phase r).underway s.now = some t ∨ ¬ Gone C s t) : Dead C s' t := by
  refine ⟨hgone, ?_⟩
  intro q hq
  rw [hphase, hnow] at hq
  by_cases hqr : q = r
  · subst hqr
    rw [Function.update_self] at hq
    exact (hp hq).elim (h.2 q) fun hn => hn h.1
  · rw [Function.update_of_ne hqr] at hq
    exact h.2 q hq

theorem underway_of_later {now later : ℕ} (hle : now ≤ later) {p : Phase} {t : Token}
    (h : p.underway later = some t) : p.underway now = some t := by
  cases p with
  | found t' old =>
    simp only [Phase.underway] at h ⊢
    split_ifs at h with he
    rw [if_neg (by omega)]; exact h
  | rotating | rotated | refreshUser | saving => exact h
  | _ => cases h

/-- a step that stores no row and logs nothing -/
theorem Sealed.quiet {C : Crypto} {s s' : St} (hinv : Inv C s) (h : Sealed C s) {r : ℕ} {p : Phase}
    (hphase : s'.phase = Function.update s.phase r p) (hnow : s'.now = s.now) (hlog : s'.log = s.log)
    (htok : s'.refreshTokens.Sublist s.refreshTokens)
    (hp : ∀ t, p.underway s.now = some t → (s.phase r).underway s.now = some t ∨ ¬ Gone C s t) : Sealed C s' := by
  have hlog' : s'.log = s.log ++ [] := hlog.trans (List.append_nil _).symm
  refine h.grow hinv hlog' (Or.inl rfl) ?_ (by simp)
  intro t u _ hd
  exact hd.move hphase hnow (fun row hrow => hd.1 row (htok.subset hrow)) (hp t)

/-- the save of a refresh that is under way leaves the dead tokens dead -/
theorem Sealed.save {C : Crypto} {s : St} (hinv : Inv C s) (h : Sealed C s) {r : ℕ} {parent : Option Token}
    {row : RefreshToken} {response : LoginResponse} (h0 : s.phase r = .saving parent row response) :
    Sealed C { s with
      refreshTokens := s.refreshTokens ++ [row]
      phase := Function.update s.phase r (answered parent response)
      log := s.log ++ [savedEvent r parent row.userId response.refreshToken] } := by
  have hok := hinv.phase r
  rw [h0] at hok
  obtain ⟨hhash, -, hnew, -⟩ := hok
  refine h.grow hinv rfl (Or.inr ⟨_, rfl, ?_⟩) ?_ ?_
  · intro q u
    cases parent <;> simp [savedEvent]
  · intro t u hi hd
    refine hd.move (p := answered parent response) rfl rfl (fun x hx => ?_) (fun hu => ?_)
    · rcases mem_snoc.1 hx with hx | rfl
      · exact hd.1 x hx
      · exact fun e => hnew u (C.hashToken_injective (hhash.symm.trans e) ▸ hi)
    · cases parent <;> cases hu
  · intro q u old new hm hd
    cases parent with
    | none => simp [savedEvent] at hm
    | some t =>
      obtain rfl : old = t := by simp [savedEvent] at hm; exact hm.2.2.1
      exact hd.2 r (by rw [h0]; rfl)

/-- an undisturbed logout leaves every token it should end dead -/
theorem Sealed.logout {C : Crypto} {s s' : St} (hinv : Inv C s) (h : Sealed C s) {r : ℕ} {u : Uuid}
    (h0 : s.phase r = .logout u) (hx : Undisturbed s (.advance r))
    (hphase : s'.phase = Function.update s.phase r .loggedOut) (hnow : s'.now = s.now)
    (htok : s'.refreshTokens = s.refreshTokens.filter (·.userId ≠ u)) (hlog' : s'.log = s.log ++ [.loggedOut r u]) :
    Sealed C s' := by
  have hsub : s'.refreshTokens.Sublist s.refreshTokens := htok ▸ List.filter_sublist
  have hdead : ∀ t, Dead C s t → Dead C s' t := fun t hd =>
    hd.move hphase hnow (fun row hrow => hd.1 row (hsub.subset hrow)) (fun hu => by cases hu)
  intro before mid after r' u' hsplit t hdoom
  rw [hlog'] at hsplit hdoom
  obtain ⟨t₀, q, hm, hdesc⟩ := hdoom
  have hold : Descends s.log t₀ t := descends_snoc hdesc fun _ _ _ _ e => by cases e
  rcases split_snoc hsplit with ⟨after', rfl, hsplit'⟩ | ⟨rfl, he, hlog⟩
  · obtain ⟨hd, hnot⟩ := h before mid after' r' u' hsplit' t ⟨t₀, q, hm, hold⟩
    refine ⟨hdead t hd, ?_⟩
    intro q' v new hmem
    rcases mem_snoc.1 hmem with hmem | e
    · exact hnot q' v new hmem
    · cases e
  · cases he
    have hdoom : Doomed s.log before u t := ⟨t₀, q, hm, hold⟩
    refine ⟨⟨?_, ?_⟩, fun _ _ _ hmem => by cases hmem⟩
    · intro row hrow e
      -- a row of the token would be a row of the user, and those are gone
      rw [htok] at hrow
      obtain ⟨hrow, hne⟩ := List.mem_filter.1 hrow
      obtain ⟨t', ht', hi⟩ := hinv.row row hrow
      obtain rfl : t' = t := C.hashToken_injective (ht'.symm.trans e)
      exact of_decide_eq_true hne (hinv.user _ _ _ hi (hdoom.issued hinv hlog))
    · intro q' hq'
      rw [hphase, hnow] at hq'
      by_cases hq : q' = r
      · rw [hq, Function.update_self] at hq'; cases hq'
      · rw [Function.update_of_ne hq] at hq'
        exact hx u h0 before mid hlog q' t hq' hdoom

/-- **One step.** An undisturbed step keeps the tokens of finished logouts dead. -/
theorem sealed_step {C : Crypto} {s : St} {o : Op} (hinv : Inv C s) (h : Sealed C s) (hx : Undisturbed s o) :
    Sealed C (step C s o) := by
  rcases step_cases C s o with he | ⟨n, he⟩ | ⟨r, ho, -, ht⟩
  · rw [he]; exact h
  · rw [he]
    exact h.grow hinv (List.append_nil s.log).symm (Or.inl rfl)
      (fun t u _ hd => ⟨hd.1, fun q hq => hd.2 q (underway_of_later (Nat.le_add_right _ _) hq)⟩) (by simp)
  · generalize step C s o = s' at ht ⊢
    cases ht with
    | failed | beganLogin | beganRefresh | loginUser | expired =>
      exact h.quiet hinv rfl rfl rfl (List.Sublist.refl _) fun t hu => by cases hu
    | removed t old h0 => exact h.quiet hinv rfl rfl rfl List.filter_sublist fun t hu => by cases hu
    | found t old h0 hold hhash =>
      refine h.quiet hinv rfl rfl rfl (List.Sublist.refl _) fun t' hu => Or.inr fun hg => ?_
      simp only [Phase.underway] at hu
      split_ifs at hu
      cases hu
      exact hg old hold hhash
    | rotating t old h0 he =>
      refine h.quiet hinv rfl rfl rfl (List.Sublist.refl _) fun t' hu => Or.inl ?_
      rw [h0, Phase.underway, if_neg he]; exact hu
    | rotated t old h0 =>
      exact h.quiet hinv rfl rfl rfl List.filter_sublist fun t' hu => Or.inl (by rw [h0]; exact hu)
    | refreshUser t old user h0 =>
      exact h.quiet hinv rfl rfl rfl (List.Sublist.refl _) fun t' hu => Or.inl (by rw [h0]; exact hu)
    | issued parent user h0 =>
      refine h.quiet hinv rfl rfl rfl (List.Sublist.refl _) fun t' hu => Or.inl ?_
      obtain rfl : parent = some t' := hu
      rw [h0]; rfl
    | saved parent row response h0 => exact h.save hinv h0
    | beganLogout u =>
      refine h.grow hinv rfl (Or.inr ⟨_, rfl, by simp⟩) ?_ (by simp)
      intro t v _ hd
      exact hd.move (p := .logout u) rfl rfl hd.1 fun hu => by cases hu
    | loggedOut u h0 =>
      obtain rfl : o = .advance r := ho.resolve_right (by rw [h0]; simp [Phase.isIdle])
      exact h.logout hinv h0 hx rfl rfl rfl rfl

theorem sealed_init (C : Crypto) (users : List User) : Sealed C (init users) := by
  intro before mid after r u hsplit
  simp [init] at hsplit

/-- **Finality of logout.** In every run in which no logout deletes while a refresh of a token that it should end is
under way: once a logout of `u` has returned, no token that descends from a login of `u` answered before the logout
began is accepted. -/
theorem logout_final (C : Crypto) (users : List User) (ops : List Op)
    (h : Along (step C) Undisturbed (init users) ops) (before mid after : List Event) (r : ℕ) (u : Uuid)
    (hlog : (reached C users ops).log = before ++ Event.logoutBegan r u :: (mid ++ Event.loggedOut r u :: after))
    (t₀ q : ℕ) (h0 : .loggedIn q u t₀ ∈ before) (t : Token) (ht : Descends (reached C users ops).log t₀ t) :
    ∀ q' v new, .refreshed q' v t new ∉ after := by
  obtain ⟨-, hsealed⟩ : Inv C (reached C users ops) ∧ Sealed C (reached C users ops) :=
    run_inv (I := fun s => Inv C s ∧ Sealed C s) (fun s o hI hx => ⟨step_inv C s o hI.1, sealed_step hI.1 hI.2 hx⟩)
      ⟨inv_init C users, sealed_init C users⟩ h
  exact (hsealed before mid after r u hlog t ⟨t₀, q, h0, ht⟩).2

/-- the request is about to delete its user's rows -/
def Phase.isLogout : Phase → Bool
  | .logout _ => true
  | _ => false

/-- only a logout can be disturbed -/
theorem undisturbed_of_not_logout {s : St} {r : ℕ} (h : (s.phase r).isLogout = false) : Undisturbed s (.advance r) := by
  intro u hu
  rw [hu] at h
  cases h

theorem undisturbed_of_none {s : St} {r : ℕ} (h : ∀ q, (s.phase q).underway s.now = none) :
    Undisturbed s (.advance r) := fun _ _ _ _ _ q t hq => by rw [h q] at hq; cases hq

/-- alice logs in, refreshes token 0 to token 2, logs out, and tries token 2 -/
theorem logout_final_sequential :
    let ops := loginOps ++ refreshOps 1 0 ++ [Op.logout 2 7, .advance 2] ++ refreshOps 3 2
    (reached unary [alice] ops).log =
        [Event.loggedIn 0 7 0, .refreshed 1 7 0 2] ++ Event.logoutBegan 2 7 :: ([] ++ Event.loggedOut 2 7 :: []) ∧
      ∀ q v new, .refreshed q v 2 new ∉ ([] : List Event) := by
  intro ops
  have hlog : (reached unary [alice] ops).log =
      [Event.loggedIn 0 7 0, .refreshed 1 7 0 2] ++ Event.logoutBegan 2 7 :: ([] ++ Event.loggedOut 2 7 :: []) := by decide
  have hx : Along (step unary) Undisturbed (init [alice]) ops := by
    refine ⟨trivial, ?_, ?_, ?_, trivial, ?_, ?_, ?_, ?_, ?_, ?_, trivial, ?_, trivial, ?_, ?_, ?_, ?_, ?_, ?_, trivial⟩
    case refine_10 => exact undisturbed_of_none fun | 0 => by decide | 1 => by decide | 2 => by decide | n + 3 => rfl
    all_goals exact undisturbed_of_not_logout (by decide)
  have hdesc : Descends (reached unary [alice] ops).log 0 2 := .refreshed (r := 1) (u := 7) .refl (by rw [hlog]; decide)
  exact ⟨hlog, logout_final unary [alice] ops hx _ _ _ 2 7 hlog 0 0 (by decide) 2 hdesc⟩

/-- the refresh has deleted its row when the logout comes, and saves token 2 after it; token 2 is accepted -/
theorem accepted_after_logout :
    let ops := loginOps ++ [Op.refresh 1 0, .advance 1, .advance 1, .advance 1, .logout 2 7, .advance 2,
      .advance 1, .advance 1, .advance 1] ++ refreshOps 3 2
    ¬ ∀ before mid after r u,
      (reached unary [alice] ops).log = before ++ Event.logoutBegan r u :: (mid ++ Event.loggedOut r u :: after) →
      ∀ t₀ q, .loggedIn q u t₀ ∈ before → ∀ t, Descends (reached unary [alice] ops).log t₀ t →
      ∀ q' v new, .refreshed q' v t new ∉ after := by
  intro ops h
  have hlog : (reached unary [alice] ops).log = [Event.loggedIn 0 7 0] ++ Event.logoutBegan 2 7 ::
      ([] ++ Event.loggedOut 2 7 :: [.refreshed 1 7 0 2, .refreshed 3 7 2 4]) := by decide
  have hdesc : Descends (reached unary [alice] ops).log 0 2 := .refreshed (r := 1) (u := 7) .refl (by rw [hlog]; decide)
  exact h _ _ _ 2 7 hlog 0 0 (by decide) 2 hdesc 3 7 4 (by decide)

end Concordia.Auth
