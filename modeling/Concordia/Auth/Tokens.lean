/-
What is known of refresh tokens in every reachable state, whatever the interleaving.

- `Issued log t u`: the log says that token `t` was handed out to user `u`.
- `PhaseOk`: what a request that is under way may rely on. A request that has deleted the row of its token knows that the
  row never comes back; one that is about to save holds a raw token that nobody has seen.
- `Inv`, `step_inv`, `reached_inv`: the invariant, its step lemma and its run lemma.
-/
import Concordia.Auth.Service

namespace Concordia.Auth

open Concordia.Servers (Uuid)
open Concordia.Lib

/-- the token was handed out to the user, by a login or a refresh -/
def Issued (log : List Event) (t : Token) (u : Uuid) : Prop :=
  ∃ r, .loggedIn r u t ∈ log ∨ ∃ old, .refreshed r u old t ∈ log

theorem Issued.append {log more : List Event} {t : Token} {u : Uuid} (h : Issued log t u) : Issued (log ++ more) t u := by
  obtain ⟨r, h | ⟨old, h⟩⟩ := h
  · exact ⟨r, Or.inl (List.mem_append_left _ h)⟩
  · exact ⟨r, Or.inr ⟨old, List.mem_append_left _ h⟩⟩

theorem issued_snoc {log : List Event} {e : Event} {t : Token} {u : Uuid} :
    Issued (log ++ [e]) t u ↔ Issued log t u ∨ (∃ r, e = .loggedIn r u t) ∨ ∃ r old, e = .refreshed r u old t := by
  simp only [Issued, mem_snoc]
  grind

theorem issued_snoc_saved {log : List Event} {r : ℕ} {parent : Option Token} {v : Uuid} {raw t : Token} {u : Uuid} :
    Issued (log ++ [savedEvent r parent v raw]) t u ↔ Issued log t u ∨ (t = raw ∧ u = v) := by
  rw [issued_snoc]
  cases parent <;> simp [savedEvent, eq_comm, and_comm]

/-- no row of the token is stored -/
def Gone (C : Crypto) (s : St) (t : Token) : Prop := ∀ row ∈ s.refreshTokens, row.tokenHash ≠ C.hashToken t

/-- what a request under way may rely on -/
def PhaseOk (C : Crypto) (s : St) : Phase → Prop
  | .found t old | .rotating t old =>
    Issued s.log t old.userId ∧ ∀ row ∈ s.refreshTokens, row.tokenHash = C.hashToken t → row = old
  | .rotated t old => Issued s.log t old.userId ∧ Gone C s t
  | .refreshUser t user => Issued s.log t user.id ∧ Gone C s t
  | .saving parent row response =>
    row.tokenHash = C.hashToken response.refreshToken ∧ response.refreshToken < s.drawn ∧
      (∀ u, ¬ Issued s.log response.refreshToken u) ∧ ∀ t ∈ parent, Issued s.log t row.userId ∧ Gone C s t
  | .refreshed t _ => (∃ u, Issued s.log t u) ∧ Gone C s t
  | _ => True

/-- the raw token that a request is about to save -/
def Phase.raw : Phase → Option Token
  | .saving _ _ response => some response.refreshToken
  | _ => none

structure Inv (C : Crypto) (s : St) : Prop where
  drawn : ∀ t u, Issued s.log t u → t < s.drawn
  user : ∀ t u v, Issued s.log t u → Issued s.log t v → u = v
  parent : ∀ r u old new, .refreshed r u old new ∈ s.log → Issued s.log old u
  answer : ∀ r u old new, .refreshed r u old new ∈ s.log → ∃ response, s.phase r = .refreshed old response
  row : ∀ row ∈ s.refreshTokens, ∃ t, row.tokenHash = C.hashToken t ∧ Issued s.log t row.userId
  hashes : (s.refreshTokens.map RefreshToken.tokenHash).Nodup
  phase : ∀ r, PhaseOk C s (s.phase r)
  raw : ∀ r r' t, (s.phase r).raw = some t → (s.phase r').raw = some t → r = r'

theorem inv_init (C : Crypto) (users : List User) : Inv C (init users) := by
  constructor <;> simp [init, Issued, PhaseOk, Phase.raw]

/-! ## One lemma for each kind of step -/

/-- what a request relies on survives when rows go and nobody is issued a token -/
theorem PhaseOk.shrink {C : Crypto} {s s' : St} {p : Phase} (h : PhaseOk C s p)
    (hissued : ∀ t u, Issued s'.log t u ↔ Issued s.log t u)
    (htok : ∀ row ∈ s'.refreshTokens, row ∈ s.refreshTokens) (hd : s.drawn ≤ s'.drawn) : PhaseOk C s' p := by
  have hgone : ∀ {t}, Gone C s t → Gone C s' t := fun hg row hrow => hg row (htok row hrow)
  cases p with
  | found t old => exact ⟨(hissued _ _).2 h.1, fun row hrow => h.2 row (htok row hrow)⟩
  | rotating t old => exact ⟨(hissued _ _).2 h.1, fun row hrow => h.2 row (htok row hrow)⟩
  | rotated t old => exact ⟨(hissued _ _).2 h.1, hgone h.2⟩
  | refreshUser t user => exact ⟨(hissued _ _).2 h.1, hgone h.2⟩
  | saving parent row response =>
    obtain ⟨h1, h2, h3, h4⟩ := h
    exact ⟨h1, h2.trans_le hd, fun u hu => h3 u ((hissued _ _).1 hu),
      fun t ht => ⟨(hissued _ _).2 (h4 t ht).1, hgone (h4 t ht).2⟩⟩
  | refreshed t response => exact ⟨h.1.imp fun u hu => (hissued _ _).2 hu, hgone h.2⟩
  | _ => trivial

/-- a step of one request that stores no row -/
theorem Inv.move {C : Crypto} {s s' : St} (h : Inv C s) {r : ℕ} (hr : (s.phase r).final = false) {p : Phase}
    (hphase : s'.phase = Function.update s.phase r p) (htok : s'.refreshTokens.Sublist s.refreshTokens)
    (hd : s.drawn ≤ s'.drawn) (hissued : ∀ t u, Issued s'.log t u ↔ Issued s.log t u)
    (hlog : ∀ q u old new, .refreshed q u old new ∈ s'.log → .refreshed q u old new ∈ s.log)
    (hp : PhaseOk C s' p) (hraw : ∀ t, p.raw = some t → s.drawn ≤ t) : Inv C s' := by
  have hother : ∀ q, q ≠ r → s'.phase q = s.phase q := fun q hq => by rw [hphase, Function.update_of_ne hq]
  have hself : s'.phase r = p := by rw [hphase, Function.update_self]
  have hlt : ∀ q t, (s.phase q).raw = some t → t < s.drawn := by
    intro q t ht
    cases hq : s.phase q with
    | saving parent row response =>
      rw [hq] at ht
      cases ht
      have := h.phase q
      rw [hq] at this
      exact this.2.1
    | _ => rw [hq] at ht; cases ht
  refine ⟨?_, ?_, ?_, ?_,
    ?_, h.hashes.sublist (htok.map _), ?_, ?_⟩
  · intro t u hi
    exact (h.drawn t u ((hissued t u).1 hi)).trans_le hd
  · intro t u v hu hv
    exact h.user t u v ((hissued t u).1 hu) ((hissued t v).1 hv)
  · intro q u old new he
    exact (hissued _ _).2 (h.parent q u old new (hlog q u old new he))
  · intro q u old new he
    obtain ⟨response, hq⟩ := h.answer q u old new (hlog q u old new he)
    have hne : q ≠ r := by rintro rfl; rw [hq] at hr; cases hr
    exact ⟨response, (hother q hne).trans hq⟩
  · intro row hrow
    obtain ⟨t, ht, hi⟩ := h.row row (htok.subset hrow)
    exact ⟨t, ht, (hissued _ _).2 hi⟩
  · intro q
    by_cases hq : q = r
    · rw [hq, hself]; exact hp
    · rw [hother q hq]; exact (h.phase q).shrink hissued (fun row hrow => htok.subset hrow) hd
  · intro q q' t hq hq'
    -- a new raw token has just been drawn, so no other request holds it
    by_cases h1 : q = r <;> by_cases h2 : q' = r
    · exact h1.trans h2.symm
    · subst h1
      rw [hself] at hq; rw [hother q' h2] at hq'
      exact absurd (hlt q' t hq') (Nat.not_lt.2 (hraw t hq))
    · subst h2
      rw [hself] at hq'; rw [hother q h1] at hq
      exact absurd (hlt q t hq) (Nat.not_lt.2 (hraw t hq'))
    · rw [hother q h1] at hq; rw [hother q' h2] at hq'
      exact h.raw q q' t hq hq'

/-- what the other requests rely on survives a save: the saved token is new to everyone -/
theorem PhaseOk.save {C : Crypto} {s s' : St} {p : Phase} (h : PhaseOk C s p) {row : RefreshToken} {raw : Token} {v : Uuid}
    (hissued : ∀ t u, Issued s'.log t u ↔ Issued s.log t u ∨ (t = raw ∧ u = v))
    (htok : s'.refreshTokens = s.refreshTokens ++ [row]) (hd : s'.drawn = s.drawn)
    (hhash : row.tokenHash = C.hashToken raw) (hnew : ∀ u, ¬ Issued s.log raw u) (hraw : p.raw ≠ some raw) :
    PhaseOk C s' p := by
  have hne : ∀ {t u}, Issued s.log t u → row.tokenHash ≠ C.hashToken t := by
    intro t u hi e
    exact hnew u (C.hashToken_injective (hhash.symm.trans e) ▸ hi)
  have hgone : ∀ {t u}, Issued s.log t u → Gone C s t → Gone C s' t := by
    intro t u hi hg x hx
    rw [htok] at hx
    rcases mem_snoc.1 hx with hx | rfl
    · exact hg x hx
    · exact hne hi
  have honly : ∀ {t : Token} {u : Uuid} {old : RefreshToken}, Issued s.log t u →
      (∀ x ∈ s.refreshTokens, x.tokenHash = C.hashToken t → x = old) →
      ∀ x ∈ s'.refreshTokens, x.tokenHash = C.hashToken t → x = old := by
    intro t u old hi ho x hx e
    rw [htok] at hx
    rcases mem_snoc.1 hx with hx | rfl
    · exact ho x hx e
    · exact absurd e (hne hi)
  cases p with
  | found t old => exact ⟨(hissued _ _).2 (Or.inl h.1), honly h.1 h.2⟩
  | rotating t old => exact ⟨(hissued _ _).2 (Or.inl h.1), honly h.1 h.2⟩
  | rotated t old => exact ⟨(hissued _ _).2 (Or.inl h.1), hgone h.1 h.2⟩
  | refreshUser t user => exact ⟨(hissued _ _).2 (Or.inl h.1), hgone h.1 h.2⟩
  | saving parent x response =>
    obtain ⟨h1, h2, h3, h4⟩ := h
    refine ⟨h1, hd ▸ h2, ?_, ?_⟩
    · intro u hu
      rcases (hissued _ _).1 hu with hu | ⟨e, -⟩
      · exact h3 u hu
      · exact hraw (by rw [← e]; rfl)
    · intro t ht
      exact ⟨(hissued _ _).2 (Or.inl (h4 t ht).1), hgone (h4 t ht).1 (h4 t ht).2⟩
  | refreshed t response =>
    obtain ⟨⟨u, hu⟩, hg⟩ := h
    exact ⟨⟨u, (hissued _ _).2 (Or.inl hu)⟩, hgone hu hg⟩
  | _ => trivial

theorem mem_snoc_saved {log : List Event} {r : ℕ} {parent : Option Token} {v : Uuid} {raw : Token} {q : ℕ} {u : Uuid}
    {old new : Token} (h : .refreshed q u old new ∈ log ++ [savedEvent r parent v raw]) :
    .refreshed q u old new ∈ log ∨ (parent = some old ∧ q = r ∧ u = v ∧ new = raw) := by
  rcases mem_snoc.1 h with h | h
  · exact Or.inl h
  · cases parent with
    | none => cases h
    | some t => cases h; exact Or.inr ⟨rfl, rfl, rfl, rfl⟩

theorem Inv.save {C : Crypto} {s : St} (h : Inv C s) {r : ℕ} {parent : Option Token} {row : RefreshToken}
    {response : LoginResponse} (hr : s.phase r = .saving parent row response) :
    Inv C { s with
      refreshTokens := s.refreshTokens ++ [row]
      phase := Function.update s.phase r (answered parent response)
      log := s.log ++ [savedEvent r parent row.userId response.refreshToken] } := by
  have hok := h.phase r
  rw [hr] at hok
  obtain ⟨hhash, hlt, hnew, hpar⟩ := hok
  have hraw : ∀ q, q ≠ r → (s.phase q).raw ≠ some response.refreshToken := by
    intro q hq e
    exact hq (h.raw q r _ e (by rw [hr]; rfl))
  have hother : ∀ q, q ≠ r → PhaseOk C { s with
      refreshTokens := s.refreshTokens ++ [row]
      phase := Function.update s.phase r (answered parent response)
      log := s.log ++ [savedEvent r parent row.userId response.refreshToken] } (s.phase q) := fun q hq =>
    (h.phase q).save (fun _ _ => issued_snoc_saved) rfl rfl hhash hnew (hraw q hq)
  refine ⟨?_, ?_, ?_, ?_,
    ?_, ?_, ?_, ?_⟩
  · intro t u hi
    rcases issued_snoc_saved.1 hi with hi | ⟨rfl, -⟩
    · exact h.drawn t u hi
    · exact hlt
  · intro t u v hu hv
    rcases issued_snoc_saved.1 hu with hu | ⟨rfl, rfl⟩ <;> rcases issued_snoc_saved.1 hv with hv | ⟨e, rfl⟩
    · exact h.user t u v hu hv
    · exact absurd (e ▸ hu) (hnew u)
    · exact absurd hv (hnew v)
    · rfl
  · intro q u old new he
    rcases mem_snoc_saved he with he | ⟨ht, -, rfl, -⟩
    · exact (h.parent q u old new he).append
    · exact (hpar old ht).1.append
  · intro q u old new he
    rcases mem_snoc_saved he with he | ⟨rfl, rfl, -, -⟩
    · obtain ⟨x, hx⟩ := h.answer q u old new he
      have hne : q ≠ r := by rintro rfl; rw [hr] at hx; cases hx
      exact ⟨x, (Function.update_of_ne hne _ _).trans hx⟩
    · exact ⟨response, Function.update_self _ _ _⟩
  · intro x hx
    rcases mem_snoc.1 hx with hx | rfl
    · obtain ⟨t, ht, hi⟩ := h.row x hx
      exact ⟨t, ht, hi.append⟩
    · exact ⟨_, hhash, issued_snoc_saved.2 (Or.inr ⟨rfl, rfl⟩)⟩
  · apply nodup_keys_snoc h.hashes
    intro hm
    obtain ⟨x, hx, e⟩ := List.mem_map.1 hm
    obtain ⟨t, ht, hi⟩ := h.row x hx
    have hsame : t = response.refreshToken := by
      apply C.hashToken_injective
      calc C.hashToken t = x.tokenHash := ht.symm
        _ = row.tokenHash := e
        _ = C.hashToken response.refreshToken := hhash
    exact hnew _ (hsame ▸ hi)
  · intro q
    by_cases hq : q = r
    · subst hq
      simp only [Function.update_self]
      cases parent with
      | none => trivial
      | some t =>
        obtain ⟨hi, hg⟩ := hpar t rfl
        refine ⟨⟨_, hi.append⟩, ?_⟩
        intro x hx
        rcases mem_snoc.1 hx with hx | rfl
        · exact hg x hx
        · exact fun e => hnew _ (C.hashToken_injective (hhash.symm.trans e) ▸ hi)
    · simp only [Function.update_of_ne hq]
      exact hother q hq
  · intro q q' t hq hq'
    by_cases h1 : q = r <;> by_cases h2 : q' = r
    · exact h1.trans h2.symm
    · subst h1; simp only [Function.update_self] at hq; cases parent <;> cases hq
    · subst h2; simp only [Function.update_self] at hq'; cases parent <;> cases hq'
    · simp only [Function.update_of_ne h1] at hq
      simp only [Function.update_of_ne h2] at hq'
      exact h.raw q q' t hq hq'

/-! ## The step and the run lemma -/

theorem Inv.setPhase {C : Crypto} {s : St} (h : Inv C s) {r : ℕ} (hr : (s.phase r).final = false) {p : Phase}
    (hp : PhaseOk C s p) (hraw : p.raw = none) : Inv C (s.setPhase r p) :=
  h.move hr rfl (List.Sublist.refl _) le_rfl (fun _ _ => Iff.rfl) (fun _ _ _ _ he => he)
    (hp.shrink (fun _ _ => Iff.rfl) (fun _ hx => hx) le_rfl) (fun t ht => by rw [hraw] at ht; cases ht)

/-- deleting the row a request found leaves no row of its token -/
theorem gone_deleteToken {C : Crypto} {s : St} {t : Token} {old : RefreshToken}
    (h : ∀ row ∈ s.refreshTokens, row.tokenHash = C.hashToken t → row = old) : Gone C (s.deleteToken old) t := by
  intro row hrow e
  obtain ⟨hm, hne⟩ := List.mem_filter.1 hrow
  exact of_decide_eq_true hne (congrArg RefreshToken.id (h row hm e))

theorem Inv.trans {C : Crypto} {s s' : St} (h : Inv C s) {r : ℕ} (hr : (s.phase r).final = false)
    (ht : Trans C s r s') : Inv C s' := by
  have hok := h.phase r
  cases ht with
  | failed | beganLogin | beganRefresh | loginUser => exact h.setPhase hr trivial rfl
  | expired t old h0 => exact h.setPhase hr trivial rfl
  | found t old h0 hold hhash =>
    refine h.setPhase hr ⟨?_, ?_⟩ rfl
    · obtain ⟨t', ht', hi⟩ := h.row old hold
      rwa [C.hashToken_injective (ht'.symm.trans hhash)] at hi
    · intro row hrow e
      exact eq_of_key h.hashes hrow hold (e.trans hhash.symm)
  | rotating t old h0 =>
    rw [h0] at hok
    exact h.setPhase hr hok rfl
  | refreshUser t old user h0 hm hu =>
    rw [h0] at hok
    exact h.setPhase hr ⟨hu ▸ hok.1, hok.2⟩ rfl
  | removed t old h0 =>
    exact h.move hr rfl List.filter_sublist le_rfl (fun _ _ => Iff.rfl) (fun _ _ _ _ he => he) trivial
      (fun _ ht => by cases ht)
  | rotated t old h0 =>
    rw [h0] at hok
    exact h.move hr rfl List.filter_sublist le_rfl (fun _ _ => Iff.rfl) (fun _ _ _ _ he => he)
      ⟨hok.1, gone_deleteToken hok.2⟩ (fun _ ht => by cases ht)
  | issued parent user h0 =>
    refine h.move hr rfl (List.Sublist.refl _) (Nat.le_add_right _ _) (fun _ _ => Iff.rfl) (fun _ _ _ _ he => he)
      ⟨rfl, Nat.lt_add_of_pos_right (by decide), fun u hu => absurd (h.drawn _ u hu) (Nat.lt_irrefl _), ?_⟩
      (fun t ht => by cases ht; exact le_rfl)
    intro t ht
    obtain rfl : parent = some t := ht
    rw [h0] at hok
    exact hok
  | saved parent row response h0 => exact h.save h0
  | beganLogout userId | loggedOut userId h0 =>
    refine h.move (p := _) hr rfl ?_ le_rfl ?_ ?_ trivial (fun _ ht => by cases ht)
    · first | exact List.Sublist.refl _ | exact List.filter_sublist
    · intro t u
      rw [issued_snoc]; simp
    · intro q u old new he
      exact (mem_snoc.1 he).resolve_right (by simp)

theorem step_inv (C : Crypto) (s : St) (o : Op) (h : Inv C s) : Inv C (step C s o) := by
  rcases step_cases C s o with he | ⟨n, he⟩ | ⟨r, -, hr, ht⟩
  · rw [he]; exact h
  · rw [he]
    exact { h with phase := fun r => (h.phase r).shrink (fun _ _ => Iff.rfl) (fun _ hx => hx) le_rfl }
  · exact h.trans hr ht

/-- the state after a run, from a table of users and no tokens -/
def reached (C : Crypto) (users : List User) (ops : List Op) : St := run (step C) (init users) ops

theorem reached_inv (C : Crypto) (users : List User) (ops : List Op) : Inv C (reached C users ops) :=
  run_inv' (step_inv C) (inv_init C users) ops

end Concordia.Auth
