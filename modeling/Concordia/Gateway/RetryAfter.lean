/-
What the Retry-After of a 429 promises: a user who sends nothing more for that many seconds is not refused again.

The header is the time to live rounded to the nearest second. Rounded down, it ends before the counter does, and the next
request is counted on top of the old ones. Requests of the user that are still before their INCR count too, and so does
every repetition of a command whose answer was lost (at most `retries` of them for one command).

- `Live`, `step_live`: what holds of one user's share at any time; a counter with a time to live has been left by the
  request that made it.
- `spare_step`: INCRs still to come use up what is left of the limit, and no more.
- `honest_iff`: the header is honest iff the requests still to come stay within the limit, together with the old count
  where the header ends before the counter.
- `refused_again`: 59.3 seconds left, and a Retry-After of 59.
-/
import Concordia.Gateway.RateWindow

namespace Concordia.Gateway.RateLimit

open Concordia.Lib
open Function (update update_self update_of_ne)

/-! ## The promise -/

/-- what a user does who has one more request `k` to send and sends it at `deadline` or later -/
def Share.Obedient (retries k deadline : ℕ) (s : Share) : UserOp → Prop
  | .arrive i => i = k ∧ deadline ≤ s.now
  | .command _ o => o.lost ≤ retries
  | .forward _ | .abort _ | .tick _ => True

def Obedient (u : String) (retries k deadline : ℕ) (s : St) (op : Op) : Prop :=
  ∀ o ∈ op.own u, (share u s).Obedient retries k deadline o

/-- the user's next request, sent after `n` seconds without any other, is not refused -/
def Honest (retries n : ℕ) (u : String) (s : St) : Prop :=
  ∀ k, s.phase u k = .absent → ∀ later, Along step (Obedient u retries k (s.now + n * 10 ^ 9)) s later →
    ∀ r, (run step s later).phase u k ≠ .rejected r

/-- the requests of the user that are still before their INCR -/
noncomputable def waiting (u : String) (s : St) : ℕ := {i | s.phase u i = .arrived}.ncard

/-- the nanoseconds left are less than half a second, or not rounded down to whole seconds -/
def RoundedUp (left : ℕ) : Prop := left < 5 * 10 ^ 8 ∨ left % 10 ^ 9 = 0 ∨ 5 * 10 ^ 8 ≤ left % 10 ^ 9

instance (left : ℕ) : Decidable (RoundedUp left) := inferInstanceAs (Decidable (_ ∨ _ ∨ _))

/-- what the counter still holds when the time of the header is over -/
def carried (now expiresAt count : ℕ) (o : Outcome) : ℕ :=
  if o.answered = false ∨ RoundedUp (expiresAt - now) then 0 else count

/-! ## At any time -/

structure Live (s : Share) : Prop where
  positive : ∀ c ∈ s.counter, 0 < c.count
  ahead : ∀ c ∈ s.counter, ∀ e ∈ c.expiresAt, s.now < e ∧ e ≤ s.now + rateWindow
  /-- the request that made the counter is before its EXPIRE -/
  counted : ∀ i, s.phase i = .counted → (∃ c ∈ s.counter, c.expiresAt = none) ∧ ∀ j, s.phase j = .counted → j = i
  finite : {i | s.phase i ≠ .absent}.Finite

theorem live_init (u : String) : Live (share u init) where
  positive := by intro c hc; cases hc
  ahead := by intro c hc; cases hc
  counted := by intro i hi; cases hi
  finite := by
    have hnone : {i | (share u init).phase i ≠ .absent} = ∅ := by
      ext i
      simp [share, init]
    rw [hnone]
    exact Set.finite_empty

theorem finite_update {phase : ℕ → Phase} (h : {i | phase i ≠ .absent}.Finite) (i : ℕ) (p : Phase) :
    {j | update phase i p j ≠ .absent}.Finite := by
  apply (h.insert i).subset
  intro j hj
  by_cases hji : j = i
  · exact .inl hji
  · simp only [Set.mem_ofPred_eq, update_of_ne hji] at hj
    exact .inr hj

/-- a request that moves on, and leaves the counter alone -/
theorem Live.move {s : Share} (h : Live s) (i : ℕ) (p : Phase) (log : List Event) (hp : p ≠ .counted) :
    Live ⟨s.now, s.counter, update s.phase i p, log⟩ := by
  refine ⟨h.positive, h.ahead, ?_, finite_update h.finite i p⟩
  intro j hj
  obtain ⟨hcounter, huniq⟩ := h.counted j (phase_of_update hj hp.symm)
  exact ⟨hcounter, fun j' hj' => huniq j' (phase_of_update hj' hp.symm)⟩

/-- a counter with a time to live has no request before its EXPIRE -/
theorem Live.not_counted {s : Share} (h : Live s) {c : Counter} {e : ℕ} (hc : s.counter = some c)
    (he : c.expiresAt = some e) (i : ℕ) : s.phase i ≠ .counted := by
  intro hi
  obtain ⟨⟨c', hc', hnone⟩, -⟩ := h.counted i hi
  rw [hc, Option.mem_some_iff] at hc'
  rw [← hc', he] at hnone
  cases hnone

theorem incr_some (c : Counter) (n : ℕ) : incr (some c) n = some { c with count := c.count + n } := by
  cases n with
  | zero => rfl
  | succ n => rfl

/-- INCR on no counter makes one without a time to live -/
theorem incr_none {n : ℕ} {c : Counter} (h : c ∈ incr none n) : c = ⟨n, none⟩ ∧ 0 < n := by
  cases n with
  | zero => cases h
  | succ n => exact ⟨(Option.some.inj h).symm, Nat.succ_pos n⟩

/-- INCR, the way it leaves the counter -/
theorem Live.incr {s : Share} (h : Live s) (n : ℕ) : Live { s with counter := RateLimit.incr s.counter n } := by
  cases hc : s.counter with
  | none =>
    have hnot : ∀ i, s.phase i ≠ .counted := by
      intro i hi
      obtain ⟨⟨c, hmem, -⟩, -⟩ := h.counted i hi
      rw [hc] at hmem
      cases hmem
    refine ⟨?_, ?_, fun i hi => absurd hi (hnot i), h.finite⟩
    · intro c hmem
      obtain ⟨rfl, hn⟩ := incr_none hmem
      exact hn
    · intro c hmem e he
      obtain ⟨rfl, -⟩ := incr_none hmem
      cases he
  | some c =>
    rw [incr_some]
    refine ⟨?_, ?_, ?_, h.finite⟩
    · intro c' hmem
      rw [← Option.some.inj hmem]
      exact Nat.add_pos_left (h.positive c hc) n
    · intro c' hmem e he
      rw [← Option.some.inj hmem] at he
      exact h.ahead c hc e he
    · intro i hi
      obtain ⟨⟨c', hmem, hnone⟩, huniq⟩ := h.counted i hi
      rw [hc, Option.mem_some_iff] at hmem
      exact ⟨⟨_, rfl, by rw [hmem]; exact hnone⟩, huniq⟩

theorem Live.not_counted_none {s : Share} (h : Live s) (hc : s.counter = none) (i : ℕ) : s.phase i ≠ .counted := by
  intro hi
  obtain ⟨⟨c, hmem, -⟩, -⟩ := h.counted i hi
  rw [hc] at hmem
  cases hmem

/-- INCR is answered 1 only if it makes the counter -/
theorem incr_one {c₀ : Option Counter} {n : ℕ} {c : Counter} (hpos : ∀ c' ∈ c₀, 0 < c'.count) (hn : 0 < n)
    (h : incr c₀ n = some c) (hone : c.count = 1) : c₀ = none ∧ c.expiresAt = none := by
  cases c₀ with
  | none =>
    obtain ⟨rfl, -⟩ := incr_none h
    exact ⟨rfl, rfl⟩
  | some c' =>
    rw [incr_some] at h
    have hc' := hpos c' rfl
    rw [← Option.some.inj h] at hone
    simp only at hone
    omega

theorem command_live {s : Share} (h : Live s) (i : ℕ) (o : Outcome) : Live (s.step (.command i o)) := by
  simp only [Share.step]
  cases hi : s.phase i with
  | arrived =>
    have hincr := h.incr o.executions
    simp only [limit]
    split
    · next c hans hc =>
      simp only [hc] at hincr
      split_ifs with hone
      · have hexec : 0 < o.executions := by simp [Outcome.executions, hans]
        obtain ⟨hnone, hexp⟩ := incr_one h.positive hexec hc hone
        rw [hc]
        refine ⟨hincr.positive, hincr.ahead, ?_, finite_update h.finite i _⟩
        -- the request that has just made the counter is the only one
        have honly : ∀ j, update s.phase i .counted j = .counted → j = i := by
          intro j hj
          by_contra hji
          rw [update_of_ne hji] at hj
          exact h.not_counted_none hnone j hj
        intro j hj
        exact ⟨⟨c, rfl, hexp⟩, fun j' hj' => (honly j' hj').trans (honly j hj).symm⟩
      · rw [hc]
        exact hincr.move i (.limited c.count) _ (by simp)
      · rw [hc]
        exact hincr.move i .passed _ (by simp)
    · exact hincr.move i .passed _ (by simp)
  | counted =>
    obtain ⟨-, huniq⟩ := h.counted i hi
    simp only [limit]
    refine ⟨?_, ?_, ?_, finite_update h.finite i _⟩
    · intro c hmem
      simp only [RateLimit.expire] at hmem
      split_ifs at hmem
      · exact h.positive c hmem
      · obtain ⟨c₀, hc₀, rfl⟩ := Option.map_eq_some_iff.1 hmem
        exact h.positive c₀ hc₀
    · intro c hmem e he
      simp only [RateLimit.expire] at hmem
      split_ifs at hmem
      · exact h.ahead c hmem e he
      · obtain ⟨c₀, hc₀, rfl⟩ := Option.map_eq_some_iff.1 hmem
        obtain rfl : s.now + rateWindow = e := Option.some.inj he
        exact ⟨Nat.lt_add_of_pos_right (by decide), le_rfl⟩
    · intro j hj
      obtain rfl := huniq j (phase_of_update hj (by simp))
      simp only [update_self] at hj
      cases hj
  | limited n => exact h.move i (.rejected _) _ (by simp)
  | _ =>
    simp only [limit, ← hi, Function.update_eq_self, List.append_nil]
    exact h

/-- handing on is one more move of a request that has been let through -/
theorem forward_eq (s : Share) (i : ℕ) :
    s.step (.forward i) = s ∨ s.phase i = .passed ∧
      s.step (.forward i) = ⟨s.now, s.counter, update s.phase i .forwarded, s.log ++ [.forwarded i]⟩ := by
  simp only [Share.step]
  cases hi : s.phase i with
  | passed => exact .inr ⟨rfl, rfl⟩
  | _ =>
    simp only [serve, List.append_nil, ← hi, Function.update_eq_self]
    exact .inl trivial

theorem step_live {s : Share} {o : UserOp} (h : Live s) : Live (s.step o) := by
  cases o with
  | arrive i =>
    simp only [Share.step]
    split_ifs
    · exact h.move i _ _ (by simp)
    · exact h
  | command i out => exact command_live h i out
  | forward i =>
    rcases forward_eq s i with heq | ⟨-, heq⟩
    · rwa [heq]
    · rw [heq]
      exact h.move i .forwarded _ (by simp)
  | abort i =>
    simp only [Share.step]
    split_ifs
    · exact h.move i _ _ (by simp)
    · exact h
  | tick d =>
    simp only [Share.step]
    refine ⟨?_, ?_, ?_, h.finite⟩
    · intro c hc
      exact h.positive c (Option.filter_eq_some_iff.1 hc).1
    · intro c hc e he
      obtain ⟨hmem, hlater⟩ := Option.filter_eq_some_iff.1 hc
      have hexp : c.expiresAt = some e := he
      have hle := (h.ahead c hmem e he).2
      simp only [Counter.hasExpired, hexp, Option.any_some, Bool.not_eq_eq_eq_not, Bool.not_true, decide_eq_false_iff_not,
        not_le] at hlater
      exact ⟨hlater, by simp only; omega⟩
    · intro i hi
      obtain ⟨⟨c, hmem, hnone⟩, huniq⟩ := h.counted i hi
      refine ⟨⟨c, ?_, hnone⟩, huniq⟩
      exact Option.filter_eq_some_iff.2 ⟨hmem, by simp [Counter.hasExpired, hnone]⟩

theorem live_run (u : String) (ops : List Op) : Live (share u (run step init ops)) := by
  rw [share_run]
  exact run_inv' (fun _ _ h => step_live h) (live_init u) _

/-! ## What is left of the limit -/

/-- the requests whose INCR is still to come, the next one included -/
def Share.Coming (s : Share) (k i : ℕ) : Prop := s.phase i = .arrived ∨ i = k ∧ s.phase i = .absent

/-- the requests to come cannot bring the counter over the limit, and `k` is not over it -/
structure Spare (retries k : ℕ) (s : Share) : Prop where
  within : ∃ coming : Finset ℕ, (∀ i, s.Coming k i → i ∈ coming) ∧ s.count + coming.card * (retries + 1) ≤ rateLimit
  limited : ∀ n, s.phase k ≠ .limited n
  rejected : ∀ r, s.phase k ≠ .rejected r

/-- a request that has got further is no longer to come -/
theorem coming_of_update {s : Share} {k i j : ℕ} {p : Phase} {c : Option Counter} {log : List Event} (hp : p ≠ .arrived)
    (hp' : p ≠ .absent) (h : Share.Coming ⟨s.now, c, update s.phase i p, log⟩ k j) : s.Coming k j ∧ j ≠ i := by
  have hji : j ≠ i := by
    rintro rfl
    rcases h with h | ⟨-, h⟩
    · exact hp (by simpa using h)
    · exact hp' (by simpa using h)
  refine ⟨?_, hji⟩
  simpa only [Share.Coming, update_of_ne hji] using h

/-- the next request is in the phase it was in, unless it is the one that moves -/
theorem phase_k {phase : ℕ → Phase} {i k : ℕ} {p q : Phase} (hk : i = k → p ≠ q) (h : phase k ≠ q) :
    update phase i p k ≠ q := by
  by_cases hki : k = i
  · rw [hki, update_self]
    exact hk hki.symm
  · rwa [update_of_ne hki]

/-- a request that moves on while nothing is added to the counter -/
theorem Spare.move {retries k : ℕ} {s : Share} (h : Spare retries k s) (i : ℕ) (p : Phase) (c : Option Counter)
    (log : List Event) (hp : p ≠ .arrived) (hp' : p ≠ .absent)
    (hlimited : i = k → ∀ n, p ≠ .limited n) (hrejected : i = k → ∀ r, p ≠ .rejected r)
    (hc : Share.count ⟨s.now, c, update s.phase i p, log⟩ ≤ s.count) :
    Spare retries k ⟨s.now, c, update s.phase i p, log⟩ := by
  obtain ⟨coming, hcoming, hle⟩ := h.within
  refine ⟨⟨coming, ?_, by omega⟩, ?_, ?_⟩
  · intro j hj
    exact hcoming j (coming_of_update hp hp' hj).1
  · exact fun n => phase_k (fun hik => hlimited hik n) (h.limited n)
  · exact fun r => phase_k (fun hik => hrejected hik r) (h.rejected r)

theorem count_incr (s : Share) (n : ℕ) : Share.count { s with counter := incr s.counter n } = s.count + n := by
  cases hc : s.counter with
  | none =>
    cases n with
    | zero => simp [Share.count, hc, incr]
    | succ n => simp [Share.count, hc, incr]
  | some c => simp [Share.count, hc, incr_some]

/-- an INCR takes its request out of those to come, and adds no more than was kept for it -/
theorem Spare.incr {retries k : ℕ} {s : Share} (h : Spare retries k s) (i : ℕ) (o : Outcome) (hi : s.phase i = .arrived)
    (ho : o.lost ≤ retries) : Spare retries k (s.step (.command i o)) := by
  obtain ⟨coming, hcoming, hle⟩ := h.within
  have hmem : i ∈ coming := hcoming i (.inl hi)
  have hexec : o.executions ≤ retries + 1 := by
    unfold Outcome.executions
    split_ifs <;> omega
  have hcard : coming.card = (coming.erase i).card + 1 := (Finset.card_erase_add_one hmem).symm
  have hroom : s.count + o.executions + (coming.erase i).card * (retries + 1) ≤ rateLimit := by
    rw [hcard, Nat.succ_mul] at hle
    omega
  have hcount := count_incr s o.executions
  -- whatever INCR answers, the request gets further, and not over the limit
  have hnext : ∀ p log, p ≠ Phase.arrived → p ≠ .absent → (∀ n, p ≠ .limited n) → (∀ r, p ≠ .rejected r) →
      Spare retries k ⟨s.now, RateLimit.incr s.counter o.executions, update s.phase i p, log⟩ := by
    intro p log hp hp' hlimited hrejected
    refine ⟨⟨coming.erase i, ?_, ?_⟩, ?_, ?_⟩
    · intro j hj
      obtain ⟨hold, hji⟩ := coming_of_update hp hp' hj
      exact Finset.mem_erase.2 ⟨hji, hcoming j hold⟩
    · have hsame : Share.count ⟨s.now, RateLimit.incr s.counter o.executions, update s.phase i p, log⟩ =
        s.count + o.executions := hcount
      rw [hsame]
      exact hroom
    · exact fun n => phase_k (fun _ => hlimited n) (h.limited n)
    · exact fun r => phase_k (fun _ => hrejected r) (h.rejected r)
  simp only [Share.step, hi, limit]
  split
  · next c hans hc =>
    have hle' : c.count ≤ rateLimit := by
      simp only [Share.count, hc, Option.map_some, Option.getD_some] at hcount
      rw [hcount]
      exact le_trans (Nat.le_add_right _ _) hroom
    rw [if_neg (not_lt.2 hle')]
    split_ifs
    · exact hnext .counted _ (by simp) (by simp) (by simp) (by simp)
    · exact hnext .passed _ (by simp) (by simp) (by simp) (by simp)
  · exact hnext .passed _ (by simp) (by simp) (by simp) (by simp)

theorem spare_step {retries k deadline : ℕ} {s : Share} {o : UserOp} (h : Spare retries k s)
    (ho : s.Obedient retries k deadline o) : Spare retries k (s.step o) := by
  cases o with
  | arrive i =>
    obtain ⟨rfl, -⟩ := ho
    simp only [Share.step]
    split_ifs with habsent
    · obtain ⟨coming, hcoming, hle⟩ := h.within
      refine ⟨⟨coming, ?_, hle⟩, by simp, by simp⟩
      intro j hj
      by_cases hji : j = i
      · exact hcoming j (.inr ⟨hji, by rw [hji]; exact habsent⟩)
      · simp only [Share.Coming, update_of_ne hji] at hj
        exact hcoming j hj
    · exact h
  | command i out =>
    cases hi : s.phase i with
    | arrived => exact h.incr i out hi ho
    | counted =>
      simp only [Share.step, hi, limit]
      refine h.move i .passed _ _ (by simp) (by simp) (by simp) (by simp) ?_
      simp only [Share.count, count_expire, le_refl]
    | limited n =>
      simp only [Share.step, hi, limit]
      refine h.move i (.rejected _) _ _ (by simp) (by simp) (by simp) ?_ le_rfl
      intro hik
      rw [hik] at hi
      exact absurd hi (h.limited n)
    | _ =>
      simp only [Share.step, limit, hi]
      rw [← hi, Function.update_eq_self, List.append_nil]
      exact h
  | forward i =>
    rcases forward_eq s i with heq | ⟨-, heq⟩
    · rwa [heq]
    · rw [heq]
      exact h.move i .forwarded _ _ (by simp) (by simp) (by simp) (by simp) le_rfl
  | abort i =>
    simp only [Share.step]
    split_ifs
    · exact h.move i .aborted _ _ (by simp) (by simp) (by simp) (by simp) le_rfl
    · exact h
  | tick d =>
    obtain ⟨coming, hcoming, hle⟩ := h.within
    refine ⟨⟨coming, hcoming, ?_⟩, h.limited, h.rejected⟩
    have hcount : (s.step (.tick d)).count ≤ s.count := by
      simp only [Share.step, Share.count]
      cases s.counter with
      | none => simp
      | some c =>
        simp only [Option.filter]
        split_ifs <;> simp
    omega

/-- the counter is to expire before the next request, and those still to come fit a new one -/
structure Ending (retries k e : ℕ) (s : Share) : Prop where
  absent : s.phase k = .absent
  counter : ∃ c ∈ s.counter, c.expiresAt = some e
  coming : ∃ coming : Finset ℕ, (∀ i, s.Coming k i → i ∈ coming) ∧ coming.card * (retries + 1) ≤ rateLimit

/-- a request that moves on while the counter keeps its time to live -/
theorem Ending.move {retries k e : ℕ} {s : Share} (h : Ending retries k e s) {i : ℕ} {p : Phase} {c : Counter}
    {log : List Event} (hi : s.phase i ≠ .absent) (hp : p ≠ .arrived) (hp' : p ≠ .absent)
    (hexp : c.expiresAt = some e) : Ending retries k e ⟨s.now, some c, update s.phase i p, log⟩ := by
  obtain ⟨coming, hcoming, hle⟩ := h.coming
  have hki : k ≠ i := by
    rintro rfl
    exact hi h.absent
  refine ⟨by simp only [update_of_ne hki]; exact h.absent, ⟨c, rfl, hexp⟩, coming, ?_, hle⟩
  exact fun j hj => hcoming j (coming_of_update hp hp' hj).1

theorem ending_step {retries k deadline e : ℕ} {s : Share} {o : UserOp} (h : Ending retries k e s) (hl : Live s)
    (he : e ≤ deadline) (ho : s.Obedient retries k deadline o) :
    Ending retries k e (s.step o) ∨ Spare retries k (s.step o) := by
  obtain ⟨c, hc, hexp⟩ := h.counter
  obtain ⟨coming, hcoming, hle⟩ := h.coming
  have hahead := hl.ahead c hc e hexp
  cases o with
  | arrive i =>
    -- it is not yet time for the next request
    obtain ⟨-, hdeadline⟩ := ho
    omega
  | command i out =>
    left
    have hcounter : s.counter = some c := hc
    have hmoved : ∀ p c' log, s.phase i ≠ .absent → p ≠ Phase.arrived → p ≠ .absent → c'.expiresAt = some e →
        Ending retries k e ⟨s.now, some c', update s.phase i p, log⟩ :=
      fun p c' log hi hp hp' hexp' => h.move hi hp hp' hexp'
    simp only [Share.step]
    cases hi : s.phase i with
    | arrived =>
      simp only [limit, hcounter, incr_some]
      split
      · split_ifs
        · exact hmoved .counted _ _ (by simp [hi]) (by simp) (by simp) hexp
        · exact hmoved (.limited _) _ _ (by simp [hi]) (by simp) (by simp) hexp
        · exact hmoved .passed _ _ (by simp [hi]) (by simp) (by simp) hexp
      · exact hmoved .passed _ _ (by simp [hi]) (by simp) (by simp) hexp
    | counted => exact absurd hi (hl.not_counted hcounter hexp i)
    | limited n =>
      simp only [limit, hcounter]
      exact hmoved (.rejected _) _ _ (by simp [hi]) (by simp) (by simp) hexp
    | _ =>
      simp only [limit, hcounter]
      rw [← hi, Function.update_eq_self]
      exact ⟨h.absent, ⟨c, rfl, hexp⟩, coming, hcoming, hle⟩
  | forward i =>
    left
    rcases forward_eq s i with heq | ⟨hi, heq⟩
    · rwa [heq]
    · rw [heq, show s.counter = some c from hc]
      exact h.move (by simp [hi]) (by simp) (by simp) hexp
  | abort i =>
    left
    simp only [Share.step]
    split_ifs with hopen
    · have hi : s.phase i ≠ .absent := by
        intro hi
        rw [hi] at hopen
        cases hopen
      rw [show s.counter = some c from hc]
      exact h.move hi (by simp) (by simp) hexp
    · exact h
  | tick d =>
    have hcounter : s.counter = some c := hc
    cases hexpired : c.hasExpired (s.now + d) with
    | false =>
      left
      refine ⟨h.absent, ⟨c, ?_, hexp⟩, coming, hcoming, hle⟩
      exact Option.filter_eq_some_iff.2 ⟨hc, by simp [hexpired]⟩
    | true =>
      right
      refine ⟨⟨coming, hcoming, ?_⟩, by simp [Share.step, h.absent], by simp [Share.step, h.absent]⟩
      simpa [Share.step, Share.count, hcounter, Option.filter, hexpired] using hle

/-! ## The header -/

theorem retryAfter_le {now e : ℕ} {c : Counter} (o : Outcome) (he : c.expiresAt = some e) (hle : e ≤ now + rateWindow) :
    retryAfter now (some c) o ≤ 60 := by
  unfold rateWindow at hle
  simp only [retryAfter, ttl, he]
  cases o.answered with
  | false => simp
  | true =>
    simp only [if_true]
    split_ifs
    · exact le_rfl
    · omega

/-- the header ends before the counter exactly if it was rounded down -/
theorem retryAfter_covers {now e : ℕ} {c : Counter} (o : Outcome) (he : c.expiresAt = some e)
    (hle : e ≤ now + rateWindow) :
    e ≤ now + retryAfter now (some c) o * 10 ^ 9 ↔ o.answered = false ∨ RoundedUp (e - now) := by
  unfold rateWindow at hle
  unfold RoundedUp
  simp only [retryAfter, ttl, he]
  cases o.answered with
  | false =>
    simp only [Bool.false_eq_true, if_false, le_refl, if_true, true_or, iff_true]
    exact hle
  | true =>
    simp only [if_true, Bool.true_eq_false, false_or]
    split_ifs <;> omega

/-! ## One user's share -/

def Share.Honest (retries n : ℕ) (s : Share) : Prop :=
  ∀ k, s.phase k = .absent → ∀ later, Along Share.step (Share.Obedient retries k (s.now + n * 10 ^ 9)) s later →
    ∀ r, (run Share.step s later).phase k ≠ .rejected r

/-- the operation, as one of the user's -/
def UserOp.lift (u : String) : UserOp → Op
  | .arrive i => .arrive u i
  | .command i o => .command u i o
  | .forward i => .forward u i
  | .abort i => .abort u i
  | .tick d => .tick d

@[simp] theorem own_lift (u : String) (o : UserOp) : (o.lift u).own u = some o := by
  cases o <;> simp [UserOp.lift, Op.own]

theorem along_lift {u : String} {retries k deadline : ℕ} {s : St} {later : List UserOp}
    (h : Along Share.step (Share.Obedient retries k deadline) (share u s) later) :
    Along step (Obedient u retries k deadline) s (later.map (UserOp.lift u)) := by
  induction later generalizing s with
  | nil => trivial
  | cons o later ih =>
    have hshare : share u (step s (o.lift u)) = (share u s).step o := by
      rw [share_step, own_lift]
      rfl
    refine ⟨?_, ih (by rw [hshare]; exact h.2)⟩
    intro o' ho'
    rw [own_lift, Option.mem_some_iff] at ho'
    rw [← ho']
    exact h.1

theorem honest_share {retries n : ℕ} {u : String} {s : St} : Honest retries n u s ↔ (share u s).Honest retries n := by
  refine ⟨?_, ?_⟩
  · intro h k hk later hlater r hr
    apply h k hk _ (along_lift hlater) r
    have hshare := share_run u s (later.map (UserOp.lift u))
    have hown : (later.map (UserOp.lift u)).filterMap (Op.own u) = later := by
      rw [List.filterMap_map]
      simp
    rw [hown] at hshare
    rw [← hr, ← hshare]
    rfl
  · intro h k hk later hlater r hr
    apply h k hk _ (along_view (share_step u) hlater) r
    rw [← hr, ← share_run]
    rfl

/-- INCR, once more than its answer was lost -/
theorem incr_command {s : Share} {i : ℕ} (retries : ℕ) (hi : s.phase i = .arrived) :
    (s.step (.command i ⟨retries, true⟩)).count = s.count + (retries + 1) ∧
      ∀ j, j ≠ i → (s.step (.command i ⟨retries, true⟩)).phase j = s.phase j := by
  refine ⟨?_, ?_⟩
  · rw [← count_incr]
    simp only [Share.step, Share.count, limit_counter, hi]
    rfl
  · intro j hji
    simp [Share.step, update_of_ne hji]

theorem limited_of_over {s : Share} {i retries : ℕ} (hi : s.phase i = .arrived)
    (hover : rateLimit < (s.step (.command i ⟨retries, true⟩)).count) :
    ∃ n, (s.step (.command i ⟨retries, true⟩)).phase i = .limited n := by
  obtain ⟨c, hc⟩ : ∃ c, incr s.counter (retries + 1) = some c := by
    cases hcounter : s.counter with
    | none => exact ⟨_, rfl⟩
    | some c => exact ⟨_, rfl⟩
  have hexec : Outcome.executions ⟨retries, true⟩ = retries + 1 := rfl
  have hcount : rateLimit < c.count := by
    simpa [Share.step, Share.count, limit_counter, hi, hexec, hc] using hover
  have hone : c.count ≠ 1 := by
    intro h
    rw [h] at hcount
    exact absurd hcount (by decide)
  exact ⟨c.count, by simp [Share.step, limit, hi, hexec, hc, hone, hcount]⟩

/-- all of them at once -/
theorem incr_commands {s : Share} (retries : ℕ) {is : List ℕ} (hnodup : is.Nodup) (his : ∀ i ∈ is, s.phase i = .arrived) :
    (run Share.step s (is.map (.command · ⟨retries, true⟩))).count = s.count + is.length * (retries + 1) ∧
      ∀ j ∉ is, (run Share.step s (is.map (.command · ⟨retries, true⟩))).phase j = s.phase j := by
  induction is generalizing s with
  | nil => simp
  | cons i is ih =>
    obtain ⟨hi, hnodup⟩ := List.nodup_cons.1 hnodup
    obtain ⟨hcount, hphase⟩ := incr_command retries (his i List.mem_cons_self)
    have his' : ∀ j ∈ is, (s.step (.command i ⟨retries, true⟩)).phase j = .arrived := by
      intro j hj
      rw [hphase j (by rintro rfl; exact hi hj)]
      exact his j (List.mem_cons_of_mem i hj)
    obtain ⟨hcount', hphase'⟩ := ih hnodup his'
    rw [List.map_cons, run_cons]
    refine ⟨?_, ?_⟩
    · rw [hcount', hcount, List.length_cons, Nat.succ_mul]
      omega
    · intro j hj
      obtain ⟨hji, hj⟩ := not_or.1 (mt List.mem_cons.2 hj)
      rw [hphase' j hj, hphase j hji]

theorem count_tick {s : Share} {c : Counter} {e : ℕ} (hc : s.counter = some c) (he : c.expiresAt = some e) (d : ℕ) :
    (s.step (.tick d)).count = if e ≤ s.now + d then 0 else c.count := by
  by_cases hexpired : e ≤ s.now + d
  · simp [Share.step, Share.count, hc, Option.filter, Counter.hasExpired, he, hexpired]
  · simp [Share.step, Share.count, hc, Option.filter, Counter.hasExpired, he, hexpired]

/-- the requests to come and the next one fit what is left: the header is honest -/
theorem Share.honest_of_room {s : Share} {retries n e : ℕ} {c : Counter} {waiting : Finset ℕ} (hl : Live s)
    (hwaiting : ∀ i, i ∈ waiting ↔ s.phase i = .arrived) (hc : s.counter = some c) (he : c.expiresAt = some e)
    (hroom : (if e ≤ s.now + n * 10 ^ 9 then 0 else c.count) + (waiting.card + 1) * (retries + 1) ≤ rateLimit) :
    s.Honest retries n := by
  intro k hk later hlater r
  have hkw : k ∉ waiting := by
    rw [hwaiting, hk]
    simp
  have hcoming : ∀ i, s.Coming k i → i ∈ insert k waiting := by
    intro i hi
    rcases hi with hi | ⟨rfl, -⟩
    · exact Finset.mem_insert_of_mem ((hwaiting i).2 hi)
    · exact Finset.mem_insert_self i waiting
  have hcard : (insert k waiting).card = waiting.card + 1 := Finset.card_insert_of_notMem hkw
  have hstart : Live s ∧ (e ≤ s.now + n * 10 ^ 9 ∧ Ending retries k e s ∨ Spare retries k s) := by
    refine ⟨hl, ?_⟩
    by_cases hcovers : e ≤ s.now + n * 10 ^ 9
    · rw [if_pos hcovers, Nat.zero_add, ← hcard] at hroom
      exact .inl ⟨hcovers, hk, ⟨c, hc, he⟩, _, hcoming, hroom⟩
    · rw [if_neg hcovers, ← hcard] at hroom
      refine .inr ⟨⟨_, hcoming, ?_⟩, by simp [hk], by simp [hk]⟩
      simpa [Share.count, hc] using hroom
  obtain ⟨-, hend⟩ := run_inv (I := fun t => Live t ∧ (e ≤ s.now + n * 10 ^ 9 ∧ Ending retries k e t ∨ Spare retries k t))
    (fun t o ht ho => by
      obtain ⟨hlive, hor⟩ := ht
      refine ⟨step_live hlive, ?_⟩
      rcases hor with ⟨hcovers, hexp⟩ | hspare
      · rcases ending_step hexp hlive hcovers ho with h | h
        · exact .inl ⟨hcovers, h⟩
        · exact .inr h
      · exact .inr (spare_step hspare ho))
    hstart hlater
  rcases hend with ⟨-, hexp⟩ | hspare
  · rw [hexp.absent]
    simp
  · exact hspare.rejected r

/-- they do not fit: every one of them is counted, as often as its answer can be lost, and the next one is refused -/
theorem Share.room_of_honest {s : Share} {retries n e : ℕ} {c : Counter} {waiting : Finset ℕ} (hl : Live s)
    (hwaiting : ∀ i, i ∈ waiting ↔ s.phase i = .arrived) (hc : s.counter = some c) (he : c.expiresAt = some e)
    (h : s.Honest retries n) :
    (if e ≤ s.now + n * 10 ^ 9 then 0 else c.count) + (waiting.card + 1) * (retries + 1) ≤ rateLimit := by
  by_contra hover
  rw [not_le] at hover
  obtain ⟨k, hk⟩ := hl.finite.exists_notMem
  have hk : s.phase k = .absent := by simpa using hk
  have hkw : k ∉ waiting.toList := by
    rw [Finset.mem_toList, hwaiting, hk]
    simp
  -- the user waits, then sends the next request while the others are counted
  let late := run Share.step s [.tick (n * 10 ^ 9), .arrive k]
  let counted := run Share.step late (waiting.toList.map (.command · ⟨retries, true⟩))
  have hlate : late.count = (if e ≤ s.now + n * 10 ^ 9 then 0 else c.count) ∧
      late.phase = update s.phase k .arrived := by
    have habsent : (s.step (.tick (n * 10 ^ 9))).phase k = .absent := hk
    rw [← count_tick hc he]
    simp only [late, run_cons, run_nil]
    rw [Share.step, if_pos habsent]
    exact ⟨rfl, rfl⟩
  have harrived : ∀ i ∈ waiting.toList, late.phase i = .arrived := by
    intro i hi
    rw [hlate.2, update_of_ne (by rintro rfl; exact hkw hi)]
    exact (hwaiting i).1 (Finset.mem_toList.1 hi)
  obtain ⟨hcount, hphase⟩ := incr_commands retries (Finset.nodup_toList waiting) harrived
  have hkarrived : counted.phase k = .arrived := by
    rw [hphase k hkw, hlate.2, update_self]
  obtain ⟨hlast, -⟩ := incr_command retries hkarrived
  have hlarge : rateLimit < (counted.step (.command k ⟨retries, true⟩)).count := by
    rw [hlast, hcount, hlate.1, Finset.length_toList]
    rw [Nat.succ_mul] at hover
    omega
  obtain ⟨m, hlimited⟩ := limited_of_over hkarrived hlarge
  -- 429
  let later : List UserOp := [.tick (n * 10 ^ 9), .arrive k] ++
    (waiting.toList.map (.command · ⟨retries, true⟩) ++ [.command k ⟨retries, true⟩, .command k .ok])
  have hrun : run Share.step s later = (counted.step (.command k ⟨retries, true⟩)).step (.command k .ok) := by
    simp only [later, run_append]
    rfl
  have hlater : Along Share.step (Share.Obedient retries k (s.now + n * 10 ^ 9)) s later := by
    rw [along_append, along_append]
    refine ⟨⟨trivial, ⟨rfl, le_rfl⟩, trivial⟩, ?_, le_rfl, Nat.zero_le _, trivial⟩
    rw [along_iff_split]
    intro a o b hab
    obtain ⟨i, -, rfl⟩ := List.mem_map.1 (show o ∈ waiting.toList.map (.command · ⟨retries, true⟩) by rw [hab]; simp)
    exact le_rfl
  have hrejected : ∃ r, (run Share.step s later).phase k = .rejected r := by
    rw [hrun, Share.step]
    simp only [hlimited, update_self]
    exact ⟨_, rfl⟩
  obtain ⟨r, hr⟩ := hrejected
  exact h k hk later hlater r hr

/-- **Honest headers.** In every run, let a request be answered 429 while the user's counter has a time to live. Its
Retry-After is at most 60, and the user's next request after that time is not refused, iff the requests of the user that
are still to come, the next one and their repetitions stay within the limit, on top of the old count where the time left
is rounded down. -/
theorem honest_iff (retries : ℕ) (ops : List Op) {u : String} {i m e : ℕ} {c : Counter} (o : Outcome)
    (hi : (run step init ops).phase u i = .limited m) (hc : (run step init ops).counters (key u) = some c)
    (he : c.expiresAt = some e) :
    let s := run step init ops
    let n := retryAfter s.now (some c) o
    (step s (.command u i o)).phase u i = .rejected n ∧
      ((n ≤ 60 ∧ Honest retries n u (step s (.command u i o))) ↔
        carried s.now e c.count o + (waiting u s + 1) * (retries + 1) ≤ rateLimit) := by
  intro s n
  have hlive : Live (share u s) := live_run u ops
  have hahead : e ≤ s.now + rateWindow := (hlive.ahead c hc e he).2
  have hnext : share u (step s (.command u i o)) =
      ⟨s.now, some c, update (s.phase u) i (.rejected n), s.log u ++ [.rejected i n]⟩ := by
    rw [share_step]
    simp only [Op.own, if_true, Option.map_some, Option.getD_some, Share.step]
    rw [show (share u s).phase i = .limited m from hi, show (share u s).counter = some c from hc]
    rfl
  have hlive' := live_run u (ops ++ [.command u i o])
  rw [run_snoc] at hlive'
  have hfinite : {j | s.phase u j = .arrived}.Finite := by
    apply hlive.finite.subset
    intro j hj
    simp only [Set.mem_ofPred_eq] at hj
    simp [share, hj]
  have hwaiting : ∀ j, j ∈ hfinite.toFinset ↔ (share u (step s (.command u i o))).phase j = .arrived := by
    intro j
    rw [Set.Finite.mem_toFinset, hnext]
    by_cases hji : j = i
    · simp [hji, s, hi]
    · simp [update_of_ne hji]
  have hcard : waiting u s = hfinite.toFinset.card := Set.ncard_eq_toFinset_card _ hfinite
  have hcarried : carried s.now e c.count o =
      if e ≤ (share u (step s (.command u i o))).now + n * 10 ^ 9 then 0 else c.count := by
    rw [hnext, carried, if_congr (retryAfter_covers o he hahead).symm rfl rfl]
  refine ⟨?_, ?_⟩
  · have := congrArg (fun t => t.phase i) hnext
    simpa [share] using this
  · rw [honest_share, hcarried, hcard]
    have hcounter : (share u (step s (.command u i o))).counter = some c := by rw [hnext]
    refine ⟨fun h => Share.room_of_honest hlive' hwaiting hcounter he h.2, ?_⟩
    intro hroom
    exact ⟨retryAfter_le o he hahead, Share.honest_of_room hlive' hwaiting hcounter he hroom⟩

/-! ## A minute of requests -/

/-- alice's first requests, one after the other -/
def requests (n : ℕ) : List Op := (List.range n).flatMap (oneRequest "alice")

theorem requests_run {n : ℕ} (h : n < rateLimit) :
    (run step init (requests (n + 1))).now = 0 ∧
      (run step init (requests (n + 1))).counters (key "alice") = some ⟨n + 1, some rateWindow⟩ ∧
      ∀ j, (run step init (requests (n + 1))).phase "alice" j = if j ≤ n then .forwarded else .absent := by
  induction n with
  | zero =>
    refine ⟨rfl, rfl, ?_⟩
    intro j
    cases j with
    | zero => rfl
    | succ j => rfl
  | succ n ih =>
    obtain ⟨hnow, hcounter, hphase⟩ := ih (Nat.lt_of_succ_lt h)
    have hsplit : requests (n + 1 + 1) = requests (n + 1) ++ oneRequest "alice" (n + 1) := by
      rw [requests, List.range_succ, List.flatMap_append, List.flatMap_singleton]
      rfl
    rw [hsplit, run_append]
    generalize run step init (requests (n + 1)) = s at hnow hcounter hphase ⊢
    have habsent : s.phase "alice" (n + 1) = .absent := by rw [hphase, if_neg (by omega)]
    have hroom : ¬ rateLimit < n + 1 + 1 := by omega
    simp only [oneRequest, run_cons, run_nil, step, habsent, if_true, update_self, limit, serve, hcounter, Outcome.ok,
      Outcome.executions, incr_some]
    simp only [Nat.zero_add, hroom, if_false, Nat.succ_ne_zero, Nat.add_eq_right]
    refine ⟨hnow, trivial, ?_⟩
    intro j
    by_cases hj : j = n + 1
    · simp [hj]
    · simp only [update_of_ne hj, hphase]
      congr 1
      exact propext (by omega)

/-- after a hundred requests, `d` nanoseconds pass and one more is counted -/
def overLimit (d : ℕ) : List Op := requests 100 ++ [.tick d, .arrive "alice" 100, .command "alice" 100 .ok]

theorem overLimit_run {d : ℕ} (hd : d < rateWindow) :
    (run step init (overLimit d)).now = d ∧
      (run step init (overLimit d)).counters (key "alice") = some ⟨101, some rateWindow⟩ ∧
      ∀ j, (run step init (overLimit d)).phase "alice" j =
        if j ≤ 99 then .forwarded else if j = 100 then .limited 101 else .absent := by
  obtain ⟨hnow, hcounter, hphase⟩ := requests_run (n := 99) (by decide)
  rw [overLimit, run_append]
  generalize run step init (requests 100) = s at hnow hcounter hphase ⊢
  have habsent : s.phase "alice" 100 = .absent := by rw [hphase, if_neg (by decide)]
  have hlater : Counter.hasExpired d ⟨100, some rateWindow⟩ = false := by
    simpa [Counter.hasExpired] using hd
  simp only [run_cons, run_nil, step, habsent, if_true, update_self, limit, hcounter, hnow, Outcome.ok, Outcome.executions,
    Nat.zero_add, Option.filter, hlater, Bool.not_false, incr_some]
  refine ⟨trivial, rfl, ?_⟩
  intro j
  by_cases hj : j = 100
  · simp [hj, rateLimit]
  · simp [hphase, hj]

/-- with 59.5 seconds left the header is 60, and the next request is forwarded -/
theorem rounded_up_honest :
    retryAfter (5 * 10 ^ 8) (some ⟨101, some rateWindow⟩) .ok = 60 ∧
      Honest 3 60 "alice" (step (run step init (overLimit (5 * 10 ^ 8))) (.command "alice" 100 .ok)) := by
  obtain ⟨hnow, hcounter, hphase⟩ := overLimit_run (d := 5 * 10 ^ 8) (by decide)
  have hn : retryAfter (5 * 10 ^ 8) (some ⟨101, some rateWindow⟩) .ok = 60 := by decide
  have hlimited : (run step init (overLimit (5 * 10 ^ 8))).phase "alice" 100 = .limited 101 := by rw [hphase]; rfl
  have hwaiting : waiting "alice" (run step init (overLimit (5 * 10 ^ 8))) = 0 := by
    have hnone : {i | (run step init (overLimit (5 * 10 ^ 8))).phase "alice" i = .arrived} = ∅ := by
      ext i
      simp only [hphase, Set.mem_ofPred_eq, Set.mem_empty_iff_false, iff_false]
      split_ifs <;> simp
    rw [waiting, hnone, Set.ncard_empty]
  have hiff := (honest_iff 3 (overLimit (5 * 10 ^ 8)) .ok hlimited hcounter rfl).2
  rw [hnow, hn, hwaiting] at hiff
  have hroom : carried (5 * 10 ^ 8) rateWindow 101 .ok + (0 + 1) * (3 + 1) ≤ rateLimit := by decide
  exact ⟨hn, (hiff.2 hroom).2⟩

/-- with 59.3 seconds left the header is 59, and a request sent after 59 seconds is refused again -/
theorem refused_again :
    (run step init (overLimit (7 * 10 ^ 8))).phase "alice" 100 = .limited 101 ∧
      (run step init (overLimit (7 * 10 ^ 8))).counters (key "alice") = some ⟨101, some rateWindow⟩ ∧
      (step (run step init (overLimit (7 * 10 ^ 8))) (.command "alice" 100 .ok)).phase "alice" 100 = .rejected 59 ∧
      ¬ Honest 0 59 "alice" (step (run step init (overLimit (7 * 10 ^ 8))) (.command "alice" 100 .ok)) := by
  obtain ⟨hnow, hcounter, hphase⟩ := overLimit_run (d := 7 * 10 ^ 8) (by decide)
  generalize run step init (overLimit (7 * 10 ^ 8)) = s at hnow hcounter hphase ⊢
  have hlimited : s.phase "alice" 100 = .limited 101 := by rw [hphase]; rfl
  have hnext : s.phase "alice" 101 = .absent := by rw [hphase]; rfl
  refine ⟨hlimited, hcounter, ?_, ?_⟩
  · simp only [step, hlimited, hcounter, limit, hnow, update_self]
    decide
  · intro h
    let later : List Op := [.tick (59 * 10 ^ 9), .arrive "alice" 101, .command "alice" 101 .ok, .command "alice" 101 .ok]
    have hthen : (step s (.command "alice" 100 .ok)).now = 7 * 10 ^ 8 ∧
        (step s (.command "alice" 100 .ok)).counters (key "alice") = some ⟨101, some rateWindow⟩ ∧
        (step s (.command "alice" 100 .ok)).phase "alice" 101 = .absent := by
      simp [step, hlimited, limit, hcounter, hnow, hnext]
    generalize step s (.command "alice" 100 .ok) = t at h hthen
    obtain ⟨hnow, hcounter, hnext⟩ := hthen
    apply h 101 hnext later
    · simp [later, Along, Obedient, Op.own, Share.Obedient, share, step, hnow, Outcome.ok]
    · show (run step t later).phase "alice" 101 = .rejected 60
      have hlater : Counter.hasExpired (7 * 10 ^ 8 + 59 * 10 ^ 9) ⟨101, some rateWindow⟩ = false := by decide
      have hretry : retryAfter (7 * 10 ^ 8 + 59 * 10 ^ 9) (some ⟨102, some rateWindow⟩) .ok = 60 := by decide
      simp only [later, run_cons, run_nil, step, hnext, hnow, hcounter, if_true, update_self, Option.filter, hlater]
      simp only [Bool.not_false, if_true, limit, Outcome.ok, Outcome.executions, Nat.zero_add, incr_some]
      simpa [rateLimit, Outcome.ok] using hretry

end Concordia.Gateway.RateLimit
