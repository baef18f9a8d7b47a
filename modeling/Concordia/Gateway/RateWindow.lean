/-
The bound of the rate limiter and its isolation, while every INCR is executed once and answered.

Within one window, from the expiry of a user's counter to the next, the answers of INCR are 1, 2, 3 and so on, and only
requests that were answered at most 100 are let through. A request that was let through is handed on whenever its gateway
gets to it, also after its counter has expired, so the requests handed on in a window are not bounded, only those counted
in it.

- `Inv`, `step_inv`: what holds of one user's share at any time.
- `bound_and_isolation`: of the requests counted in a window at most 100 are ever forwarded, and no request is forwarded
  that was not counted; 429 only after 100 earlier ones; no user's decisions depend on the requests of others.
- `late_forwards`: 199 requests forwarded between two expiries.
-/
import Concordia.Lib.Window
import Concordia.Gateway.RateLimit

namespace Concordia.Gateway.RateLimit

open Concordia.Lib Window
open Function (update update_self update_of_ne)

def Event.isCounted : Event → Bool
  | .counted _ _ => true
  | _ => false

/-- INCR has answered at most the limit -/
def Event.isWithin : Event → Bool
  | .counted _ n => decide (n ≤ rateLimit)
  | _ => false

def Event.isForwarded : Event → Bool
  | .forwarded _ => true
  | _ => false

def Event.isExpired : Event → Bool
  | .expired => true
  | _ => false

/-- a request is counted that is handed on, then or later, in the log -/
def Event.isCountedForwarded (log : List Event) : Event → Bool
  | .counted i _ => decide (.forwarded i ∈ log)
  | _ => false

/-- how many requests have been counted since the counter last expired -/
def countedSince (log : List Event) : ℕ := since Event.isCounted Event.isExpired log

/-- how many requests have been let through since the counter last expired -/
def withinSince (log : List Event) : ℕ := since Event.isWithin Event.isExpired log

@[simp] theorem countedSince_snoc (log : List Event) (e : Event) : countedSince (log ++ [e]) = match e with
    | .counted _ _ => countedSince log + 1
    | .expired => 0
    | _ => countedSince log := by
  rw [countedSince, since_snoc]
  cases e <;> rfl

@[simp] theorem withinSince_snoc (log : List Event) (e : Event) : withinSince (log ++ [e]) = match e with
    | .counted _ n => if n ≤ rateLimit then withinSince log + 1 else withinSince log
    | .expired => 0
    | _ => withinSince log := by
  rw [withinSince, since_snoc]
  cases e with
  | counted i n => simp [count, Event.isWithin, Event.isExpired, withinSince]
  | _ => rfl

/-- in no window have more than a hundred requests been let through -/
def WithinLimit (log : List Event) : Prop := Bounded Event.isWithin Event.isExpired rateLimit log

theorem withinLimit_snoc {log : List Event} {e : Event} :
    WithinLimit (log ++ [e]) ↔ WithinLimit log ∧ withinSince (log ++ [e]) ≤ rateLimit := bounded_snoc

/-- every INCR is executed once and answered -/
def Share.Available (s : Share) : UserOp → Prop
  | .command i o => s.phase i = .arrived → o = .ok
  | .arrive _ | .forward _ | .abort _ | .tick _ => True

def Available (s : St) : Op → Prop
  | .command u i o => s.phase u i = .arrived → o = .ok
  | .arrive _ _ | .forward _ _ | .abort _ _ | .tick _ => True

instance (s : St) : (op : Op) → Decidable (Available s op)
  | .command u i o => inferInstanceAs (Decidable (s.phase u i = .arrived → o = .ok))
  | .arrive _ _ | .forward _ _ | .abort _ _ | .tick _ => .isTrue trivial

theorem Available.own {s : St} {op : Op} (h : Available s op) (u : String) :
    ∀ o ∈ op.own u, (share u s).Available o := by
  intro o ho
  cases op with
  | command v i out =>
    obtain ⟨rfl, rfl⟩ : v = u ∧ .command i out = o := by simpa [Op.own] using ho
    exact h
  | arrive v i =>
    obtain ⟨-, rfl⟩ : v = u ∧ .arrive i = o := by simpa [Op.own] using ho
    trivial
  | forward v i =>
    obtain ⟨-, rfl⟩ : v = u ∧ .forward i = o := by simpa [Op.own] using ho
    trivial
  | abort v i =>
    obtain ⟨-, rfl⟩ : v = u ∧ .abort i = o := by simpa [Op.own] using ho
    trivial
  | tick d =>
    cases ho
    trivial

/-! ## One user's share -/

/-- the request was counted, after `before` and ahead of `rest` -/
def CountedAt (before rest : List Event → Prop) (log : List Event) (i : ℕ) : Prop :=
  ∃ a n b, log = a ++ .counted i n :: b ∧ before a ∧ rest b

/-- less than a hundred requests have been counted since the counter last expired -/
def Few (log : List Event) : Prop := countedSince log < rateLimit

/-- at least a hundred requests have been counted since the counter last expired -/
def Many (log : List Event) : Prop := rateLimit ≤ countedSince log

theorem CountedAt.append {before rest : List Event → Prop} {log : List Event} {i : ℕ} (h : CountedAt before rest log i)
    (more : List Event) (hrest : ∀ b, rest b → rest (b ++ more)) : CountedAt before rest (log ++ more) i := by
  obtain ⟨a, n, b, rfl, ha, hb⟩ := h
  exact ⟨a, n, b ++ more, by simp, ha, hrest b hb⟩

theorem CountedAt.mem {before rest : List Event → Prop} {log : List Event} {i : ℕ} (h : CountedAt before rest log i) :
    ∃ n, .counted i n ∈ log := by
  obtain ⟨a, n, b, rfl, -, -⟩ := h
  exact ⟨n, by simp⟩

/-- a longer log keeps what it told of an event -/
theorem counted_of_mem_append {before : List Event → Prop} {log es : List Event} {e : Event} {i : ℕ}
    (h : e ∈ log → CountedAt before (e ∈ ·) log i) (hes : e ∉ es) (he : e ∈ log ++ es) :
    CountedAt before (e ∈ ·) (log ++ es) i := by
  rcases List.mem_append.1 he with he | he
  · exact (h he).append es fun b hb => List.mem_append_left _ hb
  · exact absurd he hes

/-- INCR has answered the request at most the limit, and it has not been handed on -/
def Phase.isWithin : Phase → Bool
  | .counted | .passed => true
  | _ => false

/-- where the requests stand, and what the log tells of them -/
structure Placed (phase : ℕ → Phase) (log : List Event) : Prop where
  fresh : ∀ i, phase i = .absent ∨ phase i = .arrived → ∀ n, .counted i n ∉ log
  within : ∀ i, (phase i).isWithin = true → CountedAt Few (fun _ => True) log i
  limited : ∀ i n, phase i = .limited n → CountedAt Many (fun _ => True) log i
  forwarded : ∀ i, .forwarded i ∈ log → CountedAt Few (.forwarded i ∈ ·) log i
  rejected : ∀ i r, .rejected i r ∈ log → CountedAt Many (.rejected i r ∈ ·) log i
  small : ∀ i n, .counted i n ∈ log → (phase i).isWithin = true ∨ .forwarded i ∈ log → n ≤ rateLimit

/-- what is counted, and what has been let through -/
structure Tally (counter : Option Counter) (log : List Event) : Prop where
  positive : ∀ c ∈ counter, 0 < c.count
  counted : countedSince log = (counter.map Counter.count).getD 0
  within : withinSince log = min (countedSince log) rateLimit
  bounded : WithinLimit log

structure Inv (s : Share) : Prop where
  tally : Tally s.counter s.log
  placed : Placed s.phase s.log

theorem inv_init (u : String) : Inv (share u init) where
  tally :=
    { positive := by intro c hc; cases hc
      counted := rfl
      within := rfl
      bounded := bounded_nil }
  placed :=
    { fresh := by intro i _ n hn; cases hn
      within := by intro i hi; cases hi
      limited := by intro i n hi; cases hi
      forwarded := by intro i hi; cases hi
      rejected := by intro i r hr; cases hr
      small := by intro i n hn; cases hn }

/-- a request in another phase than the one just entered was in it before -/
theorem phase_of_update {phase : ℕ → Phase} {i j : ℕ} {p q : Phase} (h : update phase i p j = q) (hq : q ≠ p) :
    phase j = q := by
  have hji : j ≠ i := by
    rintro rfl
    rw [update_self] at h
    exact hq h.symm
  rwa [update_of_ne hji] at h

/-- what is said of a request's new phase and of all the others' old ones is said of all -/
theorem of_update {P : ℕ → Phase → Prop} {phase : ℕ → Phase} {i : ℕ} {p : Phase} (hi : P i p)
    (h : ∀ j, j ≠ i → P j (phase j)) (j : ℕ) : P j (update phase i p j) := by
  by_cases hji : j = i
  · rw [hji, update_self]
    exact hi
  · rw [update_of_ne hji]
    exact h j hji

/-- a request that moves on without an event -/
theorem Placed.move {phase : ℕ → Phase} {log : List Event} (h : Placed phase log) (i : ℕ) {p : Phase}
    (hfresh : p = .absent ∨ p = .arrived → phase i = .absent) (hwithin : p.isWithin = true → (phase i).isWithin = true)
    (hlimited : ∀ n, p ≠ .limited n) : Placed (update phase i p) log where
  fresh := of_update (P := fun j q => q = .absent ∨ q = .arrived → ∀ n, .counted j n ∉ log)
    (fun hp => h.fresh i (.inl (hfresh hp))) fun j _ => h.fresh j
  within := of_update (P := fun j q => q.isWithin = true → CountedAt Few (fun _ => True) log j)
    (fun hp => h.within i (hwithin hp)) fun j _ => h.within j
  limited := fun j n hj => h.limited j n (phase_of_update hj (hlimited n).symm)
  forwarded := h.forwarded
  rejected := h.rejected
  small := by
    intro j n hn hj
    refine h.small j n hn (hj.imp_left ?_)
    exact of_update (P := fun j q => q.isWithin = true → (phase j).isWithin = true) hwithin (fun _ _ hj => hj) j

/-- INCR has answered how many requests have been counted in this window, the new one included -/
theorem Placed.incr {phase : ℕ → Phase} {log : List Event} (h : Placed phase log) {i n : ℕ} (hi : phase i = .arrived)
    (hn : n = countedSince log + 1) {p : Phase}
    (hp : p.isWithin = true ∧ n ≤ rateLimit ∨ p = .limited n ∧ rateLimit < n) :
    Placed (update phase i p) (log ++ [.counted i n]) := by
  have hnew : ∀ before : List Event → Prop, before log → CountedAt before (fun _ => True) (log ++ [.counted i n]) i :=
    fun before hbefore => ⟨log, n, [], rfl, hbefore, trivial⟩
  have hnot : .forwarded i ∉ log := by
    intro hfor
    obtain ⟨m, hm⟩ := (h.forwarded i hfor).mem
    exact h.fresh i (.inr hi) m hm
  refine ⟨?_, ?_, ?_, ?_, ?_, ?_⟩
  · apply of_update (i := i) (p := p) (P := fun j q =>
      q = .absent ∨ q = .arrived → ∀ m, Event.counted j m ∉ log ++ [Event.counted i n])
    · rintro (rfl | rfl) <;> simp [Phase.isWithin] at hp
    · intro j hji hj m hm
      rcases List.mem_append.1 hm with hm | hm
      · exact h.fresh j hj m hm
      · exact hji (by simpa using hm : j = i ∧ m = n).1
  · apply of_update (i := i) (p := p) (P := fun j q =>
      q.isWithin = true → CountedAt Few (fun _ => True) (log ++ [Event.counted i n]) j)
    · intro hwithin
      apply hnew
      rcases hp with ⟨-, hle⟩ | ⟨rfl, -⟩
      · show countedSince log < rateLimit
        omega
      · cases hwithin
    · exact fun j _ hj => (h.within j hj).append _ fun _ _ => trivial
  · intro j m
    revert j
    apply of_update (i := i) (p := p) (P := fun j q =>
      q = .limited m → CountedAt Many (fun _ => True) (log ++ [Event.counted i n]) j)
    · rintro rfl
      apply hnew
      rcases hp with ⟨hwithin, -⟩ | ⟨-, hlt⟩
      · cases hwithin
      · show rateLimit ≤ countedSince log
        omega
    · exact fun j _ hj => (h.limited j m hj).append _ fun _ _ => trivial
  · exact fun j => counted_of_mem_append (h.forwarded j) (by simp)
  · exact fun j r => counted_of_mem_append (h.rejected j r) (by simp)
  · intro j m hm hj
    have hfor : .forwarded j ∈ log ++ [.counted i n] → .forwarded j ∈ log := by simp
    by_cases hji : j = i
    · -- its only count is the new one
      subst hji
      rcases List.mem_append.1 hm with hm | hm
      · exact absurd hm (h.fresh j (.inr hi) m)
      · obtain rfl : m = n := by simpa using hm
        rw [update_self] at hj
        rcases hp with ⟨-, hle⟩ | ⟨rfl, -⟩
        · exact hle
        · exact absurd (hj.resolve_left (by simp [Phase.isWithin])) fun hfor' => hnot (hfor hfor')
    · rw [update_of_ne hji] at hj
      exact h.small j m (by simpa [hji] using hm) (hj.imp_right hfor)

/-- a request that was let through is handed on -/
theorem Placed.forward {phase : ℕ → Phase} {log : List Event} (h : Placed phase log) {i : ℕ} (hi : phase i = .passed) :
    Placed (update phase i .forwarded) (log ++ [.forwarded i]) := by
  have hmoved := h.move i (p := .forwarded) (by simp) (by simp [Phase.isWithin]) (by simp)
  have hwithin : (phase i).isWithin = true := by rw [hi]; rfl
  refine ⟨?_, ?_, ?_, ?_, ?_, ?_⟩
  · exact fun j hj n hn => hmoved.fresh j hj n (by simpa using hn)
  · exact fun j hj => (hmoved.within j hj).append _ fun _ _ => trivial
  · exact fun j n hj => (hmoved.limited j n hj).append _ fun _ _ => trivial
  · intro j hj
    rcases List.mem_append.1 hj with hj | hj
    · exact (h.forwarded j hj).append _ fun b hb => List.mem_append_left _ hb
    · obtain rfl : j = i := by simpa using hj
      obtain ⟨a, n, b, rfl, ha, -⟩ := h.within j hwithin
      exact ⟨a, n, b ++ [.forwarded j], by simp, ha, by simp⟩
  · exact fun j r => counted_of_mem_append (h.rejected j r) (by simp)
  · intro j n hn hj
    have hn' : .counted j n ∈ log := by simpa using hn
    rcases hj with hj | hj
    · exact hmoved.small j n hn' (.inl hj)
    · rcases List.mem_append.1 hj with hj | hj
      · exact h.small j n hn' (.inr hj)
      · obtain rfl : j = i := by simpa using hj
        exact h.small j n hn' (.inl hwithin)

/-- TTL, after which the request is rejected -/
theorem Placed.reject {phase : ℕ → Phase} {log : List Event} (h : Placed phase log) {i n : ℕ} (r : ℕ)
    (hi : phase i = .limited n) : Placed (update phase i (.rejected r)) (log ++ [.rejected i r]) := by
  have hmoved := h.move i (p := .rejected r) (by simp) (by simp [Phase.isWithin]) (by simp)
  refine ⟨?_, ?_, ?_, ?_, ?_, ?_⟩
  · exact fun j hj m hm => hmoved.fresh j hj m (by simpa using hm)
  · exact fun j hj => (hmoved.within j hj).append _ fun _ _ => trivial
  · exact fun j m hj => (hmoved.limited j m hj).append _ fun _ _ => trivial
  · exact fun j => counted_of_mem_append (h.forwarded j) (by simp)
  · intro j r' hr
    rcases List.mem_append.1 hr with hr | hr
    · exact (h.rejected j r' hr).append _ fun b hb => List.mem_append_left _ hb
    · obtain ⟨rfl, rfl⟩ : j = i ∧ r' = r := by simpa using hr
      obtain ⟨a, m, b, rfl, ha, -⟩ := h.limited j n hi
      exact ⟨a, m, b ++ [.rejected j r'], by simp, ha, by simp⟩
  · exact fun j m hm hj => hmoved.small j m (by simpa using hm) (hj.imp_right (by simp))

theorem Placed.expired {phase : ℕ → Phase} {log : List Event} (h : Placed phase log) : Placed phase (log ++ [.expired]) :=
  { fresh := fun j hj n hn => h.fresh j hj n (by simpa using hn)
    within := fun j hj => (h.within j hj).append _ fun _ _ => trivial
    limited := fun j n hj => (h.limited j n hj).append _ fun _ _ => trivial
    forwarded := fun j => counted_of_mem_append (h.forwarded j) (by simp)
    rejected := fun j r => counted_of_mem_append (h.rejected j r) (by simp)
    small := fun j n hn hj => h.small j n (by simpa using hn) (hj.imp_right (by simp)) }

/-- INCR adds one, and lets one more through up to the limit -/
theorem Tally.incr {c₀ : Option Counter} {log : List Event} (h : Tally c₀ log) (i : ℕ) {c : Counter}
    (hc : c.count = countedSince log + 1) : Tally (some c) (log ++ [.counted i c.count]) := by
  have hwithin := h.within
  have hnew : withinSince (log ++ [.counted i c.count]) = min (countedSince log + 1) rateLimit := by
    simp only [withinSince_snoc]
    split_ifs <;> omega
  refine ⟨?_, ?_, ?_, withinLimit_snoc.2 ⟨h.bounded, ?_⟩⟩
  · intro c' hmem
    rw [← Option.some.inj hmem, hc]
    exact Nat.succ_pos _
  · simp only [countedSince_snoc, Option.map_some, Option.getD_some, hc]
  · rw [hnew, countedSince_snoc]
  · rw [hnew]
    exact Nat.min_le_right _ _

/-- an event that neither counts nor expires -/
theorem Tally.skip {c : Option Counter} {log : List Event} (h : Tally c log) {e : Event} (he : e.isCounted = false)
    (he' : e.isExpired = false) : Tally c (log ++ [e]) := by
  have hcounted : countedSince (log ++ [e]) = countedSince log := by
    rw [countedSince, since_snoc]
    simp [count, he, he', countedSince]
  have hsame : withinSince (log ++ [e]) = withinSince log := by
    have hwithin : e.isWithin = false := by cases e <;> simp_all [Event.isWithin, Event.isCounted]
    rw [withinSince, since_snoc]
    simp [count, hwithin, he', withinSince]
  have hwithin := h.within
  refine ⟨h.positive, by rw [hcounted]; exact h.counted, by rw [hcounted, hsame]; exact hwithin,
    withinLimit_snoc.2 ⟨h.bounded, ?_⟩⟩
  rw [hsame, hwithin]
  exact Nat.min_le_right _ _

theorem Tally.elapse {c : Option Counter} {log : List Event} (h : Tally c log) : Tally none (log ++ [.expired]) where
  positive := by simp
  counted := by simp
  within := by simp
  bounded := withinLimit_snoc.2 ⟨h.bounded, by simp⟩

theorem count_expire (now : ℕ) (c : Option Counter) (o : Outcome) :
    ((RateLimit.expire now c o).map Counter.count) = c.map Counter.count := by
  unfold RateLimit.expire
  split_ifs
  · rfl
  · rw [Option.map_map]
    rfl

/-- EXPIRE counts nothing -/
theorem Tally.expire {c : Option Counter} {log : List Event} (h : Tally c log) (now : ℕ) (o : Outcome) :
    Tally (RateLimit.expire now c o) log := by
  refine ⟨?_, by rw [count_expire]; exact h.counted, h.within, h.bounded⟩
  intro c' hmem
  have hmap : (RateLimit.expire now c o).map Counter.count = some c'.count := by rw [hmem]; rfl
  rw [count_expire] at hmap
  obtain ⟨c₀, hc₀, heq⟩ := Option.map_eq_some_iff.1 hmap
  rw [← heq]
  exact h.positive c₀ hc₀

/-- the value of the counter, 0 when there is none -/
def Share.count (s : Share) : ℕ := (s.counter.map Counter.count).getD 0

/-- **INCR.** One more is counted, and the answer says where the request goes. -/
theorem incr_inv {s : Share} {i : ℕ} (h : Inv s) (hi : s.phase i = .arrived) : Inv (s.step (.command i .ok)) := by
  have hcounted : countedSince s.log = s.count := h.tally.counted
  simp only [Share.step, hi]
  cases hc : s.counter with
  | none =>
    -- the first of its window
    have hzero : countedSince s.log = 0 := by rw [hcounted, Share.count, hc]; rfl
    refine ⟨?_, ?_⟩
    · simpa [limit, Outcome.ok, Outcome.executions, incr] using h.tally.incr i (c := ⟨1, none⟩) (by rw [hzero])
    · simpa [limit, Outcome.ok, Outcome.executions, incr] using
        h.placed.incr hi (n := 1) (by rw [hzero]) (.inl ⟨rfl, by decide⟩)
  | some c =>
    have hcount : countedSince s.log = c.count := by rw [hcounted, Share.count, hc]; rfl
    have hpos : c.count ≠ 0 := (h.tally.positive c hc).ne'
    have htally := h.tally.incr i (c := { c with count := c.count + 1 }) (by rw [hcount])
    by_cases hlt : rateLimit < c.count + 1
    · refine ⟨?_, ?_⟩
      · simpa [limit, Outcome.ok, Outcome.executions, incr, hpos, hlt] using htally
      · simpa [limit, Outcome.ok, Outcome.executions, incr, hpos, hlt] using
          h.placed.incr hi (n := c.count + 1) (by rw [hcount]) (.inr ⟨rfl, hlt⟩)
    · refine ⟨?_, ?_⟩
      · simpa [limit, Outcome.ok, Outcome.executions, incr, hpos, hlt] using htally
      · simpa [limit, Outcome.ok, Outcome.executions, incr, hpos, hlt] using
          h.placed.incr hi (n := c.count + 1) (p := .passed) (by rw [hcount]) (.inl ⟨rfl, not_lt.1 hlt⟩)

/-- **One step.** -/
theorem step_inv {s : Share} {op : UserOp} (h : Inv s) (ha : s.Available op) : Inv (s.step op) := by
  cases op with
  | arrive i =>
    simp only [Share.step]
    split_ifs with habsent
    · exact ⟨h.tally, h.placed.move i (fun _ => habsent) (by simp [Phase.isWithin]) (by simp)⟩
    · exact h
  | forward i =>
    simp only [Share.step]
    cases hi : s.phase i with
    | passed => exact ⟨h.tally.skip rfl rfl, h.placed.forward hi⟩
    | _ =>
      simp only [serve, List.append_nil, ← hi, Function.update_eq_self]
      exact h
  | abort i =>
    simp only [Share.step]
    split_ifs
    · exact ⟨h.tally, h.placed.move i (by simp) (by simp [Phase.isWithin]) (by simp)⟩
    · exact h
  | tick d =>
    cases hc : s.counter with
    | none => simpa [Share.step, hc] using (⟨hc ▸ h.tally, h.placed⟩ : Inv { s with now := s.now + d, counter := none })
    | some c =>
      have hlater : Inv { s with now := s.now + d, counter := some c } := ⟨hc ▸ h.tally, h.placed⟩
      cases hexp : c.hasExpired (s.now + d) with
      | true =>
        have hgone : Inv { s with now := s.now + d, counter := none, log := s.log ++ [.expired] } :=
          ⟨h.tally.elapse, h.placed.expired⟩
        simpa [Share.step, hc, hexp, Option.filter] using hgone
      | false => simpa [Share.step, hc, hexp, Option.filter] using hlater
  | command i o =>
    cases hi : s.phase i with
    | arrived =>
      obtain rfl : o = .ok := ha hi
      exact incr_inv h hi
    | counted =>
      simp only [Share.step, hi, limit, List.append_nil]
      exact ⟨h.tally.expire s.now o, h.placed.move i (by simp) (by simp [hi, Phase.isWithin]) (by simp)⟩
    | limited n =>
      simp only [Share.step, hi, limit]
      exact ⟨h.tally.skip rfl rfl, h.placed.reject _ hi⟩
    | _ =>
      -- a request that has been decided sends nothing
      simp only [Share.step, hi, limit, List.append_nil]
      rw [← hi, Function.update_eq_self]
      exact h

/-! ## Runs -/

theorem reached_inv {ops : List Op} (h : Along step Available init ops) (u : String) :
    Inv (share u (run step init ops)) := by
  rw [share_run]
  exact run_inv (fun _ _ hs ha => step_inv hs ha) (inv_init u)
    (along_view (share_step u) (h.mono fun _ _ ha => ha.own u))

/-- what is left of the operations of others changes nothing -/
theorem filterMap_own (u : String) (ops : List Op) :
    (ops.filter fun op => (op.own u).isSome).filterMap (Op.own u) = ops.filterMap (Op.own u) := by
  induction ops with
  | nil => rfl
  | cons op ops ih =>
    cases hown : op.own u with
    | none => rw [List.filter_cons_of_neg (by simp [hown]), List.filterMap_cons_none hown, ih]
    | some o => rw [List.filter_cons_of_pos (by simp [hown]), List.filterMap_cons_some hown, List.filterMap_cons_some hown, ih]

/-- **Bound and isolation.** In a run in which every INCR is answered: of the requests of a user counted between two
expiries of the user's counter at most 100 are ever forwarded, and every forwarded request has been counted; a request is
rejected only if at least 100 had been counted, since the counter last expired, before it was; and what happens to a
user's requests is the same without everyone else's. -/
theorem bound_and_isolation (ops : List Op) (h : Along step Available init ops) (u : String) :
    let log := (run step init ops).log u
    (∀ a b c, log = a ++ b ++ c → .expired ∉ b → b.countP (Event.isCountedForwarded log) ≤ rateLimit) ∧
      (∀ i, .forwarded i ∈ log → ∃ a n b, log = a ++ .counted i n :: b ∧ .forwarded i ∈ b) ∧
      (∀ i r, .rejected i r ∈ log → ∃ a n b, log = a ++ .counted i n :: b ∧ .rejected i r ∈ b ∧
        rateLimit ≤ countedSince a) ∧
      log = (run step init (ops.filter fun op => (op.own u).isSome)).log u := by
  intro log
  obtain ⟨htally, hplaced⟩ := reached_inv h u
  refine ⟨?_, ?_, ?_, ?_⟩
  · intro a b c hlog hb
    have hlimit : b.countP Event.isWithin ≤ rateLimit := by
      apply htally.bounded.window hlog
      intro e he
      cases e with
      | expired => exact absurd he hb
      | _ => rfl
    refine le_trans (List.countP_mono_left ?_) hlimit
    -- a counted request that is forwarded was among the first hundred
    intro e he hfor
    cases e with
    | counted i n =>
      have hmem : .counted i n ∈ log := by rw [hlog]; simp [he]
      exact decide_eq_true (hplaced.small i n hmem (.inr (of_decide_eq_true hfor)))
    | _ => cases hfor
  · intro i hi
    obtain ⟨a, n, b, hab, -, hb⟩ := hplaced.forwarded i hi
    exact ⟨a, n, b, hab, hb⟩
  · intro i r hr
    obtain ⟨a, n, b, hab, ha, hb⟩ := hplaced.rejected i r hr
    exact ⟨a, n, b, hab, hb, ha⟩
  · have hsame : share u (run step init ops) = share u (run step init (ops.filter fun op => (op.own u).isSome)) := by
      rw [share_run, share_run, filterMap_own]
    exact congrArg Share.log hsame

/-- two users at once; alice's second request is handed on when her counter has expired -/
def crowd : List Op := [.arrive "alice" 0, .arrive "bob" 0, .command "alice" 0 .ok, .command "bob" 0 .ok,
  .command "alice" 0 .ok, .arrive "alice" 1, .command "alice" 1 .ok, .forward "alice" 0, .tick rateWindow,
  .forward "alice" 1]

theorem crowd_within_bound :
    (run step init crowd).log "alice" = [.counted 0 1, .counted 1 2, .forwarded 0, .expired, .forwarded 1] ∧
      (∃ a n b, (run step init crowd).log "alice" = a ++ .counted 1 n :: b ∧ .forwarded 1 ∈ b) ∧
      (run step init crowd).log "alice" = (run step init (crowd.filter fun op => (op.own "alice").isSome)).log "alice" := by
  obtain ⟨-, hforwarded, -, hisolated⟩ := bound_and_isolation crowd (by decide) "alice"
  exact ⟨by decide, hforwarded 1 (by decide), hisolated⟩

/-! ## Requests that are handed on late -/

/-- alice's requests from `m` on are counted, and none is handed on yet -/
def countRequests (m n : ℕ) : List Op :=
  (List.range n).flatMap fun j => [.arrive "alice" (m + j), .command "alice" (m + j) .ok, .command "alice" (m + j) .ok]

theorem countRequests_run {s : St} {m n : ℕ} (hn : n < rateLimit) (hc : s.counters (key "alice") = none)
    (hm : ∀ j, m ≤ j → s.phase "alice" j = .absent) :
    let t := run step s (countRequests m (n + 1))
    t.now = s.now ∧ t.counters (key "alice") = some ⟨n + 1, some (s.now + rateWindow)⟩ ∧
      (∀ j, t.phase "alice" j = if m ≤ j ∧ j ≤ m + n then .passed else s.phase "alice" j) ∧
      t.log "alice" = s.log "alice" ++ (List.range (n + 1)).map fun j => .counted (m + j) (j + 1) := by
  induction n with
  | zero =>
    have habsent := hm m le_rfl
    simp only [countRequests, Nat.zero_add, List.range_one, List.flatMap_singleton, Nat.add_zero, run_cons, run_nil, step,
      habsent, if_true, update_self, limit, hc, Outcome.ok, Outcome.executions, incr, expire, Nat.one_ne_zero, if_false]
    refine ⟨trivial, rfl, ?_, by simp⟩
    intro j
    by_cases hj : j = m
    · simp [hj]
    · simp only [update_of_ne hj]
      rw [if_neg (by omega)]
  | succ n ih =>
    obtain ⟨hnow, hcounter, hphase, hlog⟩ := ih (Nat.lt_of_succ_lt hn)
    have hsplit : countRequests m (n + 1 + 1) = countRequests m (n + 1) ++
        [.arrive "alice" (m + (n + 1)), .command "alice" (m + (n + 1)) .ok, .command "alice" (m + (n + 1)) .ok] := by
      rw [countRequests, List.range_succ, List.flatMap_append, List.flatMap_singleton]
      rfl
    rw [hsplit, run_append]
    generalize run step s (countRequests m (n + 1)) = t at hnow hcounter hphase hlog ⊢
    have habsent : t.phase "alice" (m + (n + 1)) = .absent := by
      rw [hphase, if_neg (by omega)]
      exact hm _ (by omega)
    have hroom : ¬ rateLimit < n + 1 + 1 := by omega
    simp only [run_cons, run_nil, step, habsent, if_true, update_self, limit, hcounter, Outcome.ok, Outcome.executions,
      incr, hroom, if_false, Nat.succ_ne_zero, Nat.add_eq_right, List.append_nil, Nat.zero_add]
    refine ⟨hnow, trivial, ?_, ?_⟩
    · intro j
      by_cases hj : j = m + (n + 1)
      · simp [hj]
      · simp only [update_of_ne hj, hphase]
        congr 1
        exact propext (by omega)
    · rw [hlog, List.range_succ (n := n + 1), List.map_append]
      simp

/-- alice's requests up to `n` are handed on -/
def forwardRequests (n : ℕ) : List Op := (List.range n).map (.forward "alice")

theorem forwardRequests_run {s : St} {n : ℕ} (h : ∀ j < n, s.phase "alice" j = .passed) :
    let t := run step s (forwardRequests n)
    t.now = s.now ∧ t.counters = s.counters ∧ (∀ j, n ≤ j → t.phase "alice" j = s.phase "alice" j) ∧
      t.log "alice" = s.log "alice" ++ (List.range n).map .forwarded := by
  induction n with
  | zero => simp [forwardRequests]
  | succ n ih =>
    obtain ⟨hnow, hcounters, hphase, hlog⟩ := ih fun j hj => h j (Nat.lt_succ_of_lt hj)
    have hsplit : forwardRequests (n + 1) = forwardRequests n ++ [.forward "alice" n] := by
      simp [forwardRequests, List.range_succ]
    rw [hsplit, run_snoc]
    generalize run step s (forwardRequests n) = t at hnow hcounters hphase hlog ⊢
    have hpassed : t.phase "alice" n = .passed := by
      rw [hphase n le_rfl]
      exact h n n.lt_succ_self
    simp only [step, hpassed, serve, update_self]
    refine ⟨hnow, hcounters, ?_, ?_⟩
    · intro j hj
      rw [update_of_ne (by omega)]
      exact hphase j (by omega)
    · rw [hlog, List.range_succ, List.map_append, List.append_assoc]
      rfl

/-- requests are counted, and as many more when the counter has expired; then all are handed on, and the counter expires
again -/
def lateForwards (n : ℕ) : List Op :=
  countRequests 0 n ++ .tick rateWindow :: countRequests n n ++ forwardRequests (n + n) ++ [.tick rateWindow]

/-- every command is executed once and answered -/
def Op.isOk : Op → Bool
  | .command _ _ o => o == .ok
  | _ => true

theorem available_of_isOk {s : St} {ops : List Op} (h : ∀ op ∈ ops, op.isOk = true) : Along step Available s ops := by
  refine (along_of_mem h).mono ?_
  intro s op hop
  cases op with
  | command u i o => exact fun _ => eq_of_beq hop
  | _ => trivial

theorem countRequests_isOk {m n : ℕ} : ∀ op ∈ countRequests m n, op.isOk = true := by
  intro op hop
  obtain ⟨j, -, hj⟩ := List.mem_flatMap.1 hop
  simp only [List.mem_cons, List.not_mem_nil, or_false] at hj
  rcases hj with rfl | rfl | rfl <;> rfl

theorem lateForwards_isOk {n : ℕ} : ∀ op ∈ lateForwards n, op.isOk = true := by
  intro op hop
  simp only [lateForwards, List.mem_append, List.mem_cons, List.not_mem_nil, or_false] at hop
  obtain ((hop | rfl | hop) | hop) | rfl := hop
  · exact countRequests_isOk op hop
  · rfl
  · exact countRequests_isOk op hop
  · obtain ⟨j, -, rfl⟩ := List.mem_map.1 hop
    rfl
  · rfl

/-- the time a counter has to live ends its window -/
theorem tick_window {s : St} {u : String} {n d : ℕ} (h : s.counters (key u) = some ⟨n, some (s.now + d)⟩) :
    (step s (.tick d)).counters (key u) = none ∧ (step s (.tick d)).log u = s.log u ++ [.expired] := by
  simp [step, h, Option.filter, Counter.hasExpired]

theorem lateForwards_run {m : ℕ} (hpos : 0 < m) (hm : m ≤ rateLimit) :
    ∃ a b, (run step init (lateForwards m)).log "alice" = a ++ .expired :: b ++ [.expired] ∧ .expired ∉ b ∧
      b.countP Event.isForwarded = m + m := by
  obtain ⟨n, rfl⟩ := Nat.exists_eq_add_one_of_ne_zero hpos.ne'
  have hn : n < rateLimit := hm
  -- the first requests are counted, and their window ends
  obtain ⟨hnow, hcounter, hphase, hlog⟩ := countRequests_run (s := init) (m := 0) hn rfl fun _ _ => rfl
  rw [lateForwards, run_snoc, run_append, run_append, run_cons]
  generalize run step init (countRequests 0 (n + 1)) = s at hnow hcounter hphase hlog ⊢
  rw [← hnow] at hcounter
  obtain ⟨hcounter, hlog'⟩ := tick_window hcounter
  have hphase' : ∀ j, (step s (.tick rateWindow)).phase "alice" j = if j ≤ n then .passed else .absent := by
    intro j
    show s.phase "alice" j = _
    simp [hphase, init]
  generalize step s (.tick rateWindow) = t at hcounter hlog' hphase' ⊢
  -- then as many more, in the window that is handed on to
  have habsent : ∀ j, n + 1 ≤ j → t.phase "alice" j = .absent := by
    intro j hj
    rw [hphase', if_neg (by omega)]
  obtain ⟨hnow₂, hcounter₂, hphase₂, hlog₂⟩ := countRequests_run hn hcounter habsent
  generalize run step t (countRequests (n + 1) (n + 1)) = t₂ at hnow₂ hcounter₂ hphase₂ hlog₂ ⊢
  have hpassed : ∀ j < n + 1 + (n + 1), t₂.phase "alice" j = .passed := by
    intro j hj
    rw [hphase₂]
    split_ifs with h
    · rfl
    · rw [hphase', if_pos (by omega)]
  -- all are handed on, and the window ends
  obtain ⟨hnow₃, hcounters₃, -, hlog₃⟩ := forwardRequests_run hpassed
  generalize run step t₂ (forwardRequests (n + 1 + (n + 1))) = t₃ at hnow₃ hcounters₃ hlog₃ ⊢
  rw [← hcounters₃, ← hnow₂, ← hnow₃] at hcounter₂
  rw [(tick_window hcounter₂).2, hlog₃, hlog₂, hlog']
  refine ⟨s.log "alice", ((List.range (n + 1)).map fun j => .counted (n + 1 + j) (j + 1)) ++
    (List.range (n + 1 + (n + 1))).map .forwarded, by simp [List.append_assoc], by simp, ?_⟩
  have hnone : ((List.range (n + 1)).map fun j => Event.counted (n + 1 + j) (j + 1)).countP Event.isForwarded = 0 := by
    rw [List.countP_map, List.countP_eq_zero]
    intro j _ h
    cases h
  have hall : ((List.range (n + 1 + (n + 1))).map Event.forwarded).countP Event.isForwarded = n + 1 + (n + 1) := by
    rw [List.countP_eq_length.2 (by simp [Event.isForwarded]), List.length_map, List.length_range]
  rw [List.countP_append, hnone, hall, Nat.zero_add]

/-- 200 requests are forwarded between two expiries -/
theorem late_forwards : Along step Available init (lateForwards 100) ∧
    ∃ a b, (run step init (lateForwards 100)).log "alice" = a ++ .expired :: b ++ [.expired] ∧ .expired ∉ b ∧
      b.countP Event.isForwarded = 200 :=
  ⟨available_of_isOk lateForwards_isOk, lateForwards_run (by decide) (by decide)⟩

end Concordia.Gateway.RateLimit
