/-
The rate limiter (`services/gateway/middleware/ratelimit.go` `Limit`): a counter for each user in Redis, shared by all
replicas of the gateway. A replica keeps nothing, so a request is one process that sends one Redis command a step: INCR,
then EXPIRE if it was the first, or TTL if it was one too many. Handing it on to the next handler is a step of its own,
any time after the last answer: the counter may have expired by then.

- A command may be executed without its answer arriving, any number of times (the client repeats it), and may fail
  without being executed: the client has gone, the context is cancelled, Redis is away. A gateway that crashes aborts
  its requests.
- A key disappears when its time to live has run out, and only then. Time is idealised: Redis counts in milliseconds and
  keeps a key through the one in which it is due, the model lets it go at the deadline.

Results:
- `expires_when_armed`: while every INCR that makes a counter is answered and followed by its EXPIRE, each counter of a
  user without a request in progress expires within 60 seconds.
- `forwarded_after_window`: that user's next request is then forwarded.
- `counter_without_expiry`: a gateway that crashes between INCR and EXPIRE leaves a counter that never expires.

A disabled limiter, and a request without claims, is passed on without Redis; it is not modelled.
-/
import Concordia.Lib.Run

namespace Concordia.Gateway.RateLimit

open Concordia.Lib
open Function (update update_self update_of_ne)

/-! ## Model -/

def rateLimit : ℕ := 100

/-- a minute, in nanoseconds -/
def rateWindow : ℕ := 60 * 10 ^ 9

structure Counter where
  count : ℕ
  /-- in nanoseconds; none without a time to live -/
  expiresAt : Option ℕ
deriving DecidableEq, Repr

/-- where a request stands -/
inductive Phase where
  | absent
  /-- before INCR -/
  | arrived
  /-- INCR has answered 1; before EXPIRE -/
  | counted
  /-- INCR has answered more than the limit; before TTL -/
  | limited (count : ℕ)
  /-- let through; before the next handler -/
  | passed
  | forwarded
  /-- 429 with this Retry-After, in seconds -/
  | rejected (retryAfter : ℕ)
  | aborted
deriving DecidableEq, Repr

inductive Event where
  /-- INCR has answered -/
  | counted (i : ℕ) (count : ℕ)
  | forwarded (i : ℕ)
  | rejected (i : ℕ) (retryAfter : ℕ)
  /-- the user's counter has expired -/
  | expired
deriving DecidableEq, Repr

/-- what became of a command: how often it was executed and the answer lost, and whether it was then executed and
answered; an error if it was not -/
structure Outcome where
  lost : ℕ
  answered : Bool
deriving DecidableEq, Repr

def Outcome.ok : Outcome := ⟨0, true⟩

def Outcome.executions (o : Outcome) : ℕ := o.lost + if o.answered then 1 else 0

structure St where
  /-- in nanoseconds -/
  now : ℕ
  /-- Redis -/
  counters : String → Option Counter
  /-- the requests of each user -/
  phase : String → ℕ → Phase
  /-- what has happened to each user, in order -/
  log : String → List Event

def init : St := ⟨0, fun _ => none, fun _ _ => .absent, fun _ => []⟩

inductive Op where
  | arrive (userId : String) (i : ℕ)
  /-- the next command of a request -/
  | command (userId : String) (i : ℕ) (o : Outcome)
  /-- a request that was let through is handed on -/
  | forward (userId : String) (i : ℕ)
  /-- the gateway that serves the request crashes -/
  | abort (userId : String) (i : ℕ)
  /-- nanoseconds pass -/
  | tick (d : ℕ)
deriving DecidableEq, Repr

/-- the key of a user's counter -/
def key (userId : String) : String := "ratelimit:" ++ userId

/-- INCR, some times over -/
def incr (c : Option Counter) (times : ℕ) : Option Counter :=
  match times, c with
  | 0, c => c
  | n + 1, none => some ⟨n + 1, none⟩
  | n + 1, some c => some { c with count := c.count + (n + 1) }

/-- EXPIRE, if it is executed; a key that is gone stays gone -/
def expire (now : ℕ) (c : Option Counter) (o : Outcome) : Option Counter :=
  if o.executions = 0 then c else c.map fun c => { c with expiresAt := some (now + rateWindow) }

/-- at its deadline; Redis has up to a millisecond more -/
def Counter.hasExpired (now : ℕ) (c : Counter) : Bool := c.expiresAt.any (· ≤ now)

/-- TTL: the seconds left, rounded, or a number below zero -/
def ttl (now : ℕ) (c : Option Counter) : ℤ :=
  match c with
  | none => -2
  | some c => match c.expiresAt with
    | none => -1
    | some e => (((e - now) / 10 ^ 6 + 500) / 1000 : ℕ)

/-- the Retry-After of a 429 -/
def retryAfter (now : ℕ) (c : Option Counter) (o : Outcome) : ℕ :=
  let left : ℤ := if o.answered then ttl now c else 0
  if left ≤ 0 then 60 else left.toNat

/-- the next command of `Limit`: what it makes of the counter and of the request, and what happens -/
def limit (now : ℕ) (c : Option Counter) (i : ℕ) (o : Outcome) : Phase → Option Counter × Phase × List Event
  | .arrived =>
    let c := incr c o.executions
    match o.answered, c with
    | true, some counter =>
      if counter.count = 1 then (c, .counted, [.counted i counter.count])
      else if rateLimit < counter.count then (c, .limited counter.count, [.counted i counter.count])
      else (c, .passed, [.counted i counter.count])
    -- fail open
    | _, _ => (c, .passed, [])
  | .counted => (expire now c o, .passed, [])
  | .limited _ => (c, .rejected (retryAfter now c o), [.rejected i (retryAfter now c o)])
  | ph => (c, ph, [])

/-- the request has a command to send -/
def Phase.inProgress : Phase → Bool
  | .arrived | .counted | .limited _ => true
  | _ => false

/-- the request has not been handed on or answered -/
def Phase.isOpen (ph : Phase) : Bool := ph.inProgress || ph == .passed

/-- `next.ServeHTTP` -/
def serve (i : ℕ) : Phase → Phase × List Event
  | .passed => (.forwarded, [.forwarded i])
  | ph => (ph, [])

def step (s : St) : Op → St
  | .arrive u i =>
    if s.phase u i = .absent then { s with phase := update s.phase u (update (s.phase u) i .arrived) } else s
  | .command u i o =>
    let x := limit s.now (s.counters (key u)) i o (s.phase u i)
    { s with
      counters := update s.counters (key u) x.1
      phase := update s.phase u (update (s.phase u) i x.2.1)
      log := update s.log u (s.log u ++ x.2.2) }
  | .forward u i =>
    let x := serve i (s.phase u i)
    { s with phase := update s.phase u (update (s.phase u) i x.1), log := update s.log u (s.log u ++ x.2) }
  | .abort u i =>
    if (s.phase u i).isOpen then { s with phase := update s.phase u (update (s.phase u) i .aborted) } else s
  | .tick d =>
    { s with
      now := s.now + d
      counters := fun k => (s.counters k).filter fun c => !c.hasExpired (s.now + d)
      log := fun u => if (s.counters (key u)).any (·.hasExpired (s.now + d)) then s.log u ++ [.expired] else s.log u }

/-! ## The share of one user -/

/-- what concerns one user -/
structure Share where
  now : ℕ
  counter : Option Counter
  phase : ℕ → Phase
  log : List Event

/-- an operation that concerns one user -/
inductive UserOp where
  | arrive (i : ℕ)
  | command (i : ℕ) (o : Outcome)
  | forward (i : ℕ)
  | abort (i : ℕ)
  | tick (d : ℕ)
deriving DecidableEq, Repr

def share (u : String) (s : St) : Share := ⟨s.now, s.counters (key u), s.phase u, s.log u⟩

/-- the operation, if it concerns the user -/
def Op.own (u : String) : Op → Option UserOp
  | .arrive v i => if v = u then some (.arrive i) else none
  | .command v i o => if v = u then some (.command i o) else none
  | .forward v i => if v = u then some (.forward i) else none
  | .abort v i => if v = u then some (.abort i) else none
  | .tick d => some (.tick d)

def Share.step (s : Share) : UserOp → Share
  | .arrive i => if s.phase i = .absent then { s with phase := update s.phase i .arrived } else s
  | .command i o =>
    let x := limit s.now s.counter i o (s.phase i)
    { s with counter := x.1, phase := update s.phase i x.2.1, log := s.log ++ x.2.2 }
  | .forward i =>
    let x := serve i (s.phase i)
    { s with phase := update s.phase i x.1, log := s.log ++ x.2 }
  | .abort i => if (s.phase i).isOpen then { s with phase := update s.phase i .aborted } else s
  | .tick d =>
    { s with
      now := s.now + d
      counter := s.counter.filter fun c => !c.hasExpired (s.now + d)
      log := if s.counter.any (·.hasExpired (s.now + d)) then s.log ++ [.expired] else s.log }

theorem key_injective : Function.Injective key := by
  intro u v h
  have hlist := congrArg String.toList h
  simp only [key, String.toList_append, List.append_cancel_left_eq] at hlist
  exact String.toList_injective hlist

/-- **Isolation of a step.** A user's share changes by the operations that concern the user, and by no other. -/
theorem share_step (u : String) (s : St) (op : Op) :
    share u (step s op) = ((op.own u).map (share u s).step).getD (share u s) := by
  cases op with
  | arrive v i =>
    by_cases hv : v = u
    · subst hv
      simp only [Op.own, if_true, Option.map_some, Option.getD_some, step, Share.step, share]
      split_ifs <;> simp
    · simp only [Op.own, hv, if_false, Option.map_none, Option.getD_none, step, share]
      split_ifs <;> simp [update_of_ne (Ne.symm hv)]
  | command v i o =>
    by_cases hv : v = u
    · subst hv
      simp [Op.own, step, Share.step, share]
    · have hkey : key u ≠ key v := fun h => hv (key_injective h).symm
      simp [Op.own, hv, step, share, update_of_ne hkey, update_of_ne (Ne.symm hv)]
  | forward v i =>
    by_cases hv : v = u
    · subst hv
      simp [Op.own, step, Share.step, share]
    · simp [Op.own, hv, step, share, update_of_ne (Ne.symm hv)]
  | abort v i =>
    by_cases hv : v = u
    · subst hv
      simp only [Op.own, if_true, Option.map_some, Option.getD_some, step, Share.step, share]
      split_ifs <;> simp
    · simp only [Op.own, hv, if_false, Option.map_none, Option.getD_none, step, share]
      split_ifs <;> simp [update_of_ne (Ne.symm hv)]
  | tick d => rfl

theorem share_run (u : String) (s : St) (ops : List Op) :
    share u (run step s ops) = run Share.step (share u s) (ops.filterMap (Op.own u)) :=
  run_view (share_step u) s ops

/-! ## Counters expire -/

/-- every counter of a user without a request in progress has at most a minute to live -/
def Expires (s : St) : Prop :=
  ∀ u, (∀ i, (s.phase u i).inProgress = false) → ∀ c ∈ s.counters (key u), ∃ e ∈ c.expiresAt, e ≤ s.now + rateWindow

/-- an INCR that makes the counter is answered, and so is nothing before it lost; an EXPIRE is executed -/
def Share.Armed (s : Share) : UserOp → Prop
  | .command i o =>
    (s.phase i = .arrived → s.counter = none → o.lost = 0) ∧ (s.phase i = .counted → o.executions ≠ 0)
  | .abort i => s.phase i ≠ .counted
  | .arrive _ | .forward _ | .tick _ => True

instance (s : Share) : (o : UserOp) → Decidable (s.Armed o)
  | .command _ _ => inferInstanceAs (Decidable (_ ∧ _))
  | .abort _ => inferInstanceAs (Decidable (_ ≠ _))
  | .arrive _ | .forward _ | .tick _ => .isTrue trivial

/-- no command that gives a counter its time to live is lost -/
def Armed (s : St) : Op → Prop
  | .command u i o => (share u s).Armed (.command i o)
  | .abort u i => (share u s).Armed (.abort i)
  | .arrive _ _ | .forward _ _ | .tick _ => True

instance (s : St) : (op : Op) → Decidable (Armed s op)
  | .command u i o => inferInstanceAs (Decidable ((share u s).Armed (.command i o)))
  | .abort u i => inferInstanceAs (Decidable ((share u s).Armed (.abort i)))
  | .arrive _ _ | .forward _ _ | .tick _ => .isTrue trivial

theorem Armed.own {s : St} {op : Op} (h : Armed s op) (u : String) : ∀ o ∈ op.own u, (share u s).Armed o := by
  intro o ho
  cases op with
  | arrive v i =>
    obtain ⟨-, rfl⟩ : v = u ∧ .arrive i = o := by simpa [Op.own] using ho
    trivial
  | command v i out =>
    obtain ⟨rfl, rfl⟩ : v = u ∧ .command i out = o := by simpa [Op.own] using ho
    exact h
  | forward v i =>
    obtain ⟨-, rfl⟩ : v = u ∧ .forward i = o := by simpa [Op.own] using ho
    trivial
  | abort v i =>
    obtain ⟨rfl, rfl⟩ : v = u ∧ .abort i = o := by simpa [Op.own] using ho
    exact h
  | tick d =>
    cases ho
    trivial

theorem limit_counter (now : ℕ) (c : Option Counter) (i : ℕ) (o : Outcome) (ph : Phase) :
    (limit now c i o ph).1 = match ph with
      | .arrived => incr c o.executions
      | .counted => expire now c o
      | _ => c := by
  cases ph with
  | arrived =>
    simp only [limit]
    split
    · split_ifs <;> rfl
    · rfl
  | _ => rfl

/-- INCR keeps the time to live -/
theorem incr_expiresAt {c c' : Counter} {n : ℕ} (h : c' ∈ incr (some c) n) : c'.expiresAt = c.expiresAt := by
  cases n with
  | zero => rw [← Option.some.inj h]
  | succ n => rw [← Option.some.inj h]

/-- the counter has at most a minute to live, or the request that made it has its EXPIRE before it -/
def Share.Expiring (s : Share) : Prop :=
  ∀ c ∈ s.counter, (∃ e ∈ c.expiresAt, e ≤ s.now + rateWindow) ∨ ∃ i, s.phase i = .counted

/-- a request at its EXPIRE is there until its own next step -/
theorem counted_stays {phase : ℕ → Phase} {i : ℕ} (p : Phase) (hi : phase i ≠ .counted) (h : ∃ j, phase j = .counted) :
    ∃ j, update phase i p j = .counted := by
  obtain ⟨j, hj⟩ := h
  have hne : j ≠ i := by
    rintro rfl
    exact hi hj
  exact ⟨j, by rw [update_of_ne hne]; exact hj⟩

theorem command_expiring {s : Share} {i : ℕ} {o : Outcome} (h : s.Expiring) (ha : s.Armed (.command i o)) :
    (s.step (.command i o)).Expiring := by
  intro c hc
  simp only [Share.step, limit_counter] at hc ⊢
  cases hph : s.phase i with
  | arrived =>
    rw [hph] at hc
    have hi : s.phase i ≠ .counted := by simp [hph]
    cases hcounter : s.counter with
    | none =>
      -- INCR makes the counter: it is answered 1, and EXPIRE comes next
      have hlost : o.lost = 0 := ha.1 hph hcounter
      cases hans : o.answered with
      | true =>
        right
        refine ⟨i, ?_⟩
        simp [limit, Outcome.executions, hlost, hans, incr]
      | false => simp [hcounter, Outcome.executions, hlost, hans, incr] at hc
    | some c₀ =>
      rw [hcounter] at hc
      rw [incr_expiresAt hc]
      exact (h c₀ hcounter).imp_right (counted_stays _ hi)
  | counted =>
    rw [hph] at hc
    left
    obtain ⟨c₀, -, rfl⟩ : ∃ c₀, s.counter = some c₀ ∧ { c₀ with expiresAt := some (s.now + rateWindow) } = c := by
      simpa [expire, ha.2 hph] using hc
    exact ⟨_, rfl, le_rfl⟩
  | _ =>
    rw [hph] at hc
    exact (h c hc).imp_right (counted_stays _ (by simp [hph]))

theorem step_expiring {s : Share} {o : UserOp} (h : s.Expiring) (ha : s.Armed o) : (s.step o).Expiring := by
  cases o with
  | arrive i =>
    simp only [Share.step]
    split_ifs with habsent
    · intro c hc
      exact (h c hc).imp_right (counted_stays .arrived (by simp [habsent]))
    · exact h
  | command i out => exact command_expiring h ha
  | forward i =>
    simp only [Share.step]
    cases hi : s.phase i with
    | passed =>
      intro c hc
      exact (h c hc).imp_right (counted_stays .forwarded (by simp [hi]))
    | _ =>
      simp only [serve, List.append_nil, ← hi, Function.update_eq_self]
      exact h
  | abort i =>
    simp only [Share.step]
    split_ifs
    · intro c hc
      exact (h c hc).imp_right (counted_stays .aborted ha)
    · exact h
  | tick d =>
    intro c hc
    obtain ⟨hmem, -⟩ := Option.filter_eq_some_iff.1 hc
    rcases h c hmem with ⟨e, he, hle⟩ | hcounted
    · refine .inl ⟨e, he, ?_⟩
      simp only [Share.step]
      omega
    · exact .inr hcounted

/-- one request, with nothing lost -/
def oneRequest (u : String) (i : ℕ) : List Op := [.arrive u i, .command u i .ok, .command u i .ok, .forward u i]

/-- a new request on a counter that is about to be made is forwarded -/
theorem oneRequest_forwarded {s : St} {u : String} {i : ℕ} (hc : s.counters (key u) = none) (hi : s.phase u i = .absent) :
    (run step s (oneRequest u i)).phase u i = .forwarded := by
  simp [oneRequest, run_cons, step, limit, serve, hc, hi, Outcome.ok, Outcome.executions, incr]

/-- **Counters expire.** In a run in which no command that gives a counter its time to live is lost, every counter of a
user without a request in progress has at most a minute to live; after that minute a request of that user is forwarded. -/
theorem expires_when_armed (ops : List Op) (h : Along step Armed init ops) :
    Expires (run step init ops) ∧
      ∀ u i, (∀ j, ((run step init ops).phase u j).inProgress = false) → (run step init ops).phase u i = .absent →
        (run step (run step init ops) (.tick rateWindow :: oneRequest u i)).phase u i = .forwarded := by
  have hexpires : Expires (run step init ops) := by
    intro u hidle c hc
    have halong := along_view (share_step u) (h.mono fun s op ha => ha.own u)
    have hinv : (share u (run step init ops)).Expiring := by
      rw [share_run]
      exact run_inv (fun s o hs ha => step_expiring hs ha) (by intro c hc; cases hc) halong
    refine (hinv c hc).resolve_right ?_
    rintro ⟨i, hi⟩
    have := hidle i
    rw [show (run step init ops).phase u i = .counted from hi] at this
    exact absurd this (by decide)
  refine ⟨hexpires, ?_⟩
  intro u i hidle habsent
  rw [run_cons]
  apply oneRequest_forwarded
  · simp only [step, Option.filter_eq_none_iff]
    intro c hc
    obtain ⟨e, he, hle⟩ := hexpires u hidle c hc
    have heq : c.expiresAt = some e := he
    simp [Counter.hasExpired, heq, hle]
  · exact habsent

/-! ## A counter that stays -/

/-- two requests, nothing lost -/
def twoRequests : List Op := oneRequest "alice" 0 ++ oneRequest "alice" 1

theorem twoRequests_expire : Expires (run step init twoRequests) ∧
    ∀ u i, (∀ j, ((run step init twoRequests).phase u j).inProgress = false) →
      (run step init twoRequests).phase u i = .absent →
        (run step (run step init twoRequests) (.tick rateWindow :: oneRequest u i)).phase u i = .forwarded :=
  expires_when_armed twoRequests (by decide)

/-- the gateway crashes after INCR -/
def crashed : List Op := [.arrive "alice" 0, .command "alice" 0 .ok, .abort "alice" 0]

theorem counter_without_expiry : ¬ Expires (run step init crashed) := by
  intro h
  have hidle : ∀ i, ((run step init crashed).phase "alice" i).inProgress = false := by
    intro i
    cases i <;> rfl
  obtain ⟨e, he, -⟩ := h "alice" hidle ⟨1, none⟩ rfl
  cases he

end Concordia.Gateway.RateLimit
