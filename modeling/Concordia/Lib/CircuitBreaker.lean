/-
A circuit breaker with generations: closed, it lets every request through and counts; a failure that makes it ready to
trip opens it; open, it refuses until its timeout is over; half-open, it lets a few requests through, and they decide.

`beforeRequest` and `afterRequest` are the two ends of an execution; in between others run. What a request of an earlier
generation ends with is not counted.

- `OpenSince t`: opened at `t`. An open breaker came from a failure (`openSince_after`), stays as it is until its timeout is
  over (`OpenSince.before`, `OpenSince.after`), and then the next request makes it half-open (`OpenSince.half_opens`).
- `HalfOpen n`: half-open, with `n` requests let through. It lets no more than its settings allow through
  (`HalfOpen.admits`, `HalfOpen.refuses`), what earlier requests end with changes nothing (`HalfOpen.stale`), and the first
  of its own that ends decides: `HalfOpen.success`, `HalfOpen.failure`.
- `Steady`: a closed breaker whose counts are never cleared has counted so many failures in a row; `Steady.before`,
  `Steady.success` and `Steady.failure` are what it remains through, `Steady.trips` is how it opens.
-/
import Mathlib.Tactic.Common
import Mathlib.Data.Nat.Notation

namespace Concordia.Lib.CircuitBreaker

/-! ## Model -/

inductive State where
  | closed
  | halfOpen
  | opened
deriving DecidableEq, Repr

structure Counts where
  requests : ℕ
  totalSuccesses : ℕ
  totalFailures : ℕ
  consecutiveSuccesses : ℕ
  consecutiveFailures : ℕ
deriving DecidableEq, Repr

namespace Counts

def zero : Counts := ⟨0, 0, 0, 0, 0⟩

def onRequest (c : Counts) : Counts := { c with requests := c.requests + 1 }

def onSuccess (c : Counts) : Counts :=
  { c with
    totalSuccesses := c.totalSuccesses + 1
    consecutiveSuccesses := c.consecutiveSuccesses + 1
    consecutiveFailures := 0 }

def onFailure (c : Counts) : Counts :=
  { c with
    totalFailures := c.totalFailures + 1
    consecutiveFailures := c.consecutiveFailures + 1
    consecutiveSuccesses := 0 }

end Counts

structure Settings where
  /-- how many requests a half-open breaker lets through -/
  maxRequests : ℕ
  /-- how often a closed breaker's counts are cleared; 0: never -/
  interval : ℕ
  /-- how long it stays open -/
  timeout : ℕ
  readyToTrip : Counts → Bool

structure Breaker where
  state : State
  generation : ℕ
  counts : Counts
  /-- none: no expiry -/
  expiry : Option ℕ
deriving DecidableEq, Repr

inductive Rejection where
  | openState
  | tooManyRequests
deriving DecidableEq, Repr

variable (st : Settings) (now : ℕ)

def toNewGeneration (b : Breaker) : Breaker :=
  { b with
    generation := b.generation + 1
    counts := .zero
    expiry :=
      match b.state with
      | .closed => if st.interval = 0 then none else some (now + st.interval)
      | .opened => some (now + st.timeout)
      | .halfOpen => none }

def setState (state : State) (b : Breaker) : Breaker :=
  if b.state = state then b else toNewGeneration st now { b with state := state }

def new : Breaker := toNewGeneration st now ⟨.closed, 0, .zero, none⟩

def expired (b : Breaker) : Prop := ∃ t ∈ b.expiry, t < now

instance (b : Breaker) : Decidable (expired now b) :=
  decidable_of_iff (b.expiry.any (· < now) = true) (by cases h : b.expiry <;> simp [expired, h])

def currentState (b : Breaker) : Breaker :=
  match b.state with
  | .closed => if expired now b then toNewGeneration st now b else b
  | .opened => if expired now b then setState st now .halfOpen b else b
  | .halfOpen => b

/-- the generation of the request, if it is let through -/
def beforeRequest (b : Breaker) : Except Rejection ℕ × Breaker :=
  let b := currentState st now b
  if b.state = .opened then (.error .openState, b)
  else if b.state = .halfOpen ∧ st.maxRequests ≤ b.counts.requests then (.error .tooManyRequests, b)
  else (.ok b.generation, { b with counts := b.counts.onRequest })

def onSuccess (b : Breaker) : Breaker :=
  let b' := { b with counts := b.counts.onSuccess }
  match b.state with
  | .closed => b'
  | .halfOpen => if st.maxRequests ≤ b'.counts.consecutiveSuccesses then setState st now .closed b' else b'
  | .opened => b

def onFailure (b : Breaker) : Breaker :=
  match b.state with
  | .closed =>
    let b' := { b with counts := b.counts.onFailure }
    if st.readyToTrip b'.counts = true then setState st now .opened b' else b'
  | .halfOpen => setState st now .opened b
  | .opened => b

/-- the request of generation `before` has ended -/
def afterRequest (before : ℕ) (success : Bool) (b : Breaker) : Breaker :=
  let b := currentState st now b
  if b.generation ≠ before then b
  else if success then onSuccess st now b
  else onFailure st now b

/-! ## An open breaker -/

/-- it has been open since `t` -/
structure OpenSince (st : Settings) (t : ℕ) (b : Breaker) : Prop where
  opened : b.state = .opened
  expiry : b.expiry = some (t + st.timeout)

section

variable {st} {now} {t g : ℕ} {success : Bool} {b : Breaker}

theorem OpenSince.current (h : OpenSince st t b) (hnow : now ≤ t + st.timeout) : currentState st now b = b := by
  have hexp : ¬expired now b := by
    simp only [expired, h.expiry, Option.mem_some_iff, exists_eq_left']
    exact Nat.not_lt.2 hnow
  rw [currentState, h.opened]
  exact if_neg hexp

/-- before its timeout is over it refuses every request -/
theorem OpenSince.before (h : OpenSince st t b) (hnow : now ≤ t + st.timeout) :
    beforeRequest st now b = (.error .openState, b) := by
  simp [beforeRequest, h.current hnow, h.opened]

/-- and what the requests end with that it let through earlier changes nothing -/
theorem OpenSince.after (h : OpenSince st t b) (hnow : now ≤ t + st.timeout) : afterRequest st now g success b = b := by
  simp only [afterRequest, h.current hnow]
  split_ifs
  · rfl
  · simp [onSuccess, h.opened]
  · simp [onFailure, h.opened]

/-- a request changes the state only as the clock does -/
theorem before_state (st : Settings) (now : ℕ) (b : Breaker) :
    (beforeRequest st now b).2.state = (currentState st now b).state := by
  simp only [beforeRequest]
  split_ifs <;> rfl

/-- once its timeout is over the next request finds it half-open -/
theorem OpenSince.half_opens (h : OpenSince st t b) (hnow : t + st.timeout < now) :
    (beforeRequest st now b).2.state = .halfOpen := by
  have hexp : expired now b := ⟨_, h.expiry, hnow⟩
  rw [before_state, currentState, h.opened]
  simp [hexp, setState, h.opened, toNewGeneration]

theorem current_state (hb : b.state ≠ .opened) : (currentState st now b).state = b.state := by
  rw [currentState]
  cases hs : b.state with
  | closed =>
    simp only
    split_ifs
    · exact hs
    · exact hs
  | halfOpen => exact hs
  | opened => exact absurd hs hb

/-- a request does not open it -/
theorem before_not_opened (hb : b.state ≠ .opened) : (beforeRequest st now b).2.state ≠ .opened := by
  rwa [before_state, current_state hb]

theorem openSince_setState (hb : b.state ≠ .opened) : OpenSince st now (setState st now .opened b) := by
  rw [setState, if_neg hb]
  exact ⟨rfl, rfl⟩

theorem onSuccess_not_opened (hb : b.state ≠ .opened) : (onSuccess st now b).state ≠ .opened := by
  rw [onSuccess]
  cases hs : b.state with
  | closed => simp
  | halfOpen =>
    simp only
    split_ifs
    · simp [setState, toNewGeneration]
    · simp
  | opened => exact absurd hs hb

theorem openSince_onFailure (hb : b.state ≠ .opened) (hopened : (onFailure st now b).state = .opened) :
    OpenSince st now (onFailure st now b) := by
  rw [onFailure] at hopened ⊢
  cases hs : b.state with
  | closed =>
    simp only [hs] at hopened ⊢
    split_ifs at hopened ⊢
    exact openSince_setState (by simp)
  | halfOpen => exact openSince_setState hb
  | opened => exact absurd hs hb

/-- a breaker that the end of a request opens is open from then on -/
theorem openSince_after (hb : b.state ≠ .opened) (hopened : (afterRequest st now g success b).state = .opened) :
    OpenSince st now (afterRequest st now g success b) := by
  have hcurrent : (currentState st now b).state ≠ .opened := by rwa [current_state hb]
  simp only [afterRequest] at hopened ⊢
  split_ifs at hopened ⊢
  · exact absurd hopened hcurrent
  · exact absurd hopened (onSuccess_not_opened hcurrent)
  · exact openSince_onFailure hcurrent hopened

end

/-! ## A closed breaker -/

/-- closed in this generation, its counts never cleared, after so many failures in a row -/
structure Steady (generation failures : ℕ) (b : Breaker) : Prop where
  closed : b.state = .closed
  generation : b.generation = generation
  lasting : b.expiry = none
  failures : b.counts.consecutiveFailures = failures

variable {st now} {g n : ℕ} {b : Breaker}

theorem steady_new (h : st.interval = 0) : Steady 1 0 (new st now) := by
  refine ⟨rfl, rfl, ?_, rfl⟩
  simp [new, toNewGeneration, h]

theorem Steady.current (h : Steady g n b) : currentState st now b = b := by
  have hexp : ¬expired now b := by simp [expired, h.lasting]
  rw [currentState, h.closed]
  exact if_neg hexp

/-- a closed breaker lets every request through -/
theorem Steady.before (st : Settings) (now : ℕ) (h : Steady g n b) :
    (beforeRequest st now b).1 = .ok g ∧ Steady g n (beforeRequest st now b).2 := by
  have heq : beforeRequest st now b = (.ok b.generation, { b with counts := b.counts.onRequest }) := by
    simp [beforeRequest, h.current, h.closed]
  rw [heq]
  exact ⟨by rw [h.generation], h.closed, h.generation, h.lasting, h.failures⟩

theorem Steady.success (h : Steady g n b) : Steady g 0 (afterRequest st now g true b) := by
  have heq : afterRequest st now g true b = { b with counts := b.counts.onSuccess } := by
    simp [afterRequest, h.current, h.generation, onSuccess, h.closed]
  rw [heq]
  exact ⟨h.closed, h.generation, h.lasting, rfl⟩

theorem Steady.after_failure (h : Steady g n b) : afterRequest st now g false b =
    if st.readyToTrip b.counts.onFailure = true then setState st now .opened { b with counts := b.counts.onFailure }
    else { b with counts := b.counts.onFailure } := by
  simp [afterRequest, h.current, h.generation, onFailure, h.closed]

/-- one failure more -/
theorem Steady.failure (h : Steady g n b) (htrip : st.readyToTrip b.counts.onFailure = false) :
    Steady g (n + 1) (afterRequest st now g false b) := by
  rw [h.after_failure, htrip]
  exact ⟨h.closed, h.generation, h.lasting, by rw [← h.failures]; rfl⟩

/-- what a request of another generation ends with changes nothing -/
theorem Steady.stale (st : Settings) (now : ℕ) {g' : ℕ} (success : Bool) (h : Steady g n b) (hg : g' ≠ g) :
    afterRequest st now g' success b = b := by
  have hother : b.generation ≠ g' := fun heq => hg (heq.symm.trans h.generation)
  simp only [afterRequest, h.current]
  rw [if_pos hother]

theorem Steady.tripped (now : ℕ) (h : Steady g n b) (htrip : st.readyToTrip b.counts.onFailure = true) :
    OpenSince st now (afterRequest st now g false b) ∧ (afterRequest st now g false b).generation = g + 1 := by
  have heq : afterRequest st now g false b =
      toNewGeneration st now { b with state := .opened, counts := b.counts.onFailure } := by
    rw [h.after_failure, htrip]
    simp [setState, h.closed]
  rw [heq]
  exact ⟨⟨rfl, rfl⟩, congrArg (· + 1) h.generation⟩

/-- the failure that makes it ready to trip opens it -/
theorem Steady.trips (h : Steady g n b) (htrip : st.readyToTrip b.counts.onFailure = true) :
    (afterRequest st now g false b).state = .opened := by
  rw [h.after_failure, htrip]
  simp [setState, h.closed, toNewGeneration]

/-! ## A half-open breaker -/

/-- half-open in this generation, so many requests let through, none of which has ended -/
structure HalfOpen (generation requests : ℕ) (b : Breaker) : Prop where
  halfOpen : b.state = .halfOpen
  generation : b.generation = generation
  requests : b.counts.requests = requests
  undecided : b.counts.consecutiveSuccesses = 0

variable {t g' : ℕ}

theorem HalfOpen.current (st : Settings) (now : ℕ) (h : HalfOpen g n b) : currentState st now b = b := by
  rw [currentState, h.halfOpen]

/-- an open breaker whose timeout is over is found half-open -/
theorem OpenSince.expires (h : OpenSince st t b) (hnow : t + st.timeout < now) :
    HalfOpen (b.generation + 1) 0 (currentState st now b) := by
  have hexp : expired now b := ⟨_, h.expiry, hnow⟩
  have heq : currentState st now b = toNewGeneration st now { b with state := .halfOpen } := by
    rw [currentState, h.opened]
    simp [hexp, setState, h.opened]
  rw [heq]
  exact ⟨rfl, rfl, rfl, rfl⟩

/-- a request finds a breaker as it is after the clock has been looked at -/
theorem before_of_current (h : currentState st now (currentState st now b) = currentState st now b) :
    beforeRequest st now b = beforeRequest st now (currentState st now b) := by
  simp only [beforeRequest, h]

theorem after_of_current (success : Bool) (h : currentState st now (currentState st now b) = currentState st now b) :
    afterRequest st now g success b = afterRequest st now g success (currentState st now b) := by
  simp only [afterRequest, h]

/-- while the limit is not reached the next request is let through -/
theorem HalfOpen.admits (st : Settings) (now : ℕ) (h : HalfOpen g n b) (hn : n < st.maxRequests) :
    ∃ b', beforeRequest st now b = (.ok g, b') ∧ HalfOpen g (n + 1) b' := by
  refine ⟨{ b with counts := b.counts.onRequest }, ?_, h.halfOpen, h.generation, ?_, h.undecided⟩
  · simp [beforeRequest, h.current, h.halfOpen, h.requests, h.generation, hn]
  · rw [Counts.onRequest, h.requests]

/-- and then none -/
theorem HalfOpen.refuses (now : ℕ) (h : HalfOpen g n b) (hn : st.maxRequests ≤ n) :
    beforeRequest st now b = (.error .tooManyRequests, b) := by
  simp [beforeRequest, h.current, h.halfOpen, h.requests, hn]

/-- what a request of another generation ends with changes nothing -/
theorem HalfOpen.stale (st : Settings) (now : ℕ) (success : Bool) (h : HalfOpen g n b) (hg : g' ≠ g) :
    afterRequest st now g' success b = b := by
  have hother : b.generation ≠ g' := fun heq => hg (heq.symm.trans h.generation)
  simp only [afterRequest, h.current]
  rw [if_pos hother]

/-- where one request is let through, its success closes the breaker -/
theorem HalfOpen.success (st : Settings) (now : ℕ) (h : HalfOpen g n b) (hone : st.maxRequests ≤ 1) (hinterval : st.interval = 0) :
    Steady (g + 1) 0 (afterRequest st now g true b) := by
  have heq : afterRequest st now g true b =
      toNewGeneration st now { b with state := .closed, counts := b.counts.onSuccess } := by
    simp [afterRequest, h.current, h.generation, onSuccess, h.halfOpen, Counts.onSuccess, h.undecided, hone, setState]
  rw [heq]
  refine ⟨rfl, congrArg (· + 1) h.generation, ?_, rfl⟩
  simp [toNewGeneration, hinterval]

/-- its failure opens it again -/
theorem HalfOpen.failure (st : Settings) (now : ℕ) (h : HalfOpen g n b) :
    OpenSince st now (afterRequest st now g false b) ∧ (afterRequest st now g false b).generation = g + 1 := by
  have heq : afterRequest st now g false b = toNewGeneration st now { b with state := .opened } := by
    simp [afterRequest, h.current, h.generation, onFailure, h.halfOpen, setState]
  rw [heq]
  exact ⟨⟨rfl, rfl⟩, congrArg (· + 1) h.generation⟩

end Concordia.Lib.CircuitBreaker
