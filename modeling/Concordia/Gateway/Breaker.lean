/-
The circuit breaker of an upstream (`cbTransport` in `services/gateway/breaker.go`, behind the reverse proxy of
`mustProxy` in `server.go`), shared by all requests to that upstream.

A request is two steps: `Execute` lets it through or refuses it, and later the attempt ends, with the upstream's response
or an error of the transport. The error is the client's where the client has gone away, which cancels the request, or has
sent a body that cannot be read. Any number of requests overlap.

- `never_cut_off_iff`: an upstream that answers every request below 500 is never cut off, and no waiting client is
  answered 503, iff every attempt that the client ends is of a client that has gone and follows fewer than
  `maxFailures - 1` others in a row; a response that was not short-circuited is passed on whatever its status.
- `cut_off`: five clients go away, and the sixth gets 503 from a healthy upstream.
-/
import Concordia.Lib.Run
import Concordia.Lib.Window
import Concordia.Lib.CircuitBreaker

namespace Concordia.Gateway.Breaker

open Concordia.Lib Concordia.Lib.CircuitBreaker
open Function (update update_self update_of_ne)

/-! ## Model -/

structure CbConfig where
  maxFailures : ℕ
  /-- in nanoseconds -/
  openTimeout : ℕ

/-- the settings of `newCBTransport` -/
def settings (cfg : CbConfig) : Settings :=
  ⟨1, 0, cfg.openTimeout, fun c => cfg.maxFailures ≤ c.consecutiveFailures⟩

/-- whose fault an error of the transport is -/
inductive Origin where
  | upstream
  | client
deriving DecidableEq, Repr

/-- what `base.RoundTrip` ends with; `ρ` is the type of responses -/
inductive Result (ρ : Type*) where
  | response (r : ρ)
  | error (origin : Origin)
deriving DecidableEq, Repr

inductive Err where
  | err5xx
  | transport (origin : Origin)
  | rejected (rejection : Rejection)
deriving DecidableEq, Repr

/-- what the client's connection is given: the response, or 503 from the `ErrorHandler` -/
inductive Answer (ρ : Type*) where
  | response (r : ρ)
  | unavailable
deriving DecidableEq, Repr

section

variable {ρ : Type*} (status : ρ → ℕ)

/-- the function that `RoundTrip` has executed -/
def attempt : Result ρ → Option ρ × Option Err
  | .error origin => (none, some (.transport origin))
  | .response r => if 500 ≤ status r then (some r, some .err5xx) else (some r, none)

/-- what `RoundTrip` returns, from what `Execute` does -/
def roundTrip : Option ρ × Option Err → Option ρ × Option Err
  | (resp, some .err5xx) => (resp, none)
  | (resp, err) => (resp, err)

/-- `httputil.ReverseProxy` -/
def proxy : Option ρ × Option Err → Answer ρ
  | (some r, none) => .response r
  | _ => .unavailable

inductive Phase where
  | absent
  /-- let through -/
  | admitted (generation : ℕ)
  | answered
deriving DecidableEq, Repr

def Phase.isAdmitted : Phase → Bool
  | .admitted _ => true
  | _ => false

structure Answered (ρ : Type*) where
  request : ℕ
  answer : Answer ρ
  /-- the client is still there -/
  waiting : Bool
deriving DecidableEq, Repr

structure St (ρ : Type*) where
  now : ℕ
  breaker : Breaker
  phase : ℕ → Phase
  /-- the clients that have closed their connection -/
  gone : ℕ → Bool
  answers : List (Answered ρ)
  /-- how the attempts have ended so far: without an error -/
  outcomes : List Bool

inductive Op (ρ : Type*) where
  /-- a request reaches `RoundTrip` -/
  | start (i : ℕ)
  | finish (i : ℕ) (result : Result ρ)
  /-- the client closes its connection -/
  | leave (i : ℕ)
  | tick (d : ℕ)
deriving DecidableEq, Repr

variable (ρ) in
def init (cfg : CbConfig) : St ρ := ⟨0, new (settings cfg) 0, fun _ => .absent, fun _ => false, [], []⟩

def answer (s : St ρ) (i : ℕ) (executed : Option ρ × Option Err) : St ρ :=
  { s with
    phase := update s.phase i .answered
    answers := s.answers ++ [⟨i, proxy (roundTrip executed), !s.gone i⟩] }

def start (cfg : CbConfig) (s : St ρ) (i : ℕ) : St ρ :=
  match beforeRequest (settings cfg) s.now s.breaker with
  | (.ok generation, b) => { s with breaker := b, phase := update s.phase i (.admitted generation) }
  | (.error rejection, b) => answer { s with breaker := b } i (none, some (.rejected rejection))

def finish (cfg : CbConfig) (s : St ρ) (i generation : ℕ) (result : Result ρ) : St ρ :=
  let executed := attempt status result
  answer
    { s with
      breaker := afterRequest (settings cfg) s.now generation executed.2.isNone s.breaker
      outcomes := s.outcomes ++ [executed.2.isNone] }
    i executed

def step (cfg : CbConfig) (s : St ρ) : Op ρ → St ρ
  | .start i =>
    match s.phase i with
    | .absent => start cfg s i
    | _ => s
  | .finish i result =>
    match s.phase i with
    | .admitted generation => finish status cfg s i generation result
    | _ => s
  | .leave i => { s with gone := update s.gone i true }
  | .tick d => { s with now := s.now + d }

def reached (cfg : CbConfig) (ops : List (Op ρ)) : St ρ := run (step status cfg) (init ρ cfg) ops

/-! ## Properties -/

/-- the upstream answers below 500 and breaks nothing off -/
def Healthy : Op ρ → Prop
  | .finish _ (.response r) => status r < 500
  | .finish _ (.error origin) => origin = .client
  | _ => True

/-- the breaker is not open, and no client that was there to read it has been answered 503 -/
structure Available (s : St ρ) : Prop where
  notOpen : s.breaker.state ≠ .opened
  served : ∀ a ∈ s.answers, a.answer = .unavailable → a.waiting = false

/-- how many attempts in a row have ended in an error, the last one included -/
def failures (s : St ρ) : ℕ := Window.since (fun ok => !ok) id s.outcomes

/-- an attempt that the client ends is of a client that has gone, and does not complete `maxFailures` errors in a row -/
def Calm (cfg : CbConfig) (s : St ρ) : Op ρ → Prop
  | .finish i (.error _) => (s.phase i).isAdmitted = true → s.gone i = true ∧ failures s + 1 < cfg.maxFailures
  | _ => True

instance : DecidablePred (Healthy status)
  | .finish _ (.response r) => inferInstanceAs (Decidable (status r < 500))
  | .finish _ (.error origin) => inferInstanceAs (Decidable (origin = .client))
  | .start _ | .leave _ | .tick _ => inferInstanceAs (Decidable True)

instance (cfg : CbConfig) (s : St ρ) : DecidablePred (Calm cfg s)
  | .finish i (.error _) => inferInstanceAs (Decidable ((s.phase i).isAdmitted = true → _))
  | .finish _ (.response _) | .start _ | .leave _ | .tick _ => inferInstanceAs (Decidable True)

/-- each response to a request that was let through has been passed on as it is -/
def PassedOn (cfg : CbConfig) (ops : List (Op ρ)) : Prop :=
  ∀ a i r b, ops = a ++ .finish i (.response r) :: b → ((reached status cfg a).phase i).isAdmitted = true →
    (reached status cfg (a ++ [.finish i (.response r)])).answers =
      (reached status cfg a).answers ++ [⟨i, .response r, !(reached status cfg a).gone i⟩]

end

/-! ## One request -/

section

variable {ρ : Type*} {status : ρ → ℕ} {cfg : CbConfig} {s : St ρ}

/-- a response is kept, and counted by its status -/
theorem attempt_response (r : ρ) :
    attempt status (.response r) = (some r, if 500 ≤ status r then some .err5xx else none) := by
  simp only [attempt]
  split_ifs <;> rfl

/-- a response is passed on whatever its status -/
theorem proxy_response (r : ρ) : proxy (roundTrip (attempt status (.response r))) = .response r := by
  rw [attempt_response]
  split_ifs <;> rfl

theorem step_start (status : ρ → ℕ) (cfg : CbConfig) (s : St ρ) (i : ℕ) :
    (s.phase i = .absent ∧ step status cfg s (.start i) = start cfg s i) ∨ step status cfg s (.start i) = s := by
  simp only [step]
  cases s.phase i with
  | absent => exact .inl ⟨rfl, rfl⟩
  | admitted g => exact .inr rfl
  | answered => exact .inr rfl

theorem step_finish (status : ρ → ℕ) (cfg : CbConfig) (s : St ρ) (i : ℕ) (result : Result ρ) :
    (∃ g, s.phase i = .admitted g ∧ step status cfg s (.finish i result) = finish status cfg s i g result) ∨
      ((s.phase i).isAdmitted = false ∧ step status cfg s (.finish i result) = s) := by
  simp only [step]
  cases s.phase i with
  | absent => exact .inr ⟨rfl, rfl⟩
  | admitted g => exact .inl ⟨g, rfl, rfl⟩
  | answered => exact .inr ⟨rfl, rfl⟩

@[simp] theorem failures_finish (i g : ℕ) (result : Result ρ) : failures (finish status cfg s i g result) =
    if (attempt status result).2.isNone then 0 else failures s + 1 := by
  rw [failures, failures, finish, answer, Window.since_snoc, Window.count]
  cases (attempt status result).2.isNone <;> rfl

/-- the breaker has never opened and counts the errors in a row -/
structure Closed (s : St ρ) : Prop where
  steady : Steady 1 (failures s) s.breaker
  admitted : ∀ i g, s.phase i = .admitted g → g = 1

theorem closed_init : Closed (init ρ cfg) := ⟨steady_new rfl, fun i g h => by simp [init] at h⟩

/-- a closed breaker lets the request through -/
theorem Closed.start_eq (cfg : CbConfig) (h : Closed s) (i : ℕ) : ∃ b, Steady 1 (failures s) b ∧
    start cfg s i = { s with breaker := b, phase := update s.phase i (.admitted 1) } := by
  obtain ⟨hok, hsteady⟩ := h.steady.before (settings cfg) s.now
  refine ⟨(beforeRequest (settings cfg) s.now s.breaker).2, hsteady, ?_⟩
  unfold start
  split
  · rename_i generation b heq
    rw [heq] at hok
    cases hok
    rw [heq]
  · rename_i rejection b heq
    rw [heq] at hok
    cases hok

theorem Closed.started (h : Closed s) (i : ℕ) : Closed (start cfg s i) := by
  obtain ⟨b, hsteady, heq⟩ := h.start_eq cfg i
  rw [heq]
  refine ⟨hsteady, fun j g hj => ?_⟩
  rcases eq_or_ne j i with rfl | hne
  · simpa using hj.symm
  · exact h.admitted j g (by simpa [update_of_ne hne] using hj)

/-- the breaker once an attempt has ended; the answer changes nothing more of what `Closed` says -/
theorem Closed.ended (h : Closed s) (i : ℕ) {result : Result ρ}
    (hsteady : Steady 1 (failures (finish status cfg s i 1 result)) (finish status cfg s i 1 result).breaker) :
    Closed (finish status cfg s i 1 result) := by
  refine ⟨hsteady, fun j g hj => ?_⟩
  rcases eq_or_ne j i with rfl | hne
  · simp [finish, answer] at hj
  · exact h.admitted j g (by simpa [finish, answer, update_of_ne hne] using hj)

/-- an attempt that ends without an error -/
theorem Closed.success (h : Closed s) (i : ℕ) {result : Result ρ} (hok : (attempt status result).2.isNone = true) :
    Closed (finish status cfg s i 1 result) := by
  refine h.ended i ?_
  rw [failures_finish, hok]
  simp only [finish, answer, hok]
  exact h.steady.success

theorem readyToTrip_iff (h : Closed s) :
    (settings cfg).readyToTrip s.breaker.counts.onFailure = true ↔ cfg.maxFailures ≤ failures s + 1 := by
  rw [← h.steady.failures]
  simp [settings, Counts.onFailure]

/-- an error that leaves the breaker closed -/
theorem Closed.failure (h : Closed s) (i : ℕ) (origin : Origin) (hlt : failures s + 1 < cfg.maxFailures) :
    Closed (finish status cfg s i 1 (.error origin)) := by
  have htrip : (settings cfg).readyToTrip s.breaker.counts.onFailure = false := by
    rw [Bool.eq_false_iff, Ne, readyToTrip_iff h]
    omega
  refine h.ended i ?_
  rw [failures_finish]
  exact h.steady.failure htrip

/-- an error that opens it -/
theorem Closed.trips (h : Closed s) (i : ℕ) (origin : Origin) (hle : cfg.maxFailures ≤ failures s + 1) :
    (finish status cfg s i 1 (.error origin)).breaker.state = .opened :=
  h.steady.trips ((readyToTrip_iff h).2 hle)

/-! ## One step -/

/-- the property after one more answer -/
theorem Available.finish_iff (ha : Available s) (i g : ℕ) (result : Result ρ) :
    Available (finish status cfg s i g result) ↔ (finish status cfg s i g result).breaker.state ≠ .opened ∧
      (proxy (roundTrip (attempt status result)) = .unavailable → s.gone i = true) := by
  have hanswers : (finish status cfg s i g result).answers =
      s.answers ++ [⟨i, proxy (roundTrip (attempt status result)), !s.gone i⟩] := rfl
  refine ⟨?_, ?_⟩
  · intro h
    refine ⟨h.notOpen, fun hun => ?_⟩
    have hnew := h.served _ (hanswers ▸ List.mem_append_right _ (List.mem_singleton.2 rfl)) hun
    simpa using hnew
  · rintro ⟨hopen, hgone⟩
    refine ⟨hopen, fun a hmem hun => ?_⟩
    rw [hanswers] at hmem
    rcases List.mem_append.1 hmem with hmem | hmem
    · exact ha.served a hmem hun
    · obtain rfl := List.mem_singleton.1 hmem
      simp [hgone hun]

/-- an attempt that ends in a response below 500, or in an error -/
theorem finish_available_iff (hc : Closed s) (ha : Available s) {i : ℕ} {result : Result ρ}
    (hh : Healthy status (.finish i result)) (hp : s.phase i = .admitted 1) :
    Available (finish status cfg s i 1 result) ↔ Calm cfg s (.finish i result) := by
  rw [ha.finish_iff]
  cases result with
  | response r =>
    refine iff_of_true ⟨?_, fun hun => ?_⟩ trivial
    · have hok : (attempt status (.response r)).2.isNone = true := by rw [attempt_response, if_neg (not_le.2 hh)]; rfl
      rw [(hc.success i hok).steady.closed]
      decide
    · rw [proxy_response] at hun
      cases hun
  | error origin =>
    refine ⟨?_, ?_⟩
    · rintro ⟨hopen, hgone⟩ -
      refine ⟨hgone rfl, ?_⟩
      by_contra hle
      exact hopen (hc.trips i origin (not_lt.1 hle))
    · intro h
      obtain ⟨hgone, hlt⟩ := h (by rw [hp]; rfl)
      refine ⟨?_, fun _ => hgone⟩
      rw [(hc.failure i origin hlt).steady.closed]
      decide

/-- in a closed breaker's step of a healthy upstream, the property holds afterwards iff the step is calm -/
theorem available_step_iff (hc : Closed s) (ha : Available s) {o : Op ρ} (hh : Healthy status o) :
    Available (step status cfg s o) ↔ Calm cfg s o := by
  cases o with
  | start i =>
    refine iff_of_true ?_ trivial
    rcases step_start status cfg s i with ⟨-, h⟩ | h
    · obtain ⟨b, hsteady, heq⟩ := hc.start_eq cfg i
      rw [h, heq]
      exact ⟨by simp [hsteady.closed], ha.served⟩
    · rwa [h]
  | leave i => exact iff_of_true ⟨ha.notOpen, ha.served⟩ trivial
  | tick d => exact iff_of_true ⟨ha.notOpen, ha.served⟩ trivial
  | finish i result =>
    rcases step_finish status cfg s i result with ⟨g, hp, h⟩ | ⟨hp, h⟩
    · obtain rfl := hc.admitted i g hp
      rw [h]
      exact finish_available_iff hc ha hh hp
    · rw [h]
      refine iff_of_true ha ?_
      cases result with
      | response r => trivial
      | error origin => exact fun hadmitted => absurd hadmitted (by rw [hp]; decide)

theorem Closed.next (hc : Closed s) {o : Op ρ} (hh : Healthy status o) (hcalm : Calm cfg s o) :
    Closed (step status cfg s o) := by
  cases o with
  | start i =>
    rcases step_start status cfg s i with ⟨-, h⟩ | h
    · rw [h]
      exact hc.started i
    · rwa [h]
  | leave i => exact ⟨hc.steady, hc.admitted⟩
  | tick d => exact ⟨hc.steady, hc.admitted⟩
  | finish i result =>
    rcases step_finish status cfg s i result with ⟨g, hp, h⟩ | ⟨-, h⟩
    · obtain rfl := hc.admitted i g hp
      rw [h]
      cases result with
      | response r => exact hc.success i (by rw [attempt_response, if_neg (not_le.2 hh)]; rfl)
      | error origin => exact hc.failure i origin (hcalm (by rw [hp]; rfl)).2
    · rwa [h]

end

/-! ## Runs -/

section

variable {ρ : Type*} (status : ρ → ℕ) (cfg : CbConfig) (ops : List (Op ρ))

theorem always_available_iff (hhealthy : ∀ o ∈ ops, Healthy status o) :
    (∀ a, a <+: ops → Available (reached status cfg a)) ↔ Along (step status cfg) (Calm cfg) (init ρ cfg) ops := by
  have hinit : Available (init ρ cfg) := ⟨by rw [closed_init.steady.closed]; decide, fun a ha => by cases ha⟩
  exact always_iff_along_of (I := Closed) (P := Available) (H := fun _ => Healthy status)
    (fun _ _ hc ha hh => available_step_iff hc ha hh) (fun _ _ hc _ hh hcalm => hc.next hh hcalm) closed_init hinit
    (along_of_mem hhealthy)

theorem passedOn : PassedOn status cfg ops := by
  rintro a i r b rfl hadmitted
  rw [reached, run_snoc, ← reached]
  rcases step_finish status cfg (reached status cfg a) i (.response r) with
    ⟨g, -, h⟩ | ⟨hnot, -⟩
  · rw [h, finish, answer, proxy_response]
  · rw [hnot] at hadmitted
    cases hadmitted

/-- a healthy upstream is never cut off iff its clients' own errors stay calm; and every response is passed on -/
theorem never_cut_off_iff :
    ((∀ o ∈ ops, Healthy status o) →
      ((∀ a, a <+: ops → Available (reached status cfg a)) ↔
        Along (step status cfg) (Calm cfg) (init ρ cfg) ops)) ∧
      PassedOn status cfg ops :=
  ⟨always_available_iff status cfg ops, passedOn status cfg ops⟩

/-- two clients, one of which goes away; the other is served -/
theorem never_cut_off_one : (∀ a, a <+: [Op.start 0, .start 1, .leave 0, .finish 0 (.error .client), .finish 1 (.response 200)] →
    Available (reached id ⟨5, 10 ^ 10⟩ a)) ∧
    (reached id ⟨5, 10 ^ 10⟩ [.start 0, .start 1, .leave 0, .finish 0 (.error .client), .finish 1 (.response 200)]).answers =
      [⟨0, .unavailable, false⟩, ⟨1, .response 200, true⟩] :=
  ⟨((never_cut_off_iff id ⟨5, 10 ^ 10⟩ _).1 (by simp [Healthy])).2 (by decide), by decide⟩

/-- five clients go away before they are answered; the sixth gets 503 although the upstream has not failed -/
theorem cut_off : ∃ ops : List (Op ℕ), (∀ o ∈ ops, Healthy id o) ∧
    (reached id ⟨5, 10 ^ 10⟩ ops).breaker.state = .opened ∧
    ⟨5, .unavailable, true⟩ ∈ (reached id ⟨5, 10 ^ 10⟩ ops).answers := by
  refine ⟨(List.range 5).flatMap (fun i => [.start i, .leave i, .finish i (.error .client)]) ++ [.start 5], ?_, ?_, ?_⟩
  · decide
  · decide
  · decide

end

end Concordia.Gateway.Breaker
