/-
What reaches an upstream that the circuit breaker has cut off (`cbTransport` in `services/gateway/breaker.go`), and how it
is let back in.

Over the breaker's counters stands a machine of four modes: closed, open since a time, half-open with no request on its way,
half-open with the one request that probes the upstream. Requests start, end and overlap as they like.

- `step_refines`: what one operation does is one move of that machine.
- `probe_decides`: half-open, the breaker waits for the probe alone and however long it takes; its success closes the
  breaker, its failure opens it again.
- `dead_upstream`: while no probe succeeds, at most one request in each `openTimeout` reaches the upstream, and never two
  at a time.
-/
import Concordia.Gateway.OpenState

namespace Concordia.Gateway.Breaker

open Concordia.Lib Concordia.Lib.CircuitBreaker
open Function (update_self update_of_ne)

/-! ## The modes of the breaker -/

inductive Mode where
  | closed
  | opened (since : ℕ)
  /-- half-open, before the probe -/
  | idle
  | probing (i : ℕ)
deriving DecidableEq, Repr

section

variable {ρ : Type*} (status : ρ → ℕ) (cfg : CbConfig)

/-- what one operation at a time can do to the mode, and which requests it lets through -/
inductive Move (now : ℕ) (o : Op ρ) : Mode → List ℕ → Mode → Prop
  | quiet (m : Mode) : Move now o m [] m
  | serves (i : ℕ) : Move now o .closed [i] .closed
  | trips : Move now o .closed [] (.opened now)
  | expires {t : ℕ} (hover : t + cfg.openTimeout < now) : Move now o (.opened t) [] .idle
  | halfOpens {t : ℕ} (i : ℕ) (hover : t + cfg.openTimeout < now) : Move now o (.opened t) [i] (.probing i)
  | probes (i : ℕ) : Move now o .idle [i] (.probing i)
  | closes {i : ℕ} {result : Result ρ} (ho : o = .finish i result) (hok : (attempt status result).2.isNone = true) :
    Move now o (.probing i) [] .closed
  | reopens {i : ℕ} {result : Result ρ} (ho : o = .finish i result) (hfailed : (attempt status result).2.isNone = false) :
    Move now o (.probing i) [] (.opened now)

/-- the breaker is in this mode; the requests in flight of its generation are those that the mode knows of -/
def InMode (s : St ρ) : Mode → Prop
  | .closed => ∃ n, Steady s.breaker.generation n s.breaker
  | .opened t => OpenSince (settings cfg) t s.breaker ∧ ∀ i, s.phase i ≠ .admitted s.breaker.generation
  | .idle => HalfOpen s.breaker.generation 0 s.breaker ∧ ∀ i, s.phase i ≠ .admitted s.breaker.generation
  | .probing i => HalfOpen s.breaker.generation 1 s.breaker ∧ ∀ j, s.phase j = .admitted s.breaker.generation ↔ j = i

structure Refines (s : St ρ) (m : Mode) : Prop where
  mode : InMode cfg s m
  admitted : ∀ i g, s.phase i = .admitted g → g ≤ s.breaker.generation

/-- the request that an operation lets through -/
def admittedBy (s : St ρ) (o : Op ρ) : List ℕ :=
  match o with
  | .start i => if s.phase i = .absent ∧ ((step status cfg s o).phase i).isAdmitted = true then [i] else []
  | _ => []

/-- the requests that a run lets through to the upstream -/
def letThrough (s : St ρ) : List (Op ρ) → List ℕ
  | [] => []
  | o :: ops => admittedBy status cfg s o ++ letThrough (step status cfg s o) ops

end

section

variable {ρ : Type*} {status : ρ → ℕ} {cfg : CbConfig} {s : St ρ} {m : Mode}

/-! ## A request that starts -/

theorem start_ok {i g : ℕ} {b : Breaker} (h : beforeRequest (settings cfg) s.now s.breaker = (.ok g, b)) :
    start cfg s i = { s with breaker := b, phase := Function.update s.phase i (.admitted g) } := by
  rw [start, h]

theorem start_error {i : ℕ} {rejection : Rejection} {b : Breaker}
    (h : beforeRequest (settings cfg) s.now s.breaker = (.error rejection, b)) :
    start cfg s i = answer { s with breaker := b } i (none, some (.rejected rejection)) := by
  rw [start, h]

theorem admittedBy_start {i : ℕ} (hi : s.phase i = .absent) :
    admittedBy status cfg s (.start i) = if ((start cfg s i).phase i).isAdmitted = true then [i] else [] := by
  simp only [admittedBy, step, hi, true_and]

/-- a request that is refused changes nothing -/
theorem Refines.refused (status : ρ → ℕ) {i : ℕ} {rejection : Rejection} (h : Refines cfg s m) (hi : s.phase i = .absent)
    (hbefore : beforeRequest (settings cfg) s.now s.breaker = (.error rejection, s.breaker)) :
    admittedBy status cfg s (.start i) = [] ∧ Refines cfg (start cfg s i) m := by
  have hstart := start_error (i := i) hbefore
  have hphase : ∀ j g, (start cfg s i).phase j = .admitted g ↔ s.phase j = .admitted g := by
    intro j g
    rw [hstart]
    rcases eq_or_ne j i with rfl | hne
    · simp [answer, hi]
    · simp [answer, update_of_ne hne]
  have hbreaker : (start cfg s i).breaker = s.breaker := by
    rw [hstart]
    rfl
  refine ⟨?_, ?_, ?_⟩
  · rw [admittedBy_start hi, hstart]
    simp [answer, Phase.isAdmitted]
  · cases m <;> simpa only [InMode, hbreaker, hphase, ne_eq] using h.mode
  · intro j g hj
    rw [hbreaker]
    exact h.admitted j g ((hphase j g).1 hj)

/-- a request that is let through into the generation of the probe -/
theorem Refines.probed (status : ρ → ℕ) {i g : ℕ} {b : Breaker} (hi : s.phase i = .absent)
    (hbefore : beforeRequest (settings cfg) s.now s.breaker = (.ok g, b)) (hb : HalfOpen g 1 b)
    (hold : ∀ j g', s.phase j = .admitted g' → g' < g) :
    admittedBy status cfg s (.start i) = [i] ∧ Refines cfg (start cfg s i) (.probing i) := by
  have hstart := start_ok (i := i) hbefore
  have hg : b.generation = g := hb.generation
  refine ⟨?_, ⟨?_, ?_⟩, ?_⟩
  · rw [admittedBy_start hi, hstart]
    simp [Phase.isAdmitted]
  · rw [hstart]
    exact hg ▸ hb
  · intro j
    rw [hstart]
    rcases eq_or_ne j i with rfl | hne
    · simp [hg]
    · simp only [update_of_ne hne, hg, hne, iff_false]
      exact fun hj => absurd (hold j g hj) (lt_irrefl g)
  · intro j g' hj
    rw [hstart] at hj ⊢
    rcases eq_or_ne j i with rfl | hne
    · simp only [update_self, Phase.admitted.injEq] at hj
      exact (hj.symm.trans hg.symm).le
    · simp only [update_of_ne hne] at hj
      exact (hold j g' hj).le.trans hg.ge

/-- an open breaker whose timeout is over, before the next request and after the end of an earlier one -/
theorem over_before {t : ℕ} (h : OpenSince (settings cfg) t s.breaker) (hover : t + cfg.openTimeout < s.now) :
    ∃ b, beforeRequest (settings cfg) s.now s.breaker = (.ok (s.breaker.generation + 1), b) ∧
      HalfOpen (s.breaker.generation + 1) 1 b := by
  have hhalf := h.expires hover
  rw [before_of_current (hhalf.current _ _)]
  exact hhalf.admits (settings cfg) s.now Nat.zero_lt_one

theorem over_after {t g : ℕ} (success : Bool) (h : OpenSince (settings cfg) t s.breaker)
    (hover : t + cfg.openTimeout < s.now) (hg : g ≤ s.breaker.generation) :
    HalfOpen (s.breaker.generation + 1) 0 (afterRequest (settings cfg) s.now g success s.breaker) := by
  have hhalf := h.expires hover
  rw [after_of_current success (hhalf.current _ _), hhalf.stale _ _ success (Nat.ne_of_lt (Nat.lt_succ_of_le hg))]
  exact hhalf

theorem Refines.start (status : ρ → ℕ) {i : ℕ} (h : Refines cfg s m) (hi : s.phase i = .absent) :
    ∃ m', Move status cfg s.now (.start i) m (admittedBy status cfg s (.start i)) m' ∧
      Refines cfg (start cfg s i) m' := by
  cases m with
  | closed =>
    obtain ⟨n, hclosed⟩ := h.mode
    obtain ⟨hok, hsteady⟩ := hclosed.before (settings cfg) s.now
    have hbefore : beforeRequest (settings cfg) s.now s.breaker =
        (.ok s.breaker.generation, (beforeRequest (settings cfg) s.now s.breaker).2) := Prod.ext hok rfl
    have hstart := start_ok (i := i) hbefore
    have hlet : admittedBy status cfg s (.start i) = [i] := by
      rw [admittedBy_start hi, hstart]
      simp [Phase.isAdmitted]
    refine ⟨.closed, hlet ▸ .serves i, ?_, ?_⟩
    · rw [hstart]
      exact ⟨n, hsteady.closed, rfl, hsteady.lasting, hsteady.failures⟩
    · intro j g hj
      rw [hstart] at hj ⊢
      simp only [hsteady.generation]
      rcases eq_or_ne j i with rfl | hne
      · simp only [update_self, Phase.admitted.injEq] at hj
        exact hj.ge
      · simp only [update_of_ne hne] at hj
        exact h.admitted j g hj
  | opened t =>
    obtain ⟨hopen, -⟩ := h.mode
    by_cases hnow : s.now ≤ t + cfg.openTimeout
    · obtain ⟨hlet, hrefines⟩ := h.refused status hi (hopen.before hnow)
      exact ⟨.opened t, hlet ▸ .quiet _, hrefines⟩
    · have hover := Nat.lt_of_not_le hnow
      obtain ⟨b, hbefore, hb⟩ := over_before hopen hover
      obtain ⟨hlet, hrefines⟩ := Refines.probed status hi hbefore hb
        fun j g hj => Nat.lt_succ_of_le (h.admitted j g hj)
      exact ⟨.probing i, hlet ▸ .halfOpens i hover, hrefines⟩
  | idle =>
    obtain ⟨hhalf, hnone⟩ := h.mode
    obtain ⟨b, hbefore, hb⟩ := hhalf.admits (settings cfg) s.now Nat.zero_lt_one
    obtain ⟨hlet, hrefines⟩ := Refines.probed status hi hbefore hb
      fun j g hj => lt_of_le_of_ne (h.admitted j g hj) fun heq => hnone j (heq ▸ hj)
    exact ⟨.probing i, hlet ▸ .probes i, hrefines⟩
  | probing k =>
    obtain ⟨hhalf, -⟩ := h.mode
    obtain ⟨hlet, hrefines⟩ := h.refused status hi (hhalf.refuses s.now le_rfl)
    exact ⟨.probing k, hlet ▸ .quiet _, hrefines⟩

/-! ## A request that ends -/

theorem phase_finish {i g j g' : ℕ} {result : Result ρ} :
    (finish status cfg s i g result).phase j = .admitted g' ↔ j ≠ i ∧ s.phase j = .admitted g' := by
  rcases eq_or_ne j i with rfl | hne
  · simp [finish, answer]
  · simp [finish, answer, hne]

theorem breaker_finish {i g : ℕ} {result : Result ρ} : (finish status cfg s i g result).breaker =
    afterRequest (settings cfg) s.now g (attempt status result).2.isNone s.breaker := rfl

/-- the generations of the requests in flight stay below that of the breaker, which only grows -/
theorem Refines.of_finish {i g : ℕ} {result : Result ρ} {m' : Mode} (h : Refines cfg s m)
    (hmode : InMode cfg (finish status cfg s i g result) m')
    (hgen : s.breaker.generation ≤ (finish status cfg s i g result).breaker.generation) :
    Refines cfg (finish status cfg s i g result) m' :=
  ⟨hmode, fun j g' hj => (h.admitted j g' (phase_finish.1 hj).2).trans hgen⟩

/-- no request is in flight of a generation that is only beginning -/
theorem Refines.none_next {i g : ℕ} {result : Result ρ} (h : Refines cfg s m)
    (hgen : (finish status cfg s i g result).breaker.generation = s.breaker.generation + 1) (j : ℕ) :
    (finish status cfg s i g result).phase j ≠ .admitted (finish status cfg s i g result).breaker.generation := by
  intro hj
  have hle := h.admitted j _ (phase_finish.1 hj).2
  omega

theorem steady_own {g n : ℕ} {b : Breaker} (h : Steady g n b) : Steady b.generation n b := by
  rwa [h.generation]

/-- the end of the probe decides -/
theorem Refines.decides (status : ρ → ℕ) {i : ℕ} (h : Refines cfg s (.probing i)) (result : Result ρ) :
    ∃ m', Move status cfg s.now (.finish i result) (.probing i) [] m' ∧
      Refines cfg (finish status cfg s i s.breaker.generation result) m' ∧
      (finish status cfg s i s.breaker.generation result).breaker.state =
        if (attempt status result).2.isNone = true then .closed else .opened := by
  obtain ⟨hhalf, -⟩ := h.mode
  have hbreaker : (finish status cfg s i s.breaker.generation result).breaker = _ := breaker_finish
  cases hok : (attempt status result).2.isNone with
  | true =>
    have hsteady := hhalf.success (settings cfg) s.now le_rfl rfl
    rw [hok] at hbreaker
    rw [← hbreaker] at hsteady
    exact ⟨.closed, .closes rfl hok,
      h.of_finish ⟨0, steady_own hsteady⟩ (hsteady.generation ▸ Nat.le_succ _), hsteady.closed⟩
  | false =>
    obtain ⟨hopen, hgen⟩ := hhalf.failure (settings cfg) s.now
    rw [hok] at hbreaker
    rw [← hbreaker] at hopen hgen
    exact ⟨.opened s.now, .reopens rfl hok, h.of_finish ⟨hopen, h.none_next hgen⟩ (hgen ▸ Nat.le_succ _),
      hopen.opened⟩

theorem Refines.finish {i g : ℕ} (h : Refines cfg s m) (hi : s.phase i = .admitted g) (result : Result ρ) :
    ∃ m', Move status cfg s.now (.finish i result) m [] m' ∧ Refines cfg (finish status cfg s i g result) m' := by
  have hle := h.admitted i g hi
  have hbreaker : (Breaker.finish status cfg s i g result).breaker = _ := breaker_finish
  cases m with
  | closed =>
    obtain ⟨n, hclosed⟩ := h.mode
    rcases eq_or_ne g s.breaker.generation with rfl | hg
    · cases hok : (attempt status result).2.isNone with
      | true =>
        have hsteady : Steady s.breaker.generation 0
            (afterRequest (settings cfg) s.now s.breaker.generation true s.breaker) := hclosed.success
        rw [hok] at hbreaker
        rw [← hbreaker] at hsteady
        exact ⟨.closed, .quiet _, h.of_finish ⟨0, steady_own hsteady⟩ hsteady.generation.ge⟩
      | false =>
        rw [hok] at hbreaker
        cases htrip : (settings cfg).readyToTrip s.breaker.counts.onFailure with
        | true =>
          obtain ⟨hopen, hgen⟩ := hclosed.tripped s.now htrip
          rw [← hbreaker] at hopen hgen
          exact ⟨.opened s.now, .trips, h.of_finish ⟨hopen, h.none_next hgen⟩ (hgen ▸ Nat.le_succ _)⟩
        | false =>
          have hsteady : Steady s.breaker.generation (n + 1)
              (afterRequest (settings cfg) s.now s.breaker.generation false s.breaker) := hclosed.failure htrip
          rw [← hbreaker] at hsteady
          exact ⟨.closed, .quiet _, h.of_finish ⟨n + 1, steady_own hsteady⟩ hsteady.generation.ge⟩
    · rw [hclosed.stale _ _ _ hg] at hbreaker
      exact ⟨.closed, .quiet _, h.of_finish ⟨n, hbreaker ▸ hclosed⟩ (hbreaker ▸ le_rfl)⟩
  | opened t =>
    obtain ⟨hopen, hnone⟩ := h.mode
    by_cases hnow : s.now ≤ t + cfg.openTimeout
    · rw [hopen.after hnow] at hbreaker
      refine ⟨.opened t, .quiet _, h.of_finish ⟨hbreaker ▸ hopen, fun j hj => ?_⟩ (hbreaker ▸ le_rfl)⟩
      rw [hbreaker] at hj
      exact hnone j (phase_finish.1 hj).2
    · have hover := Nat.lt_of_not_le hnow
      have hhalf := over_after (attempt status result).2.isNone hopen hover hle
      rw [← hbreaker] at hhalf
      exact ⟨.idle, .expires hover,
        h.of_finish ⟨hhalf.generation ▸ hhalf, h.none_next hhalf.generation⟩ (hhalf.generation ▸ Nat.le_succ _)⟩
  | idle =>
    obtain ⟨hhalf, hnone⟩ := h.mode
    rw [hhalf.stale _ _ _ fun hg => hnone i (hg ▸ hi)] at hbreaker
    refine ⟨.idle, .quiet _, h.of_finish ⟨hbreaker ▸ hhalf, fun j hj => ?_⟩ (hbreaker ▸ le_rfl)⟩
    rw [hbreaker] at hj
    exact hnone j (phase_finish.1 hj).2
  | probing k =>
    obtain ⟨hhalf, hprobe⟩ := h.mode
    rcases eq_or_ne g s.breaker.generation with rfl | hg
    · obtain rfl := (hprobe i).1 hi
      obtain ⟨m', hmove, hrefines, -⟩ := h.decides status result
      exact ⟨m', hmove, hrefines⟩
    · rw [hhalf.stale _ _ _ hg] at hbreaker
      refine ⟨.probing k, .quiet _, h.of_finish ⟨hbreaker ▸ hhalf, fun j => ?_⟩ (hbreaker ▸ le_rfl)⟩
      rw [hbreaker, phase_finish, hprobe j]
      refine ⟨And.right, fun hj => ⟨?_, hj⟩⟩
      -- the request that has ended is another one
      rintro rfl
      exact hg (Phase.admitted.inj (hi.symm.trans ((hprobe j).2 hj)))

/-! ## One step -/

theorem refines_init (cfg : CbConfig) : Refines cfg (init ρ cfg) .closed :=
  ⟨⟨0, steady_own closed_init.steady⟩, fun _ _ h => by cases h⟩

/-- what one operation does to the breaker and lets through is a move of the modes -/
theorem step_refines (status : ρ → ℕ) (h : Refines cfg s m) (o : Op ρ) :
    ∃ m', Move status cfg s.now o m (admittedBy status cfg s o) m' ∧ Refines cfg (step status cfg s o) m' := by
  cases o with
  | start i =>
    cases hi : s.phase i with
    | absent =>
      have hstep : step status cfg s (.start i) = start cfg s i := by simp only [step, hi]
      rw [hstep]
      exact h.start status hi
    | _ =>
      have hstep : step status cfg s (.start i) = s := by simp only [step, hi]
      have hlet : admittedBy status cfg s (.start i) = [] := by simp [admittedBy, hi]
      rw [hstep, hlet]
      exact ⟨m, .quiet m, h⟩
  | finish i result =>
    rcases step_finish status cfg s i result with ⟨g, hg, hstep⟩ | ⟨-, hstep⟩
    · rw [hstep]
      exact h.finish hg result
    · rw [hstep]
      exact ⟨m, .quiet m, h⟩
  | leave i =>
    refine ⟨m, .quiet m, ?_, h.admitted⟩
    cases m <;> exact h.mode
  | tick d =>
    refine ⟨m, .quiet m, ?_, h.admitted⟩
    cases m <;> exact h.mode

theorem run_refines (status : ρ → ℕ) (h : Refines cfg s m) (ops : List (Op ρ)) :
    ∃ m', Refines cfg (run (step status cfg) s ops) m' := by
  induction ops generalizing s m with
  | nil => exact ⟨m, h⟩
  | cons o ops ih =>
    obtain ⟨m', -, hnext⟩ := step_refines status h o
    exact ih hnext

theorem reached_refines (status : ρ → ℕ) (cfg : CbConfig) (ops : List (Op ρ)) :
    ∃ m, Refines cfg (reached status cfg ops) m := run_refines status (refines_init cfg) ops

/-! ## The probe -/

/-- while the probe is on its way nothing but its end moves the breaker -/
theorem run_probing {i : ℕ} (h : Refines cfg s (.probing i)) {ops : List (Op ρ)}
    (hops : ∀ result, .finish i result ∉ ops) :
    letThrough status cfg s ops = [] ∧ Refines cfg (run (step status cfg) s ops) (.probing i) := by
  induction ops generalizing s with
  | nil => exact ⟨rfl, h⟩
  | cons o ops ih =>
    have hrest : ∀ result, .finish i result ∉ ops := fun result ho => hops result (List.mem_cons_of_mem _ ho)
    obtain ⟨m', hmove, hnext⟩ := step_refines status h o
    generalize hlet : admittedBy status cfg s o = ids at hmove
    cases hmove with
    | quiet =>
      rw [letThrough, hlet]
      exact ih hnext hrest
    | closes ho => exact absurd (List.mem_cons.2 (.inl ho.symm)) (hops _)
    | reopens ho => exact absurd (List.mem_cons.2 (.inl ho.symm)) (hops _)

theorem Refines.halfOpen {g : ℕ} (h : Refines cfg s m) (hstate : s.breaker.state = .halfOpen)
    (hg : g = s.breaker.generation) : (m = .idle ∧ ∀ i, s.phase i ≠ .admitted g) ∨
      ∃ i, m = .probing i ∧ s.phase i = .admitted g := by
  subst hg
  cases m with
  | closed =>
    obtain ⟨n, hclosed⟩ := h.mode
    rw [hclosed.closed] at hstate
    cases hstate
  | opened t =>
    obtain ⟨hopen, -⟩ := h.mode
    rw [hopen.opened] at hstate
    cases hstate
  | idle => exact .inl ⟨rfl, h.mode.2⟩
  | probing i => exact .inr ⟨i, rfl, (h.mode.2 i).2 rfl⟩

/-- a request that arrives while the probe is on its way is answered 503 -/
theorem Refines.unavailable {i j : ℕ} (h : Refines cfg s (.probing i)) (hj : s.phase j = .absent) :
    (step status cfg s (.start j)).answers = s.answers ++ [⟨j, .unavailable, !s.gone j⟩] := by
  have hstep : step status cfg s (.start j) = Breaker.start cfg s j := by simp only [step, hj]
  rw [hstep, start_error (h.mode.1.refuses s.now le_rfl)]
  rfl

/-- **The probe decides.** In every reached state in which the breaker is half-open, either no request of its generation is
in flight and the next one that arrives is let through; or one is, and then, however long it takes and whatever else ends
meanwhile, the breaker stays half-open and every request that arrives is answered 503, until that one ends: without an error
the breaker is closed then, and otherwise open. -/
theorem probe_decides (status : ρ → ℕ) (cfg : CbConfig) (ops : List (Op ρ))
    (hstate : (reached status cfg ops).breaker.state = .halfOpen) :
    let s := reached status cfg ops
    ((∀ i, s.phase i ≠ .admitted s.breaker.generation) ∧
      ∀ i, s.phase i = .absent → admittedBy status cfg s (.start i) = [i]) ∨
    ∃ i, s.phase i = .admitted s.breaker.generation ∧ ∀ more, (∀ result, .finish i result ∉ more) →
      let s' := run (step status cfg) s more
      s'.breaker.state = .halfOpen ∧ letThrough status cfg s more = [] ∧
        (∀ j, s'.phase j = .absent →
          (step status cfg s' (.start j)).answers = s'.answers ++ [⟨j, .unavailable, !s'.gone j⟩]) ∧
        ∀ result, (step status cfg s' (.finish i result)).breaker.state =
          if (attempt status result).2.isNone = true then .closed else .opened := by
  intro s
  obtain ⟨m, h⟩ := reached_refines status cfg ops
  rcases h.halfOpen hstate rfl with ⟨rfl, hnone⟩ | ⟨i, rfl, hi⟩
  · refine .inl ⟨hnone, fun i hi => ?_⟩
    obtain ⟨hhalf, -⟩ := h.mode
    obtain ⟨b, hbefore, hb⟩ := hhalf.admits (settings cfg) s.now Nat.zero_lt_one
    exact (Refines.probed status hi hbefore hb
      fun j g hj => lt_of_le_of_ne (h.admitted j g hj) fun heq => hnone j (heq ▸ hj)).1
  · refine .inr ⟨i, hi, fun more hmore => ?_⟩
    intro s'
    obtain ⟨hlet, hprobing⟩ := run_probing h hmore
    refine ⟨hprobing.mode.1.halfOpen, hlet, fun j hj => hprobing.unavailable hj, fun result => ?_⟩
    have hadmitted : s'.phase i = .admitted s'.breaker.generation := (hprobing.mode.2 i).2 rfl
    have hstep : step status cfg s' (.finish i result) = finish status cfg s' i s'.breaker.generation result := by
      simp only [step, hadmitted]
    obtain ⟨m', -, -, hdecided⟩ := hprobing.decides status result
    rw [hstep]
    exact hdecided

def twoInARow : CbConfig := ⟨2, 10⟩

/-- two requests fail, and the breaker opens -/
def outage : List (Op ℕ) := [.start 0, .start 1, .start 2, .finish 0 (.response 502), .finish 1 (.error .upstream)]

/-- eleven time units after the outage a request is let through and hangs -/
def hanging : List (Op ℕ) := outage ++ [.tick 11, .start 3]

theorem hanging_cutOff :
    (run (step id twoInARow) (reached id twoInARow hanging)
      [.tick 3600, .finish 2 (.response 200), .start 4]).breaker.state = .halfOpen := by
  rcases probe_decides id twoInARow hanging (by decide) with ⟨hnone, -⟩ | ⟨i, hi, hwaits⟩
  · exact absurd (by decide) (hnone 3)
  · refine (hwaits _ fun result hmem => ?_).1
    simp only [List.mem_cons, List.not_mem_nil, reduceCtorEq, Op.finish.injEq, false_or, or_false] at hmem
    rw [hmem.1] at hi
    -- the request that ends meanwhile is of an earlier generation
    exact absurd hi (by decide)

/-! ## An upstream that fails -/

theorem mem_admittedBy {i : ℕ} {o : Op ρ} (hi : i ∈ admittedBy status cfg s o) : s.phase i = .absent := by
  cases o with
  | start j =>
    rw [admittedBy] at hi
    split_ifs at hi with hj
    · rw [List.mem_singleton.1 hi]
      exact hj.1
    · cases hi
  | _ => cases hi

/-- a request goes its way once: it arrives, may be let through, is answered -/
theorem step_phase (status : ρ → ℕ) (cfg : CbConfig) (s : St ρ) (o : Op ρ) (j : ℕ) :
    (s.phase j = .answered → (step status cfg s o).phase j = .answered) ∧
      ((step status cfg s o).phase j = .absent → s.phase j = .absent) := by
  cases o with
  | start i =>
    rcases step_start status cfg s i with ⟨hi, hstep⟩ | hstep
    · rw [hstep]
      rcases eq_or_ne j i with rfl | hne
      · exact ⟨fun hj => absurd (hi.symm.trans hj) (by simp), fun _ => hi⟩
      · have hphase : (start cfg s i).phase j = s.phase j := by
          rw [start]
          split
          · exact update_of_ne hne _ _
          · exact update_of_ne hne _ _
        rw [hphase]
        exact ⟨id, id⟩
    · rw [hstep]
      exact ⟨id, id⟩
  | finish i result =>
    rcases step_finish status cfg s i result with ⟨g, hi, hstep⟩ | ⟨-, hstep⟩
    · rw [hstep]
      rcases eq_or_ne j i with rfl | hne
      · simp [finish, answer]
      · have hphase : (finish status cfg s i g result).phase j = s.phase j := update_of_ne hne _ _
        rw [hphase]
        exact ⟨id, id⟩
    · rw [hstep]
      exact ⟨id, id⟩
  | leave i => exact ⟨id, id⟩
  | tick d => exact ⟨id, id⟩

/-- what the mode says about the time when so many requests have been let through since the breaker opened at `start` -/
def Bound (cfg : CbConfig) (start n now : ℕ) : Mode → Prop
  | .closed => False
  | .opened t => start + n * (cfg.openTimeout + 1) ≤ t ∧ t ≤ now
  | .idle => start + (n + 1) * (cfg.openTimeout + 1) ≤ now
  | .probing _ => start + n * (cfg.openTimeout + 1) ≤ now

/-- the requests `ids` have been let through since the breaker opened in the state `s₀`, and none succeeded -/
structure Dead (cfg : CbConfig) (s₀ : St ρ) (ids : List ℕ) (s : St ρ) (m : Mode) : Prop where
  refines : Refines cfg s m
  bound : Bound cfg s₀.now ids.length s.now m
  settled : ∀ i ∈ ids, s.phase i = .answered ∨ m = .probing i
  late : ∀ i, s.phase i = .absent ∨ m = .probing i → s₀.phase i = .absent

theorem Dead.step {s₀ : St ρ} {ids : List ℕ} (h : Dead cfg s₀ ids s m) {o : Op ρ}
    (hfails : ∀ i result, o = .finish i result → s₀.phase i = .absent → (attempt status result).2.isNone = false) :
    ∃ m', Dead cfg s₀ (ids ++ admittedBy status cfg s o) (Breaker.step status cfg s o) m' := by
  obtain ⟨m', hmove, hrefines⟩ := step_refines status h.refines o
  have hnow : s.now ≤ (Breaker.step status cfg s o).now := now_le_run status cfg s [o]
  have hanswered : ∀ i, s.phase i = .answered → (Breaker.step status cfg s o).phase i = .answered :=
    fun i => (step_phase status cfg s o i).1
  have habsent : ∀ i, (Breaker.step status cfg s o).phase i = .absent → s₀.phase i = .absent :=
    fun i hi => h.late i (.inl ((step_phase status cfg s o i).2 hi))
  have hbound := h.bound
  refine ⟨m', ?_⟩
  generalize hlet : admittedBy status cfg s o = new at hmove
  have hnew : ∀ i ∈ new, s₀.phase i = .absent := fun i hi => h.late i (.inl (mem_admittedBy (hlet ▸ hi)))
  have hlength : (ids.length + 1) * (cfg.openTimeout + 1) = ids.length * (cfg.openTimeout + 1) + cfg.openTimeout + 1 := by
    rw [Nat.add_one_mul, Nat.add_assoc]
  -- a request that was let through before the probe has been answered
  have hprobe : (∀ j, m ≠ .probing j) → ∀ i, ∀ j ∈ ids ++ [i],
      (Breaker.step status cfg s o).phase j = .answered ∨ Mode.probing i = .probing j := by
    intro hm i j hj
    rcases List.mem_append.1 hj with hj | hj
    · exact .inl (hanswered j ((h.settled j hj).resolve_right (hm j)))
    · rw [List.mem_singleton.1 hj]
      exact .inr rfl
  cases hmove with
  | quiet =>
    rw [List.append_nil]
    refine ⟨hrefines, ?_, fun i hi => (h.settled i hi).imp_left (hanswered i), fun i hi => ?_⟩
    · cases m with
      | closed => exact hbound
      | opened t => exact ⟨hbound.1, hbound.2.trans hnow⟩
      | idle => exact hbound.trans hnow
      | probing i => exact hbound.trans hnow
    · exact hi.elim (habsent i) fun hi => h.late i (.inr hi)
  | serves i => exact hbound.elim
  | trips => exact hbound.elim
  | expires hover =>
    rw [List.append_nil]
    refine ⟨hrefines, ?_, fun i hi => .inl (hanswered i ((h.settled i hi).resolve_right (by simp))),
      fun i hi => habsent i (hi.resolve_right (by simp))⟩
    simp only [Bound] at hbound ⊢
    omega
  | halfOpens i hover =>
    refine ⟨hrefines, ?_, hprobe (by simp) i, fun j hj => ?_⟩
    · simp only [Bound, List.length_append, List.length_singleton] at hbound ⊢
      omega
    · exact hj.elim (habsent j) fun hj => hnew j (by simpa using (Mode.probing.inj hj).symm)
  | probes i =>
    refine ⟨hrefines, ?_, hprobe (by simp) i, fun j hj => ?_⟩
    · simp only [Bound, List.length_append, List.length_singleton] at hbound ⊢
      omega
    · exact hj.elim (habsent j) fun hj => hnew j (by simpa using (Mode.probing.inj hj).symm)
  | @closes i result ho hok =>
    have hfailed := hfails i result ho (h.late i (.inr rfl))
    rw [hok] at hfailed
    cases hfailed
  | @reopens i result ho hfailed =>
    rw [List.append_nil]
    refine ⟨hrefines, ⟨hbound, hnow⟩, fun j hj => .inl ?_, fun j hj => habsent j (hj.resolve_right (by simp))⟩
    rcases h.settled j hj with hj | hj
    · exact hanswered j hj
    · -- the probe itself has ended
      obtain rfl := Mode.probing.inj hj
      have hadmitted := (h.refines.mode.2 i).2 rfl
      rw [ho]
      simp [Breaker.step, hadmitted, Breaker.finish, answer]

theorem Dead.run {s₀ : St ρ} {ids : List ℕ} (h : Dead cfg s₀ ids s m) {ops : List (Op ρ)}
    (hfails : ∀ i result, .finish i result ∈ ops → s₀.phase i = .absent → (attempt status result).2.isNone = false) :
    ∃ m', Dead cfg s₀ (ids ++ letThrough status cfg s ops) (Lib.run (Breaker.step status cfg) s ops) m' := by
  induction ops generalizing s m ids with
  | nil =>
    rw [letThrough, List.append_nil]
    exact ⟨m, h⟩
  | cons o ops ih =>
    obtain ⟨m', hnext⟩ := h.step fun i result ho => hfails i result (List.mem_cons.2 (.inl ho.symm))
    rw [letThrough, ← List.append_assoc]
    exact ih hnext fun i result ho => hfails i result (List.mem_cons_of_mem _ ho)

theorem dead_opened {a : List (Op ρ)} {o : Op ρ} (hclosed : (reached status cfg a).breaker.state ≠ .opened)
    (hopened : (reached status cfg (a ++ [o])).breaker.state = .opened) :
    Dead cfg (reached status cfg (a ++ [o])) [] (reached status cfg (a ++ [o]))
      (.opened (reached status cfg (a ++ [o])).now) := by
  have hsince := reached_opens hclosed hopened
  obtain ⟨m, h⟩ := reached_refines status cfg (a ++ [o])
  refine ⟨⟨⟨hsince, ?_⟩, h.admitted⟩, ?_, List.forall_mem_nil _, fun i hi => hi.resolve_right (by simp)⟩
  · cases m with
    | opened t => exact h.mode.2
    | closed =>
      obtain ⟨n, hn⟩ := h.mode
      exact absurd (hn.closed.symm.trans hopened) (by decide)
    | idle => exact absurd (h.mode.1.halfOpen.symm.trans hopened) (by decide)
    | probing i => exact absurd (h.mode.1.halfOpen.symm.trans hopened) (by decide)
  · rw [Bound, List.length_nil]
    omega

/-- **A dead upstream.** From a moment at which the breaker opens, as long as no request that arrives from then on ends
without an error, and whatever the earlier ones end with, the breaker does not close, `n` requests reach the upstream only if
more than `openTimeout` has passed for each of them, and no two of them are in flight together. -/
theorem dead_upstream {a : List (Op ρ)} {o : Op ρ} {b : List (Op ρ)}
    (hclosed : (reached status cfg a).breaker.state ≠ .opened)
    (hopened : (reached status cfg (a ++ [o])).breaker.state = .opened)
    (hfails : ∀ i result, .finish i result ∈ b → (reached status cfg (a ++ [o])).phase i = .absent →
      (attempt status result).2.isNone = false) :
    let s₀ := reached status cfg (a ++ [o])
    let s := reached status cfg (a ++ o :: b)
    let sent := letThrough status cfg s₀ b
    s.breaker.state ≠ .closed ∧ s₀.now + sent.length * (cfg.openTimeout + 1) ≤ s.now ∧
      ∀ i ∈ sent, ∀ j ∈ sent, (s.phase i).isAdmitted = true → (s.phase j).isAdmitted = true → i = j := by
  intro s₀ s sent
  obtain ⟨m, h⟩ := (dead_opened hclosed hopened).run hfails
  rw [List.nil_append, ← reached_run] at h
  have hflight : ∀ i ∈ sent, (s.phase i).isAdmitted = true → m = .probing i := by
    intro i hi hadmitted
    refine (h.settled i hi).resolve_left fun hanswered => ?_
    rw [hanswered] at hadmitted
    cases hadmitted
  refine ⟨?_, ?_, fun i hi j hj hin hjn => Mode.probing.inj ((hflight i hi hin).symm.trans (hflight j hj hjn))⟩
  · cases m with
    | closed => exact h.bound.elim
    | opened t => rw [h.refines.mode.1.opened]; decide
    | idle => rw [h.refines.mode.1.halfOpen]; decide
    | probing i => rw [h.refines.mode.1.halfOpen]; decide
  · cases m with
    | closed => exact h.bound.elim
    | opened t => exact h.bound.1.trans h.bound.2
    | idle => exact le_trans (Nat.add_le_add_left (Nat.mul_le_mul_right _ (Nat.le_succ _)) _) h.bound
    | probing i => exact h.bound

end

/-- a late success, two requests too early, a probe that fails, and the next one on its way -/
def twoProbes : List (Op ℕ) :=
  [.finish 2 (.response 200), .start 3, .tick 11, .start 4, .start 5, .finish 4 (.response 500), .tick 11, .start 6]

theorem twoProbes_dead :
    let s₀ := reached id twoInARow outage
    let s := reached id twoInARow (outage ++ twoProbes)
    letThrough id twoInARow s₀ twoProbes = [4, 6] ∧ s.breaker.state ≠ .closed ∧
      s₀.now + (letThrough id twoInARow s₀ twoProbes).length * (twoInARow.openTimeout + 1) ≤ s.now := by
  have hfails : ∀ i result, Op.finish i result ∈ twoProbes → (reached id twoInARow outage).phase i = .absent →
      (attempt id result).2.isNone = false := by
    intro i result hi habsent
    simp only [twoProbes, List.mem_cons, List.not_mem_nil, reduceCtorEq, Op.finish.injEq, false_or, or_false] at hi
    rcases hi with ⟨rfl, rfl⟩ | ⟨rfl, rfl⟩
    · exact absurd habsent (by decide)
    · rfl
  obtain ⟨hstate, hsent, -⟩ := @dead_upstream _ id twoInARow outage.dropLast (.finish 1 (.error .upstream)) twoProbes
    (by decide) (by decide) hfails
  exact ⟨by decide, hstate, hsent⟩

end Concordia.Gateway.Breaker
