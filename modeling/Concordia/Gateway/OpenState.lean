/-
The open state of an upstream's circuit breaker: from the failure that opens it until its timeout is over, whatever
requests arrive and end meanwhile.

- `step_breaker`: what an operation can do to the breaker, which only the end of a request opens.
- `opens`: in every configuration the upstream can fail the breaker until it opens.
- `staysOpen_iff`: over every run, a breaker that has opened stays open for a time exactly if that is at most its timeout.
-/
import Concordia.Gateway.Breaker

namespace Concordia.Gateway.Breaker

open Concordia.Lib Concordia.Lib.CircuitBreaker
open Function (update_self update_of_ne)

/-- a breaker that has opened is open as long as no more than `time` has passed -/
def StaysOpen {ρ : Type*} (status : ρ → ℕ) (cfg : CbConfig) (time : ℕ) : Prop :=
  ∀ a o b, (reached status cfg a).breaker.state ≠ .opened → (reached status cfg (a ++ [o])).breaker.state = .opened →
    (reached status cfg (a ++ o :: b)).now ≤ (reached status cfg (a ++ [o])).now + time →
    (reached status cfg (a ++ o :: b)).breaker.state = .opened

section

variable {ρ : Type*} {status : ρ → ℕ} {cfg : CbConfig} {s : St ρ}

/-! ## One step -/

theorem start_breaker (cfg : CbConfig) (s : St ρ) (i : ℕ) :
    (start cfg s i).breaker = (beforeRequest (settings cfg) s.now s.breaker).2 ∧ (start cfg s i).now = s.now := by
  unfold start
  split
  · rename_i generation b heq
    rw [heq]
    exact ⟨rfl, rfl⟩
  · rename_i rejection b heq
    rw [heq]
    exact ⟨rfl, rfl⟩

/-- what an operation can do to the breaker and to the clock -/
theorem step_breaker (status : ρ → ℕ) (cfg : CbConfig) (s : St ρ) (o : Op ρ) :
    ((step status cfg s o).now = s.now ∧
      ((step status cfg s o).breaker = (beforeRequest (settings cfg) s.now s.breaker).2 ∨
        ∃ g success, (step status cfg s o).breaker = afterRequest (settings cfg) s.now g success s.breaker)) ∨
    (s.now ≤ (step status cfg s o).now ∧ (step status cfg s o).breaker = s.breaker) := by
  cases o with
  | start i =>
    rcases step_start status cfg s i with ⟨-, h⟩ | h
    · rw [h]
      exact .inl ⟨(start_breaker cfg s i).2, .inl (start_breaker cfg s i).1⟩
    · rw [h]
      exact .inr ⟨le_rfl, rfl⟩
  | finish i result =>
    rcases step_finish status cfg s i result with ⟨g, -, h⟩ | ⟨-, h⟩
    · rw [h]
      exact .inl ⟨rfl, .inr ⟨g, _, rfl⟩⟩
    · rw [h]
      exact .inr ⟨le_rfl, rfl⟩
  | leave i => exact .inr ⟨le_rfl, rfl⟩
  | tick d => exact .inr ⟨Nat.le_add_right _ _, rfl⟩

theorem step_open {t : ℕ} (h : OpenSince (settings cfg) t s.breaker) (hnow : s.now ≤ t + cfg.openTimeout) (o : Op ρ) :
    OpenSince (settings cfg) t (step status cfg s o).breaker := by
  rcases step_breaker status cfg s o with ⟨-, hb | ⟨g, success, hb⟩⟩ | ⟨-, hb⟩
  · rw [hb, h.before hnow]
    exact h
  · rw [hb, h.after hnow]
    exact h
  · rw [hb]
    exact h

/-- a step that opens the breaker starts the timeout -/
theorem step_opens {o : Op ρ} (hb : s.breaker.state ≠ .opened) (hopened : (step status cfg s o).breaker.state = .opened) :
    OpenSince (settings cfg) (step status cfg s o).now (step status cfg s o).breaker := by
  rcases step_breaker status cfg s o with ⟨hnow, heq | ⟨g, success, heq⟩⟩ | ⟨-, heq⟩
  · rw [heq] at hopened
    exact absurd hopened (before_not_opened hb)
  · rw [heq] at hopened
    rw [heq, hnow]
    exact openSince_after hb hopened
  · rw [heq] at hopened
    exact absurd hopened hb

/-! ## Runs -/

theorem now_le_run (status : ρ → ℕ) (cfg : CbConfig) (s : St ρ) (ops : List (Op ρ)) :
    s.now ≤ (run (step status cfg) s ops).now := by
  refine run_rel (R := fun s s' : St ρ => s.now ≤ s'.now) (fun _ => le_rfl) (fun _ _ _ => le_trans) ?_ s ops
  intro s o
  rcases step_breaker status cfg s o with ⟨h, -⟩ | ⟨h, -⟩
  · exact h.ge
  · exact h

theorem run_open {t : ℕ} (h : OpenSince (settings cfg) t s.breaker) {ops : List (Op ρ)}
    (hnow : (run (step status cfg) s ops).now ≤ t + cfg.openTimeout) :
    OpenSince (settings cfg) t (run (step status cfg) s ops).breaker := by
  induction ops generalizing s with
  | nil => exact h
  | cons o ops ih =>
    have hstart : s.now ≤ t + cfg.openTimeout := (now_le_run status cfg s (o :: ops)).trans hnow
    exact ih (step_open h hstart o) hnow

theorem reached_run (status : ρ → ℕ) (cfg : CbConfig) (a : List (Op ρ)) (o : Op ρ) (b : List (Op ρ)) :
    reached status cfg (a ++ o :: b) = run (step status cfg) (reached status cfg (a ++ [o])) b := by
  rw [reached, reached, ← run_append, List.append_assoc, List.singleton_append]

theorem reached_opens {a : List (Op ρ)} {o : Op ρ} (hclosed : (reached status cfg a).breaker.state ≠ .opened)
    (hopened : (reached status cfg (a ++ [o])).breaker.state = .opened) :
    OpenSince (settings cfg) (reached status cfg (a ++ [o])).now (reached status cfg (a ++ [o])).breaker := by
  rw [reached, run_snoc, ← reached] at hopened ⊢
  exact step_opens hclosed hopened

theorem staysOpen_of_le {time : ℕ} (h : time ≤ cfg.openTimeout) : StaysOpen status cfg time := by
  intro a o b hclosed hopened hnow
  rw [reached_run] at hnow ⊢
  exact (run_open (reached_opens hclosed hopened) (hnow.trans (Nat.add_le_add_left h _))).opened

/-- the first request after the timeout is the probe -/
theorem probe (status : ρ → ℕ) {t i : ℕ} (h : OpenSince (settings cfg) t s.breaker) (hnow : t + cfg.openTimeout < s.now)
    (hi : s.phase i = .absent) : (step status cfg s (.start i)).breaker.state = .halfOpen ∧
      (step status cfg s (.start i)).now = s.now := by
  have hstep : step status cfg s (.start i) = start cfg s i := by
    simp only [step, hi]
  rw [hstep, (start_breaker cfg s i).1]
  exact ⟨h.half_opens hnow, (start_breaker cfg s i).2⟩

/-! ## Opening -/

/-- `k` requests, one after the other, that the upstream fails -/
def failing (ρ : Type*) (k : ℕ) : List (Op ρ) := (List.range k).flatMap fun i => [.start i, .finish i (.error .upstream)]

/-- a breaker that has counted `k` failures in a row, and requests from `i` on that it has not seen -/
structure Counting (k i : ℕ) (s : St ρ) : Prop where
  closed : Closed s
  count : failures s = k
  fresh : ∀ j, i ≤ j → s.phase j = .absent

theorem Counting.started (status : ρ → ℕ) (cfg : CbConfig) {k : ℕ} (h : Counting k k s) :
    Counting k (k + 1) (step status cfg s (.start k)) ∧
    (step status cfg s (.start k)).phase k = .admitted 1 := by
  have hstep : step status cfg s (.start k) = start cfg s k := by
    simp only [step, h.fresh k le_rfl]
  have hclosed : Closed (start cfg s k) := h.closed.started k
  obtain ⟨b, -, heq⟩ := h.closed.start_eq cfg k
  rw [hstep]
  rw [heq] at hclosed ⊢
  refine ⟨⟨hclosed, h.count, fun j hj => ?_⟩, update_self ..⟩
  exact (update_of_ne (Nat.ne_of_gt hj) _ _).trans (h.fresh j (Nat.le_of_succ_le hj))

theorem step_fail (status : ρ → ℕ) (cfg : CbConfig) {k : ℕ} (hk : s.phase k = .admitted 1) :
    step status cfg s (.finish k (.error .upstream)) = finish status cfg s k 1 (.error .upstream) := by
  simp only [step, hk]

theorem Counting.failed {k : ℕ} (h : Counting k (k + 1) s) (hk : s.phase k = .admitted 1) (hlt : k + 1 < cfg.maxFailures) :
    Counting (k + 1) (k + 1) (step status cfg s (.finish k (.error .upstream))) := by
  rw [step_fail status cfg hk]
  refine ⟨h.closed.failure k .upstream (by rwa [h.count]), ?_, fun j hj => ?_⟩
  · rw [failures_finish, h.count]
    rfl
  · exact (update_of_ne (Nat.ne_of_gt hj) _ _).trans (h.fresh j hj)

theorem counting_failing (status : ρ → ℕ) (cfg : CbConfig) {k : ℕ} (hk : k < cfg.maxFailures ∨ k = 0) :
    Counting k k (reached status cfg (failing ρ k)) := by
  induction k with
  | zero => exact ⟨closed_init, rfl, fun _ _ => rfl⟩
  | succ k ih =>
    obtain ⟨hstarted, hadmitted⟩ := (ih (by omega)).started status cfg
    have hrun : reached status cfg (failing ρ (k + 1)) =
        step status cfg (step status cfg (reached status cfg (failing ρ k)) (.start k)) (.finish k (.error .upstream)) := by
      rw [failing, List.range_succ, List.flatMap_append, reached, run_append]
      rfl
    rw [hrun]
    exact hstarted.failed hadmitted (by omega)

/-- the upstream can fail it until it opens, and there are requests that it has not seen then -/
theorem opens (status : ρ → ℕ) (cfg : CbConfig) : ∃ a o, (reached status cfg a).breaker.state ≠ .opened ∧
    (reached status cfg (a ++ [o])).breaker.state = .opened ∧
    ∃ i, (reached status cfg (a ++ [o])).phase i = .absent := by
  obtain ⟨k, hk⟩ : ∃ k, cfg.maxFailures - 1 = k := ⟨_, rfl⟩
  have hcounting : Counting k k (reached status cfg (failing ρ k)) := counting_failing status cfg (by omega)
  obtain ⟨hstarted, hadmitted⟩ := hcounting.started status cfg
  refine ⟨failing ρ k ++ [.start k], .finish k (.error .upstream), ?_, ?_, k + 1, ?_⟩
  · rw [reached, run_snoc, ← reached, hstarted.closed.steady.closed]
    decide
  · rw [reached, run_snoc, run_snoc, ← reached, step_fail status cfg hadmitted]
    exact hstarted.closed.trips k .upstream (by rw [hstarted.count]; omega)
  · rw [reached, run_snoc, run_snoc, ← reached, step_fail status cfg hadmitted]
    exact (update_of_ne (Nat.succ_ne_self k) _ _).trans (hstarted.fresh (k + 1) le_rfl)

/-- **The open state.** A breaker stays open for a time exactly if its timeout is not less. -/
theorem staysOpen_iff {time : ℕ} : StaysOpen status cfg time ↔ time ≤ cfg.openTimeout := by
  refine ⟨?_, staysOpen_of_le⟩
  intro h
  by_contra hlt
  obtain ⟨a, o, hclosed, hopened, i, hi⟩ := opens status cfg
  have hsince := reached_opens hclosed hopened
  -- the configured time is not over when the probe is let through
  have hend := h a o [.tick (cfg.openTimeout + 1), .start i] hclosed hopened
  rw [reached_run, run_cons, run_cons, run_nil] at hend
  generalize reached status cfg (a ++ [o]) = s at hsince hi hend
  have htime : (step status cfg s (.tick (cfg.openTimeout + 1))).now = s.now + (cfg.openTimeout + 1) := rfl
  have hlate : s.now + cfg.openTimeout < (step status cfg s (.tick (cfg.openTimeout + 1))).now := by omega
  obtain ⟨hstate, hnow⟩ := probe status (s := step status cfg s (.tick (cfg.openTimeout + 1))) hsince hlate hi
  have hopen := hend (by rw [hnow, htime]; omega)
  rw [hstate] at hopen
  cases hopen

end

end Concordia.Gateway.Breaker
