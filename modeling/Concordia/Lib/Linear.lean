/-
Requests that are executed in several steps over one shared state, in any order of the steps.

- `Pool`: the shared state, and every request with the phase it is in, none once it has finished; `advance` takes one
  step of one request.
- `linearize`: if an abstract state can be kept beside the run, such that the last step of each request is the request
  executed at once and every other step leaves the abstract state alone, then what a run reaches is abstractly what the
  finished requests reach one after another, in the order in which they finished.
-/
import Concordia.Lib.Run

namespace Concordia.Lib

/-- requests under way over a shared state; a request without a phase has finished -/
structure Pool (σ ρ φ : Type*) where
  shared : σ
  tasks : List (ρ × Option φ)

namespace Pool

variable {σ ρ φ α : Type*}

/-- every request before its first step -/
def start (first : ρ → φ) (s : σ) (requests : List ρ) : Pool σ ρ φ := ⟨s, requests.map fun r => (r, some (first r))⟩

/-- the next step of the request at `i` -/
def advance (next : ρ → φ → σ → σ × Option φ) (p : Pool σ ρ φ) (i : ℕ) : Pool σ ρ φ :=
  match p.tasks[i]? with
  | some (r, some ph) => ⟨(next r ph p.shared).1, p.tasks.set i (r, (next r ph p.shared).2)⟩
  | _ => p

/-- every request has finished -/
def Finished (p : Pool σ ρ φ) : Prop := ∀ t ∈ p.tasks, t.2 = none

instance [DecidableEq φ] (p : Pool σ ρ φ) : Decidable p.Finished := inferInstanceAs (Decidable (∀ t ∈ p.tasks, t.2 = none))

/-- the requests that have not finished -/
def pending (p : Pool σ ρ φ) : List ρ := (p.tasks.filter fun t => t.2.isSome).map Prod.fst

theorem pending_start (first : ρ → φ) (s : σ) (requests : List ρ) : (start first s requests).pending = requests := by
  have hall : ∀ t ∈ requests.map fun r => (r, some (first r)), t.2.isSome = true := by
    intro t ht
    obtain ⟨r, -, rfl⟩ := List.mem_map.1 ht
    rfl
  rw [pending, start, List.filter_eq_self.2 hall, List.map_map]
  exact List.map_id _

theorem pending_of_finished {p : Pool σ ρ φ} (h : p.Finished) : p.pending = [] := by
  have hnone : p.tasks.filter (fun t => t.2.isSome) = [] := by
    rw [List.filter_eq_nil_iff]
    intro t ht
    simp [h t ht]
  rw [pending, hnone, List.map_nil]

theorem advance_running {next : ρ → φ → σ → σ × Option φ} {p : Pool σ ρ φ} {i : ℕ} {r : ρ} {ph : φ}
    (h : p.tasks[i]? = some (r, some ph)) :
    p.advance next i = ⟨(next r ph p.shared).1, p.tasks.set i (r, (next r ph p.shared).2)⟩ := by
  simp only [advance, h]

theorem advance_idle {next : ρ → φ → σ → σ × Option φ} {p : Pool σ ρ φ} {i : ℕ}
    (h : ∀ r ph, p.tasks[i]? ≠ some (r, some ph)) : p.advance next i = p := by
  unfold advance
  split
  · next r ph heq => exact absurd heq (h r ph)
  · rfl

/-- a request that goes on stays pending -/
theorem pending_set_some {tasks : List (ρ × Option φ)} {i : ℕ} {r : ρ} {ph ph' : φ}
    (h : tasks[i]? = some (r, some ph)) :
    ((tasks.set i (r, some ph')).filter fun t => t.2.isSome).map Prod.fst =
      (tasks.filter fun t => t.2.isSome).map Prod.fst := by
  induction tasks generalizing i with
  | nil => cases h
  | cons t tasks ih =>
    cases i with
    | zero =>
      obtain rfl : t = (r, some ph) := Option.some.inj h
      simp
    | succ i =>
      have ht := ih (i := i) h
      rw [List.set_cons_succ, List.filter_cons, List.filter_cons]
      split_ifs
      · rw [List.map_cons, List.map_cons, ht]
      · exact ht

/-- a request that finishes is no longer pending -/
theorem pending_set_none {tasks : List (ρ × Option φ)} {i : ℕ} {r : ρ} {ph : φ} (h : tasks[i]? = some (r, some ph)) :
    ((tasks.filter fun t => t.2.isSome).map Prod.fst).Perm
      (r :: ((tasks.set i (r, none)).filter fun t => t.2.isSome).map Prod.fst) := by
  induction tasks generalizing i with
  | nil => cases h
  | cons t tasks ih =>
    cases i with
    | zero =>
      obtain rfl : t = (r, some ph) := Option.some.inj h
      simp
    | succ i =>
      have ht := ih (i := i) h
      rw [List.set_cons_succ, List.filter_cons, List.filter_cons]
      split_ifs
      · rw [List.map_cons, List.map_cons]
        exact (ht.cons t.1).trans (List.Perm.swap r t.1 _)
      · exact ht

/-- **Linearization.** `R p a`: the pool `p` stands for the abstract state `a`. If the last step of a request is
abstractly the request itself and its other steps are abstractly nothing, then a run ends in a pool that stands for the
state which the finished requests reach one after another. -/
theorem linearize {next : ρ → φ → σ → σ × Option φ} {atomic : α → ρ → α} {R : Pool σ ρ φ → α → Prop}
    {C : Pool σ ρ φ → ℕ → Prop}
    (hgoes : ∀ p a i r ph ph', R p a → C p i → p.tasks[i]? = some (r, some ph) → (next r ph p.shared).2 = some ph' →
      R (p.advance next i) a)
    (hends : ∀ p a i r ph, R p a → C p i → p.tasks[i]? = some (r, some ph) → (next r ph p.shared).2 = none →
      R (p.advance next i) (atomic a r))
    {p : Pool σ ρ φ} {a : α} (h0 : R p a) {schedule : List ℕ} (hC : Along (advance next) C p schedule) :
    ∃ order : List ρ, R (run (advance next) p schedule) (order.foldl atomic a) ∧
      p.pending.Perm (order ++ (run (advance next) p schedule).pending) := by
  induction schedule generalizing p a with
  | nil => exact ⟨[], h0, List.Perm.refl _⟩
  | cons i schedule ih =>
    obtain ⟨hi, hrest⟩ := hC
    rw [run_cons]
    by_cases hrun : ∃ r ph, p.tasks[i]? = some (r, some ph)
    · obtain ⟨r, ph, htask⟩ := hrun
      have hadv : p.advance next i = _ := advance_running htask
      cases hphase : (next r ph p.shared).2 with
      | some ph' =>
        obtain ⟨order, hR, hperm⟩ := ih (hgoes p a i r ph ph' h0 hi htask hphase) hrest
        refine ⟨order, hR, ?_⟩
        have hsame : (p.advance next i).pending = p.pending := by
          rw [hadv, hphase]
          exact pending_set_some htask
        rwa [hsame] at hperm
      | none =>
        obtain ⟨order, hR, hperm⟩ := ih (hends p a i r ph h0 hi htask hphase) hrest
        refine ⟨r :: order, hR, ?_⟩
        have hless : p.pending.Perm (r :: (p.advance next i).pending) := by
          rw [hadv, hphase]
          exact pending_set_none htask
        exact hless.trans (hperm.cons r)
    · have hidle : p.advance next i = p := by
        apply advance_idle
        intro r ph heq
        exact hrun ⟨r, ph, heq⟩
      rw [hidle] at hrest ⊢
      exact ih h0 hrest

end Pool

end Concordia.Lib
