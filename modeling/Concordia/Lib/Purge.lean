/-
Noninterference by purging. A system answers requests; some of them are one user's own, some of the others' may still
concern that user, and the rest is purged.

- `answers`: the answers to the user's own requests, in the order of the run.
- `answers_purge`: if a relation between the two systems is kept by every kept request, which then is answered alike, and by
  every purged one on the one side alone, the user's answers are those of the run without the purged requests.
- `answers_forall`: what every answer satisfies.
-/
import Concordia.Lib.Run

namespace Concordia.Lib

variable {σ α ρ : Type*}

/-- the answers to the requests that are the user's own -/
def answers (step : σ → α → σ × ρ) (own : α → Bool) : σ → List α → List ρ
  | _, [] => []
  | s, o :: ops =>
    if own o then (step s o).2 :: answers step own (step s o).1 ops else answers step own (step s o).1 ops

variable {step : σ → α → σ × ρ} {own kept : α → Bool}

/-- **Purging.** -/
theorem answers_purge {C : σ → α → Prop} {R : σ → σ → Prop} (hown : ∀ o, own o = true → kept o = true)
    (hkept : ∀ s t o, R s t → C s o → kept o = true →
      R (step s o).1 (step t o).1 ∧ (own o = true → (step s o).2 = (step t o).2))
    (hpurged : ∀ s t o, R s t → C s o → kept o = false → R (step s o).1 t) {s t : σ} {ops : List α} (h0 : R s t)
    (hC : Along (fun s o => (step s o).1) C s ops) :
    answers step own s ops = answers step own t (ops.filter kept) := by
  induction ops generalizing s t with
  | nil => rfl
  | cons o ops ih =>
    cases hk : kept o with
    | false =>
      have hforeign : own o = false := by
        by_contra hcon
        rw [hown o (by simpa using hcon)] at hk
        cases hk
      rw [List.filter_cons_of_neg (by simp [hk]), answers, hforeign, if_neg Bool.false_ne_true]
      exact ih (hpurged s t o h0 hC.1 hk) hC.2
    | true =>
      obtain ⟨hR, hsame⟩ := hkept s t o h0 hC.1 hk
      rw [List.filter_cons_of_pos hk, answers, answers, ih hR hC.2]
      cases ho : own o with
      | false => rfl
      | true => rw [if_pos rfl, if_pos rfl, hsame ho]

theorem answers_forall {P : ρ → Prop} (h : ∀ s o, own o = true → P (step s o).2) {s : σ} {ops : List α} {r : ρ}
    (hr : r ∈ answers step own s ops) : P r := by
  induction ops generalizing s with
  | nil => cases hr
  | cons o ops ih =>
    unfold answers at hr
    split_ifs at hr with ho
    · rcases List.mem_cons.1 hr with rfl | hr
      · exact h s o ho
      · exact ih hr
    · exact ih hr

end Concordia.Lib
