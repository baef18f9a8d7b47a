/-
Counting events in the windows between resets.

A log is a list of events; some are `marked`, some are a `reset`. `since` is the number of marked events after the last
reset, and `Bounded n` says that it has never been more than `n`.

- `bounded_snoc`: what one more event needs.
- `Bounded.window`: in a bounded log no stretch without a reset has more than `n` marked events.
-/
import Mathlib.Tactic

namespace Concordia.Lib.Window

variable {ε : Type*} (marked reset : ε → Bool)

/-- one more event, after `n` marked ones -/
def count (n : ℕ) (e : ε) : ℕ := if reset e then 0 else if marked e then n + 1 else n

/-- how many marked events there are since the last reset -/
def since (log : List ε) : ℕ := log.foldl (count marked reset) 0

theorem since_snoc (log : List ε) (e : ε) :
    since marked reset (log ++ [e]) = count marked reset (since marked reset log) e := by
  simp [since, List.foldl_append]

/-- never more than `n` marked events since a reset -/
def Bounded (n : ℕ) (log : List ε) : Prop := ∀ a b, log = a ++ b → since marked reset a ≤ n

variable {marked reset} {n : ℕ} {log : List ε}

theorem bounded_nil : Bounded marked reset n ([] : List ε) := by
  intro a b h
  obtain ⟨rfl, -⟩ := List.append_eq_nil_iff.1 h.symm
  exact Nat.zero_le n

theorem bounded_snoc {e : ε} :
    Bounded marked reset n (log ++ [e]) ↔ Bounded marked reset n log ∧ since marked reset (log ++ [e]) ≤ n := by
  refine ⟨?_, ?_⟩
  · intro h
    refine ⟨?_, h _ [] (List.append_nil _).symm⟩
    intro a b hab
    exact h a (b ++ [e]) (by rw [hab, List.append_assoc])
  · rintro ⟨hlog, hnew⟩ a b hab
    rcases List.eq_nil_or_concat' b with rfl | ⟨b, x, rfl⟩
    · rw [List.append_nil] at hab
      rw [← hab]
      exact hnew
    · rw [← List.append_assoc] at hab
      exact hlog a b (List.append_inj_left' hab rfl)

/-- the marked events of a stretch without a reset are counted -/
theorem countP_le_since (a : List ε) {b : List ε} (h : ∀ e ∈ b, reset e = false) :
    b.countP marked ≤ since marked reset (a ++ b) := by
  induction b using List.reverseRecOn with
  | nil => exact Nat.zero_le _
  | append_singleton b e ih =>
    have hb := ih fun x hx => h x (List.mem_append_left _ hx)
    have he : reset e = false := h e (by simp)
    rw [List.countP_append, ← List.append_assoc, since_snoc, count, he, List.countP_singleton]
    simp only [Bool.false_eq_true, if_false]
    split_ifs <;> omega

/-- **Windows.** No stretch without a reset has more than `n` marked events. -/
theorem Bounded.window (hbound : Bounded marked reset n log) {a b c : List ε} (hlog : log = a ++ b ++ c)
    (h : ∀ e ∈ b, reset e = false) : b.countP marked ≤ n :=
  (countP_le_since a h).trans (hbound (a ++ b) c hlog)

end Concordia.Lib.Window
