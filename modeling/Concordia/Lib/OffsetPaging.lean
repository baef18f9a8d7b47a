/-
Paging by an offset. Each page is a window of a query's whole order, which may be another one for every query; the offset is
the number of rows received so far.

- `InFront`: the rows in front of the window are those received so far.
- `received_perm`: a page of such a query continues what was received.
- `perm_of_short`: a page that is not full completes it.
- `inFront_next`: a query in the same order goes on where the page ended.
- `eq_of_strict`: there is one order by distinct keys.
-/
import Mathlib.Tactic

namespace Concordia.Lib.OffsetPaging

variable {ρ κ : Type*} {limit : ℕ} {received order : List ρ}

def page (limit offset : ℕ) (order : List ρ) : List ρ := (order.drop offset).take limit

/-- the rows in front of the next page are those received so far -/
def InFront (received order : List ρ) : Prop := (order.take received.length).Perm received

instance [DecidableEq ρ] (received order : List ρ) : Decidable (InFront received order) :=
  inferInstanceAs (Decidable (List.Perm _ _))

theorem inFront_nil : InFront [] order := List.Perm.refl _

theorem length_page_le : (page limit received.length order).length ≤ limit := List.length_take_le _ _

theorem received_perm (h : InFront received order) (limit : ℕ) :
    (received ++ page limit received.length order).Perm (order.take (received.length + limit)) := by
  rw [List.take_add]
  exact h.symm.append_right _

theorem perm_of_short (h : InFront received order) (hshort : (page limit received.length order).length < limit) :
    (received ++ page limit received.length order).Perm order := by
  have hperm := received_perm h limit
  rwa [List.take_of_length_le] at hperm
  rw [page, List.length_take, List.length_drop] at hshort
  omega

theorem inFront_next (h : InFront received order) : InFront (received ++ page limit received.length order) order := by
  unfold InFront
  rw [List.length_append, List.take_add]
  have hwindow : (order.drop received.length).take (page limit received.length order).length =
      page limit received.length order := by
    rw [page, List.length_take, List.take_eq_take_iff]
    omega
  rw [hwindow]
  exact List.Perm.append_right _ h

/-- two orders of the same rows by descending keys are the same when no two keys are -/
theorem eq_of_strict [PartialOrder κ] (key : ρ → κ) {a b : List ρ} (hperm : a.Perm b)
    (ha : a.Pairwise fun x y => key y ≤ key x) (hb : b.Pairwise fun x y => key y ≤ key x)
    (hkeys : ∀ x ∈ a, ∀ y ∈ a, key x = key y → x = y) : a = b := by
  refine hperm.eq_of_pairwise ?_ ha hb
  intro x y hx hy hyx hxy
  exact hkeys x hx y (hperm.mem_iff.2 hy) (le_antisymm hxy hyx)

end Concordia.Lib.OffsetPaging
