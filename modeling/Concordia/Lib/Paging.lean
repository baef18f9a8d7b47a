/-
Look-ahead paging. A page is read by fetching one row more than the page holds and dropping the rows that are not
`live` after the fetch; there is a next page if more than `ℓ` live rows remain, and it starts after the last row shown.

- `more_iff`: a next page is announced iff the whole look-ahead window is there and live.
- `walk_eq`: how far a walk over the pages gets: to the end of the window that holds the first dead row.
- `walk_complete_iff`: the walk shows every live row iff nothing live lies beyond that window.
- `filter_lt_of_descending`: in a strictly descending list, a cursor selects what comes after it.
-/
import Mathlib.Tactic

namespace Concordia.Lib.Paging

variable {ρ : Type*} (ℓ : ℕ) (live : ρ → Bool)

/-- the live rows among the first `ℓ + 1` -/
def fetched (rows : List ρ) : List ρ := (rows.take (ℓ + 1)).filter live

def more (rows : List ρ) : Bool := ℓ < (fetched ℓ live rows).length

def page (rows : List ρ) : List ρ := (fetched ℓ live rows).take ℓ

/-- the rows of all pages of a walk, `none` when the fuel does not suffice -/
def walk : ℕ → List ρ → Option (List ρ)
  | 0, _ => none
  | fuel + 1, rows =>
    if more ℓ live rows then (page ℓ live rows ++ ·) <$> walk fuel (rows.drop ℓ) else some (page ℓ live rows)

/-- the position of the first row that is not live -/
def firstDead (rows : List ρ) : ℕ := rows.findIdx fun r => !live r

/-- the last position a walk fetches: the end of the window that holds the first dead row -/
def reach (rows : List ρ) : ℕ := (firstDead live rows - 1) / ℓ * ℓ + ℓ

variable {ℓ live} {rows : List ρ}

/-! ## One page -/

theorem more_iff : more ℓ live rows = true ↔ ℓ < rows.length ∧ ∀ r ∈ rows.take (ℓ + 1), live r = true := by
  have htake : (rows.take (ℓ + 1)).length = min (ℓ + 1) rows.length := List.length_take
  have hle : (fetched ℓ live rows).length ≤ (rows.take (ℓ + 1)).length := List.length_filter_le _ _
  rw [more, decide_eq_true_iff, ← List.length_filter_eq_length_iff, ← fetched]
  omega

/-- a page with a next one: `ℓ` live rows are shown, and a live row follows -/
theorem split_of_more (h : more ℓ live rows = true) : ∃ shown x rest, rows = shown ++ x :: rest ∧
    shown.length = ℓ ∧ (∀ r ∈ shown, live r = true) ∧ live x = true ∧ page ℓ live rows = shown := by
  obtain ⟨hlen, hlive⟩ := more_iff.1 h
  obtain ⟨x, rest, hdrop⟩ : ∃ x rest, rows.drop ℓ = x :: rest :=
    List.exists_cons_of_ne_nil (mt List.drop_eq_nil_iff.1 (Nat.not_le.2 hlen))
  have hwindow : rows.take (ℓ + 1) = rows.take ℓ ++ [x] := by rw [List.take_add, hdrop]; rfl
  have hshown : (rows.take ℓ).length = ℓ := List.length_take_of_le hlen.le
  rw [hwindow] at hlive
  refine ⟨rows.take ℓ, x, rest, ?_, hshown, fun r hr => hlive r (List.mem_append_left _ hr), hlive x (by simp), ?_⟩
  · rw [← hdrop, List.take_append_drop]
  · rw [page, fetched, hwindow, List.filter_eq_self.2 hlive, List.take_left' hshown]

theorem page_of_last (h : more ℓ live rows = false) : page ℓ live rows = fetched ℓ live rows :=
  List.take_of_length_le (Nat.not_lt.1 (of_decide_eq_false h))

/-- a page shows those of the first `ℓ` live rows that the look-ahead window holds -/
theorem mem_page {x : ρ} (hfirst : x ∈ (rows.filter live).take ℓ) (hwindow : x ∈ rows.take (ℓ + 1)) :
    x ∈ page ℓ live rows := by
  have hlive := (List.mem_filter.1 (List.mem_of_mem_take hfirst)).2
  have hfetched : x ∈ fetched ℓ live rows := List.mem_filter.2 ⟨hwindow, hlive⟩
  obtain ⟨rest, hrest⟩ : fetched ℓ live rows <+: rows.filter live := (List.take_prefix _ _).filter live
  rcases le_total ℓ (fetched ℓ live rows).length with hle | hle
  · rwa [← hrest, List.take_append_of_le_length hle] at hfirst
  · rwa [page, List.take_of_length_le hle]

/-! ## The reach of a walk -/

theorem firstDead_append {shown : List ρ} (h : ∀ r ∈ shown, live r = true) :
    firstDead live (shown ++ rows) = firstDead live rows + shown.length := by
  have hall : List.findIdx (fun r => !live r) shown = shown.length :=
    List.findIdx_eq_length.2 fun r hr => by rw [h r hr]; rfl
  rw [firstDead, List.findIdx_append, hall, if_neg (Nat.lt_irrefl _)]
  rfl

/-- a page with a next one moves the reach of the rest by one page -/
theorem reach_of_more (hℓ : 0 < ℓ) (h : more ℓ live rows = true) :
    reach ℓ live rows = reach ℓ live (rows.drop ℓ) + ℓ := by
  obtain ⟨shown, x, rest, rfl, hlen, hshown, hx, -⟩ := split_of_more h
  have hd : firstDead live (shown ++ x :: rest) = firstDead live (x :: rest) + ℓ := hlen ▸ firstDead_append hshown
  have hpos : 0 < firstDead live (x :: rest) := by
    rw [firstDead, List.findIdx_cons, hx]
    exact Nat.succ_pos _
  rw [List.drop_left' hlen, reach, reach, hd,
    show firstDead live (x :: rest) + ℓ - 1 = firstDead live (x :: rest) - 1 + ℓ by omega,
    Nat.add_div_right _ hℓ, Nat.succ_mul]

/-- the last page: the rows end within its window, or the first dead row is in it -/
theorem drop_reach_of_last (h : more ℓ live rows = false) : rows.drop (reach ℓ live rows + 1) = rows.drop (ℓ + 1) := by
  by_cases hlen : rows.length ≤ ℓ
  · have hreach : ℓ ≤ reach ℓ live rows := Nat.le_add_left _ _
    rw [List.drop_eq_nil_iff.2 (by omega), List.drop_eq_nil_iff.2 (by omega)]
  · -- some fetched row is dead, so the first dead row is within the window
    obtain ⟨r, hr, hdead⟩ : ∃ r ∈ rows.take (ℓ + 1), live r = false := by
      by_contra hall
      have hlive : ∀ r ∈ rows.take (ℓ + 1), live r = true := fun r hr =>
        Bool.eq_true_of_not_eq_false fun hf => hall ⟨r, hr, hf⟩
      rw [more_iff.2 ⟨Nat.not_le.1 hlen, hlive⟩] at h
      cases h
    have hd : firstDead live rows ≤ ℓ := by
      have hlt : List.findIdx (fun r => !live r) (rows.take (ℓ + 1)) < (rows.take (ℓ + 1)).length :=
        List.findIdx_lt_length.2 ⟨r, hr, by rw [hdead]; rfl⟩
      rw [firstDead, ← List.take_append_drop (ℓ + 1) rows, List.findIdx_append, if_pos hlt]
      have := List.length_take_le (ℓ + 1) rows
      omega
    have : reach ℓ live rows = ℓ := by
      rw [reach]
      rcases Nat.eq_zero_or_pos ℓ with rfl | hℓ
      · simp
      · rw [Nat.div_eq_of_lt (by omega), Nat.zero_mul, Nat.zero_add]
    rw [this]

/-! ## The walk -/

/-- **How far a walk gets.** With enough fuel the walk shows the live rows up to its reach, and no others. -/
theorem walk_eq (hℓ : 0 < ℓ) {fuel : ℕ} (hfuel : rows.length < fuel) :
    walk ℓ live fuel rows = some ((rows.take (reach ℓ live rows + 1)).filter live) := by
  induction fuel generalizing rows with
  | zero => exact absurd hfuel (Nat.not_lt_zero _)
  | succ fuel ih =>
    rw [walk]
    cases hmore : more ℓ live rows with
    | false =>
      have htake : rows.take (reach ℓ live rows + 1) = rows.take (ℓ + 1) := by
        have h1 := List.take_append_drop (reach ℓ live rows + 1) rows
        have h2 := List.take_append_drop (ℓ + 1) rows
        rw [drop_reach_of_last hmore] at h1
        exact List.append_cancel_right (h1.trans h2.symm)
      rw [htake, page_of_last hmore]
      rfl
    | true =>
      have hreach := reach_of_more hℓ hmore
      obtain ⟨shown, x, rest, rfl, hlen, hshown, -, hpage⟩ := split_of_more hmore
      rw [List.drop_left' hlen] at hreach
      have hrest : (x :: rest).length < fuel := by
        rw [List.length_append] at hfuel
        omega
      rw [if_pos rfl, List.drop_left' hlen, ih hrest, hpage, hreach,
        show reach ℓ live (x :: rest) + ℓ + 1 = shown.length + (reach ℓ live (x :: rest) + 1) by omega,
        List.take_append, List.take_of_length_le (Nat.le_add_right _ _), Nat.add_sub_cancel_left,
        List.filter_append, List.filter_eq_self.2 hshown]
      rfl

/-- **Completeness.** A walk shows every live row iff no live row lies beyond its reach. -/
theorem walk_complete_iff (hℓ : 0 < ℓ) {fuel : ℕ} (hfuel : rows.length < fuel) :
    walk ℓ live fuel rows = some (rows.filter live) ↔
      ∀ r ∈ rows.drop (reach ℓ live rows + 1), live r = false := by
  rw [walk_eq hℓ hfuel, Option.some_inj]
  have hsplit : rows.filter live = (rows.take (reach ℓ live rows + 1)).filter live ++
      (rows.drop (reach ℓ live rows + 1)).filter live := by
    rw [← List.filter_append, List.take_append_drop]
  rw [hsplit, List.self_eq_append_right, List.filter_eq_nil_iff]
  exact forall₂_congr fun r _ => Bool.not_eq_true _ ▸ Iff.rfl

/-! ## Cursors -/

/-- in a strictly descending list, the rows below a row are those after it -/
theorem filter_lt_of_descending {κ : Type*} [LinearOrder κ] {key : ρ → κ} {shown rest : List ρ} {x : ρ}
    (h : (shown ++ x :: rest).Pairwise fun a b => key b < key a) :
    (shown ++ x :: rest).filter (fun r => key r < key x) = rest := by
  obtain ⟨-, hrest, hcross⟩ := List.pairwise_append.1 h
  have hshown : shown.filter (fun r => key r < key x) = [] := by
    apply List.filter_eq_nil_iff.2
    intro r hr
    simpa using (hcross r hr x (List.mem_cons_self)).le
  have hafter : rest.filter (fun r => key r < key x) = rest :=
    List.filter_eq_self.2 fun r hr => decide_eq_true (List.rel_of_pairwise_cons hrest hr)
  rw [List.filter_append, hshown, List.filter_cons_of_neg (by simp), hafter]
  rfl

end Concordia.Lib.Paging
