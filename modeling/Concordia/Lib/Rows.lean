/-
Tables as lists of rows, `k` reading a row's key. Inserting a row whose key is new and updating rows in place keep the
keys unique; a lookup on a unique key finds the only row that has it. `putRow` puts a row into a table that is kept in
the order of its keys, in the place of the row that had its key.

Tables as functions from keys: `update_cases` says what an entry is after one of them has changed, `ne_of_vacant` that a
key with an entry is not a key without one.
-/
import Mathlib.Tactic

namespace Concordia.Lib

variable {ρ κ : Type*}

theorem nodup_keys_snoc {k : ρ → κ} {l : List ρ} {x : ρ} (h : (l.map k).Nodup) (hx : k x ∉ l.map k) :
    ((l ++ [x]).map k).Nodup := by
  rw [List.map_append, List.nodup_append]
  refine ⟨h, by simp, ?_⟩
  intro a ha b hb
  simp only [List.map_cons, List.map_nil, List.mem_singleton] at hb
  rintro rfl
  exact hx (hb ▸ ha)

/-- an update that leaves every row's key alone leaves the list of keys alone -/
theorem map_update_keys {k : ρ → κ} {f : ρ → ρ} (hf : ∀ x, k (f x) = k x) (l : List ρ) :
    (l.map f).map k = l.map k := by
  rw [List.map_map]
  exact List.map_congr_left fun x _ => hf x

/-- a row replaced by one with its key leaves the list of keys alone -/
theorem map_set_key {k : ρ → κ} {l : List ρ} {i : ℕ} {x y : ρ} (hi : l[i]? = some x) (hk : k y = k x) :
    (l.set i y).map k = l.map k := by
  have hi' : (l.map k)[i]? = some (k x) := by rw [List.getElem?_map, hi, Option.map_some]
  obtain ⟨hlt, heq⟩ := List.getElem?_eq_some_iff.1 hi'
  rw [List.map_set, hk, ← heq, List.set_getElem_self]

/-- what is in a list after a row has been replaced: the new row, and the rows with the other keys -/
theorem mem_set_of_nodup {k : ρ → κ} {l : List ρ} (h : (l.map k).Nodup) {i : ℕ} {x y z : ρ} (hi : l[i]? = some x)
    (hz : z ∈ l.set i y) : z = y ∨ z ∈ l ∧ k z ≠ k x := by
  obtain ⟨j, hj⟩ := List.mem_iff_getElem?.1 hz
  by_cases hij : i = j
  · subst hij
    obtain ⟨hlt, -⟩ := List.getElem?_eq_some_iff.1 hi
    rw [List.getElem?_set_self hlt] at hj
    exact .inl (Option.some.inj hj).symm
  · rw [List.getElem?_set_ne hij] at hj
    refine .inr ⟨List.mem_of_getElem? hj, fun he => hij ?_⟩
    have hlt : i < (l.map k).length := by simpa using (List.getElem?_eq_some_iff.1 hi).1
    apply (List.getElem?_inj hlt h).1
    rw [List.getElem?_map, List.getElem?_map, hi, hj, Option.map_some, Option.map_some, he]

/-- a row other than the one replaced stays -/
theorem mem_set_of_ne {l : List ρ} {i : ℕ} {x y z : ρ} (hi : l[i]? = some x) (hz : z ∈ l) (hne : z ≠ x) : z ∈ l.set i y := by
  obtain ⟨j, hj⟩ := List.mem_iff_getElem?.1 hz
  have hij : i ≠ j := by
    rintro rfl
    exact hne (Option.some.inj (hj.symm.trans hi))
  exact List.mem_of_getElem? ((List.getElem?_set_ne hij).trans hj)

/-- rows with one key are one row -/
theorem eq_of_key {k : ρ → κ} {l : List ρ} (h : (l.map k).Nodup) {x y : ρ} (hx : x ∈ l) (hy : y ∈ l)
    (hk : k x = k y) : x = y :=
  List.inj_on_of_nodup_map h hx hy hk

/-- a lookup finds a row with the property it asks for -/
theorem find?_some_iff_mem {p : ρ → Bool} {l : List ρ} {x : ρ} (h : l.find? p = some x) : x ∈ l ∧ p x = true :=
  ⟨List.mem_of_find?_eq_some h, List.find?_some h⟩

/-- a lookup that at most one row answers finds the row that answers it -/
theorem find?_eq_of_unique {p : ρ → Bool} {l : List ρ} {x : ρ} (hx : x ∈ l) (hp : p x = true)
    (huniq : ∀ y ∈ l, p y = true → y = x) : l.find? p = some x := by
  cases hf : l.find? p with
  | none => exact absurd hp (List.find?_eq_none.1 hf x hx)
  | some y =>
    obtain ⟨hy, hpy⟩ := find?_some_iff_mem hf
    rw [huniq y hy hpy]

/-- insert a row unless it is there: `ON CONFLICT DO NOTHING`, or the merge of an entity whose id is assigned -/
def addRow [DecidableEq ρ] (x : ρ) (l : List ρ) : List ρ := if x ∈ l then l else l ++ [x]

@[simp] theorem mem_addRow [DecidableEq ρ] {x y : ρ} {l : List ρ} : y ∈ addRow x l ↔ y ∈ l ∨ y = x := by
  unfold addRow
  split_ifs with h
  · exact ⟨Or.inl, fun hy => hy.elim id fun e => e ▸ h⟩
  · simp

theorem addRow_of_mem [DecidableEq ρ] {x : ρ} {l : List ρ} (h : x ∈ l) : addRow x l = l := if_pos h

theorem addRow_of_not_mem [DecidableEq ρ] {x : ρ} {l : List ρ} (h : x ∉ l) : addRow x l = l ++ [x] := if_neg h

theorem mem_snoc {l : List ρ} {x y : ρ} : x ∈ l ++ [y] ↔ x ∈ l ∨ x = y := by
  simp

/-! ## Rows in the order of their keys -/

section

variable [DecidableEq κ] (r : κ → κ → Prop) [DecidableRel r] (k : ρ → κ)

/-- put a row in its place, instead of the row that had its key -/
def putRow (x : ρ) : List ρ → List ρ
  | [] => [x]
  | y :: l => if r (k x) (k y) then x :: y :: l else if k x = k y then x :: l else y :: putRow x l

theorem mem_of_mem_putRow {x z : ρ} {l : List ρ} (h : z ∈ putRow r k x l) : z = x ∨ z ∈ l := by
  induction l with
  | nil => simpa [putRow] using h
  | cons y l ih =>
    unfold putRow at h
    split_ifs at h
    · exact List.mem_cons.1 h
    · rcases List.mem_cons.1 h with h | h
      · exact .inl h
      · exact .inr (List.mem_cons_of_mem y h)
    · rcases List.mem_cons.1 h with h | h
      · exact .inr (h ▸ List.mem_cons_self)
      · exact (ih h).imp_right (List.mem_cons_of_mem y)

/-- the rows of a table and a row with a key of its own -/
theorem mem_putRow {x z : ρ} {l : List ρ} (hx : k x ∉ l.map k) : z ∈ putRow r k x l ↔ z = x ∨ z ∈ l := by
  induction l with
  | nil => simp [putRow]
  | cons y l ih =>
    simp only [List.map_cons, List.mem_cons, not_or] at hx
    unfold putRow
    split_ifs with hlt heq
    · exact List.mem_cons
    · exact absurd heq hx.1
    · rw [List.mem_cons, ih hx.2, List.mem_cons]
      tauto

variable {r k}

/-- a row with a key of its own only pushes others out of the first rows -/
theorem mem_take_putRow {p : ρ → Bool} {x z : ρ} {l : List ρ} {n : ℕ} (hx : k x ∉ l.map k)
    (h : z ∈ ((putRow r k x l).filter p).take n) : z = x ∨ z ∈ (l.filter p).take n := by
  -- a row in front of the others
  have hfront : ∀ (x : ρ) (l : List ρ) (n : ℕ), z ∈ ((x :: l).filter p).take n → z = x ∨ z ∈ (l.filter p).take n := by
    intro x l n hz
    rw [List.filter_cons] at hz
    split_ifs at hz
    · cases n with
      | zero => cases hz
      | succ n =>
        rw [List.take_succ_cons] at hz
        apply (List.mem_cons.1 hz).imp_right
        exact fun hz => (List.take_sublist_take_left n.le_succ).subset hz
    · exact .inr hz
  induction l generalizing n with
  | nil => exact hfront x [] n h
  | cons y l ih =>
    simp only [List.map_cons, List.mem_cons, not_or] at hx
    unfold putRow at h
    split_ifs at h with hlt heq
    · exact hfront x (y :: l) n h
    · exact absurd heq hx.1
    · rw [List.filter_cons] at h ⊢
      split_ifs at h ⊢
      · cases n with
        | zero => cases h
        | succ n =>
          rw [List.take_succ_cons, List.mem_cons] at h ⊢
          rcases h with rfl | h
          · exact .inr (.inl rfl)
          · exact (ih hx.2 h).imp_right .inr
      · exact ih hx.2 h

theorem putRow_ordered (htrans : ∀ a b c, r a b → r b c → r a c) (htotal : ∀ a b, ¬ r a b → a ≠ b → r b a) {x : ρ}
    {l : List ρ} (h : l.Pairwise fun a b => r (k a) (k b)) : (putRow r k x l).Pairwise fun a b => r (k a) (k b) := by
  induction l with
  | nil => simp [putRow]
  | cons y l ih =>
    obtain ⟨hy, hl⟩ := List.pairwise_cons.1 h
    unfold putRow
    split_ifs with hlt heq
    · refine List.pairwise_cons.2 ⟨?_, h⟩
      intro z hz
      rcases List.mem_cons.1 hz with rfl | hz
      · exact hlt
      · exact htrans _ _ _ hlt (hy z hz)
    · exact List.pairwise_cons.2 ⟨fun z hz => heq ▸ hy z hz, hl⟩
    · refine List.pairwise_cons.2 ⟨?_, ih hl⟩
      intro z hz
      rcases mem_of_mem_putRow r k hz with rfl | hz
      · exact htotal _ _ hlt heq
      · exact hy z hz

end

/-! ## Tables as functions -/

/-- an entry of a table after one place of it has changed -/
theorem update_cases {ν : Type*} [DecidableEq κ] {f : κ → Option ν} {k k' : κ} {v : Option ν} {v' : ν}
    (h : Function.update f k v k' = some v') : (k' = k ∧ v = some v') ∨ (k' ≠ k ∧ f k' = some v') := by
  rcases eq_or_ne k' k with rfl | hne
  · rw [Function.update_self] at h
    exact .inl ⟨rfl, h⟩
  · rw [Function.update_of_ne hne] at h
    exact .inr ⟨hne, h⟩

/-- what holds of every entry, and of a new one, holds of every entry once the new one is in -/
theorem forall_update_some {ν : Type*} [DecidableEq κ] {f : κ → Option ν} {k : κ} {v : ν} {P : κ → ν → Prop}
    (h : ∀ k' v', f k' = some v' → P k' v') (hnew : P k v) :
    ∀ k' v', Function.update f k (some v) k' = some v' → P k' v' := by
  intro k' v' hv
  rcases update_cases hv with ⟨rfl, heq⟩ | ⟨-, hold⟩
  · rwa [← Option.some.inj heq]
  · exact h k' v' hold

/-- what holds of every entry holds of those that are left -/
theorem forall_update_none {ν : Type*} [DecidableEq κ] {f : κ → Option ν} {k : κ} {P : κ → ν → Prop}
    (h : ∀ k' v', f k' = some v' → P k' v') : ∀ k' v', Function.update f k none k' = some v' → P k' v' := by
  intro k' v' hv
  rcases update_cases hv with ⟨-, hgone⟩ | ⟨-, hold⟩
  · cases hgone
  · exact h k' v' hold

/-- an entry that is there is not the one that is missing -/
theorem ne_of_vacant {ν : Type*} {f : κ → Option ν} {k k' : κ} {v : ν} (h : f k = none) (h' : f k' = some v) :
    k' ≠ k := by
  rintro rfl
  rw [h] at h'
  cases h'

end Concordia.Lib
