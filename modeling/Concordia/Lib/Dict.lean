/-
Dictionaries in insertion order: setting a key that is there keeps its place, a new key goes to the end.

- `get`, `set`, `pop`, with one lemma for each pair of a write and a read.
- `mem_items`: the items are what `get` finds.
- `eq_empty_iff`: a dictionary is empty if it has no key.
-/
import Concordia.Lib.Rows

namespace Concordia.Lib

variable {κ ν : Type*} [DecidableEq κ]

/-- the value of a key -/
def getItem (k : κ) (items : List (κ × ν)) : Option ν := (items.find? fun p => p.1 = k).map Prod.snd

/-- the value of a key replaced, or the key added at the end -/
def setItem (k : κ) (v : ν) (items : List (κ × ν)) : List (κ × ν) :=
  if k ∈ items.map Prod.fst then items.map fun p => if p.1 = k then (k, v) else p else items ++ [(k, v)]

theorem nodup_setItem {k : κ} {v : ν} {items : List (κ × ν)} (h : (items.map Prod.fst).Nodup) :
    ((setItem k v items).map Prod.fst).Nodup := by
  unfold setItem
  split_ifs with hk
  · rw [map_update_keys (k := Prod.fst)]
    · exact h
    · intro p
      split_ifs with hp
      · exact hp.symm
      · rfl
  · exact nodup_keys_snoc h hk

theorem mem_setItem {k : κ} {v : ν} {items : List (κ × ν)} {p : κ × ν} :
    p ∈ setItem k v items ↔ p = (k, v) ∨ (p ∈ items ∧ p.1 ≠ k) := by
  unfold setItem
  split_ifs with hk
  · rw [List.mem_map]
    refine ⟨?_, ?_⟩
    · rintro ⟨q, hq, rfl⟩
      split_ifs with hqk
      · exact Or.inl rfl
      · exact Or.inr ⟨hq, hqk⟩
    · rintro (rfl | ⟨hp, hpk⟩)
      · obtain ⟨q, hq, hqk⟩ := List.mem_map.1 hk
        exact ⟨q, hq, if_pos hqk⟩
      · exact ⟨p, hp, if_neg hpk⟩
  · rw [mem_snoc]
    refine ⟨?_, ?_⟩
    · rintro (hp | rfl)
      · exact Or.inr ⟨hp, fun hpk => hk (List.mem_map.2 ⟨p, hp, hpk⟩)⟩
      · exact Or.inl rfl
    · rintro (rfl | ⟨hp, -⟩)
      · exact Or.inr rfl
      · exact Or.inl hp

@[simp] theorem getItem_setItem_self (k : κ) (v : ν) (items : List (κ × ν)) : getItem k (setItem k v items) = some v := by
  unfold getItem setItem
  split_ifs with hk
  · obtain ⟨p, hp, hpk⟩ := List.mem_map.1 hk
    have hsome : (items.find? ((fun q : κ × ν => decide (q.1 = k)) ∘ fun q => if q.1 = k then (k, v) else q)).isSome := by
      rw [List.find?_isSome]
      exact ⟨p, hp, by simp [hpk]⟩
    rw [List.find?_map]
    obtain ⟨q, hq⟩ := Option.isSome_iff_exists.1 hsome
    have hqk := List.find?_some hq
    rw [hq]
    simp only [Function.comp_apply, decide_eq_true_eq] at hqk
    split_ifs at hqk with h
    · simp [h]
    · exact absurd hqk h
  · have hnone : items.find? (fun q => decide (q.1 = k)) = none := by
      rw [List.find?_eq_none]
      exact fun q hq hqk => hk (List.mem_map.2 ⟨q, hq, by simpa using hqk⟩)
    simp [List.find?_append, hnone]

@[simp] theorem getItem_setItem_of_ne {k k' : κ} (h : k' ≠ k) (v : ν) (items : List (κ × ν)) :
    getItem k' (setItem k v items) = getItem k' items := by
  unfold getItem setItem
  split_ifs
  · rw [List.find?_map]
    have hsame : ((fun q : κ × ν => decide (q.1 = k')) ∘ fun q => if q.1 = k then (k, v) else q) =
        fun q => decide (q.1 = k') := by
      funext q
      by_cases hq : q.1 = k
      · simp [hq, h.symm]
      · simp [hq]
    rw [hsame]
    cases hf : items.find? fun q => decide (q.1 = k') with
    | none => rfl
    | some q =>
      have hq : q.1 = k' := by simpa using List.find?_some hf
      simp [hq, h]
  · simp [List.find?_append, h.symm]

structure Dict (κ ν : Type*) where
  items : List (κ × ν)
  nodup : (items.map Prod.fst).Nodup

namespace Dict

def empty : Dict κ ν := ⟨[], List.nodup_nil⟩

def get (d : Dict κ ν) (k : κ) : Option ν := getItem k d.items

def set (d : Dict κ ν) (k : κ) (v : ν) : Dict κ ν := ⟨setItem k v d.items, nodup_setItem d.nodup⟩

/-- the key removed, where it is there -/
def pop (d : Dict κ ν) (k : κ) : Dict κ ν :=
  ⟨d.items.filter fun p => p.1 ≠ k, d.nodup.sublist (List.filter_sublist.map _)⟩

theorem mem_items {d : Dict κ ν} {k : κ} {v : ν} : (k, v) ∈ d.items ↔ d.get k = some v := by
  unfold get getItem
  refine ⟨?_, ?_⟩
  · intro h
    rw [find?_eq_of_unique h (by simp) fun q hq hqk => eq_of_key d.nodup hq h (by simpa using hqk)]
    rfl
  · intro h
    obtain ⟨p, hp, rfl⟩ := Option.map_eq_some_iff.1 h
    obtain ⟨hmem, hk⟩ := find?_some_iff_mem hp
    simp only [decide_eq_true_eq] at hk
    exact hk ▸ hmem

theorem get_eq_none {d : Dict κ ν} {k : κ} : d.get k = none ↔ ∀ v, (k, v) ∉ d.items := by
  rw [Option.eq_none_iff_forall_ne_some]
  exact forall_congr' fun v => not_congr mem_items.symm

/-- two dictionaries agree on a key if the key has the same items -/
theorem get_congr {d d' : Dict κ ν} {k : κ} (h : ∀ v, (k, v) ∈ d.items ↔ (k, v) ∈ d'.items) : d.get k = d'.get k := by
  refine Option.ext fun v => ?_
  rw [← mem_items, ← mem_items]
  exact h v

@[simp] theorem get_empty (k : κ) : (empty : Dict κ ν).get k = none := rfl

@[simp] theorem get_set_self (d : Dict κ ν) (k : κ) (v : ν) : (d.set k v).get k = some v :=
  mem_items.1 (mem_setItem.2 (Or.inl rfl))

@[simp] theorem get_set_of_ne {d : Dict κ ν} {k k' : κ} {v : ν} (h : k' ≠ k) : (d.set k v).get k' = d.get k' := by
  refine get_congr fun w => ?_
  simp [set, mem_setItem, h]

@[simp] theorem get_pop_self (d : Dict κ ν) (k : κ) : (d.pop k).get k = none := by
  rw [get_eq_none]
  simp [pop]

@[simp] theorem get_pop_of_ne {d : Dict κ ν} {k k' : κ} (h : k' ≠ k) : (d.pop k).get k' = d.get k' := by
  refine get_congr fun w => ?_
  simp [pop, h]

theorem eq_empty_iff {d : Dict κ ν} : d.items = [] ↔ ∀ k, d.get k = none := by
  refine ⟨?_, ?_⟩
  · intro h k
    rw [get_eq_none, h]
    exact fun _ => List.not_mem_nil
  · intro h
    rw [List.eq_nil_iff_forall_not_mem]
    exact fun p hp => get_eq_none.1 (h p.1) p.2 hp

theorem set_items_ne (d : Dict κ ν) (k : κ) (v : ν) : (d.set k v).items ≠ [] := by
  intro h
  exact absurd (eq_empty_iff.1 h k) (by simp)

end Dict

end Concordia.Lib
