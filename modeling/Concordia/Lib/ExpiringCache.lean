/-
A cache in front of a function `f`, whose entries expire `ttl` after they were written and may be evicted at any time,
but are never invalidated when `f` changes.

`AgreesOn S f`: no live entry of a key in `S` differs from `f`. It is what a reader sees (`agreesOn_iff_readThrough`);
reading through, evicting and letting time pass keep it, and `AgreesOn.change_iff` says when a change of `f` does.

`Recorded H`: every entry was written when `H` held of its key, its value and the time. Then `H` held of what is found less
than `ttl` ago (`Recorded.lookup`), however `f` has changed since.
-/
import Mathlib.Tactic

namespace Concordia.Lib

/-- a cached value and when it was written -/
structure Entry (ν : Type*) where
  value : ν
  writtenAt : ℕ

abbrev ExpiringCache (κ ν : Type*) := κ → Option (Entry ν)

namespace ExpiringCache

variable {κ ν : Type*}

def empty : ExpiringCache κ ν := fun _ => none

/-- the value of a key, while its entry is alive -/
def lookup (ttl now : ℕ) (c : ExpiringCache κ ν) (k : κ) : Option ν :=
  ((c k).filter fun e => now < e.writtenAt + ttl).map Entry.value

/-- no live entry of a key in `S` differs from `f` -/
def AgreesOn (ttl now : ℕ) (c : ExpiringCache κ ν) (S : κ → Prop) (f : κ → ν) : Prop :=
  ∀ k, S k → ∀ v, lookup ttl now c k = some v → v = f k

variable {ttl now : ℕ} {c : ExpiringCache κ ν} {S : κ → Prop} {f : κ → ν}

theorem lookup_eq_some {k : κ} {v : ν} :
    lookup ttl now c k = some v ↔ ∃ e, c k = some e ∧ now < e.writtenAt + ttl ∧ e.value = v := by
  simp [lookup, Option.filter_eq_some_iff, and_assoc]

/-- what is alive later is alive now -/
theorem lookup_of_later {later : ℕ} (hle : now ≤ later) {k : κ} {v : ν} (h : lookup ttl later c k = some v) :
    lookup ttl now c k = some v := by
  obtain ⟨e, he, hlive, hv⟩ := lookup_eq_some.1 h
  exact lookup_eq_some.2 ⟨e, he, by omega, hv⟩

theorem AgreesOn.later {later : ℕ} (h : AgreesOn ttl now c S f) (hle : now ≤ later) : AgreesOn ttl later c S f :=
  fun k hk v hv => h k hk v (lookup_of_later hle hv)

/-- **Change.** When `f` changes on some keys, the cache goes on agreeing iff the live entries of those keys hold the
new values. -/
theorem AgreesOn.change_iff {S' : κ → Prop} {f' : κ → ν} (h : AgreesOn ttl now c S f) {D : κ → Prop}
    (hD : ∀ k, S' k → ¬ D k → S k ∧ f' k = f k) :
    AgreesOn ttl now c S' f' ↔ ∀ k, S' k → D k → ∀ v, lookup ttl now c k = some v → v = f' k := by
  refine ⟨?_, ?_⟩
  · exact fun h' k hk _ v hv => h' k hk v hv
  · intro h' k hk v hv
    by_cases hd : D k
    · exact h' k hk hd v hv
    · obtain ⟨hs, he⟩ := hD k hk hd
      rw [he]; exact h k hs v hv

/-! ## Where the values come from -/

/-- every entry was written when `H` held of it -/
def Recorded (H : κ → ν → ℕ → Prop) (c : ExpiringCache κ ν) : Prop := ∀ k e, c k = some e → H k e.value e.writtenAt

theorem recorded_empty (H : κ → ν → ℕ → Prop) : Recorded H empty := by
  intro k e he
  cases he

theorem Recorded.mono {H H' : κ → ν → ℕ → Prop} (h : Recorded H c) (himp : ∀ k v t, H k v t → H' k v t) :
    Recorded H' c := fun k e he => himp _ _ _ (h k e he)

/-- **Bounded staleness.** What is found now was written less than `ttl` ago. -/
theorem Recorded.lookup {H : κ → ν → ℕ → Prop} (h : Recorded H c) {k : κ} {v : ν}
    (hv : Lib.ExpiringCache.lookup ttl now c k = some v) : ∃ t, now < t + ttl ∧ H k v t := by
  obtain ⟨e, he, hlive, rfl⟩ := lookup_eq_some.1 hv
  exact ⟨e.writtenAt, hlive, h k e he⟩

/-! ## Reading through and evicting -/

variable [DecidableEq κ]

def put (now : ℕ) (c : ExpiringCache κ ν) (k : κ) (v : ν) : ExpiringCache κ ν := Function.update c k (some ⟨v, now⟩)

def evict (c : ExpiringCache κ ν) (k : κ) : ExpiringCache κ ν := Function.update c k none

/-- the cached value, or else `v`, which is then cached -/
def readThrough (ttl now : ℕ) (c : ExpiringCache κ ν) (k : κ) (v : ν) : ν × ExpiringCache κ ν :=
  match lookup ttl now c k with
  | some w => (w, c)
  | none => (v, put now c k v)

theorem lookup_put {k k' : κ} {v w : ν} (h : lookup ttl now (put now c k v) k' = some w) :
    (k' = k ∧ w = v) ∨ lookup ttl now c k' = some w := by
  by_cases hk : k' = k
  · obtain ⟨e, he, -, rfl⟩ := lookup_eq_some.1 h
    rw [put, hk, Function.update_self] at he
    cases he
    exact Or.inl ⟨hk, rfl⟩
  · right
    rwa [lookup, put, Function.update_of_ne hk] at h

theorem lookup_evict {k k' : κ} {v : ν} (h : lookup ttl now (evict c k) k' = some v) :
    lookup ttl now c k' = some v := by
  obtain ⟨e, he, hlive⟩ := lookup_eq_some.1 h
  by_cases hk : k' = k
  · rw [evict, hk, Function.update_self] at he; cases he
  · rw [evict, Function.update_of_ne hk] at he
    exact lookup_eq_some.2 ⟨e, he, hlive⟩

theorem readThrough_fst (k : κ) (v : ν) : (readThrough ttl now c k v).1 = (lookup ttl now c k).getD v := by
  unfold readThrough
  cases lookup ttl now c k <;> rfl

theorem lookup_readThrough {k k' : κ} {v w : ν} (h : lookup ttl now (readThrough ttl now c k v).2 k' = some w) :
    (k' = k ∧ w = v) ∨ lookup ttl now c k' = some w := by
  unfold readThrough at h
  split at h
  · exact Or.inr h
  · exact lookup_put h

/-- **A reader's view.** A cache agrees with `f` on `S` iff every read through it returns `f`. -/
theorem agreesOn_iff_readThrough :
    AgreesOn ttl now c S f ↔ ∀ k, S k → (readThrough ttl now c k (f k)).1 = f k := by
  refine forall_congr' fun k => imp_congr_right fun _ => ?_
  rw [readThrough_fst]
  cases lookup ttl now c k with
  | none => simp
  | some w => simp

theorem AgreesOn.readThrough (h : AgreesOn ttl now c S f) (k : κ) :
    AgreesOn ttl now (readThrough ttl now c k (f k)).2 S f := by
  intro k' hk' v hv
  rcases lookup_readThrough hv with ⟨rfl, rfl⟩ | hv
  · rfl
  · exact h k' hk' v hv

theorem AgreesOn.evict (h : AgreesOn ttl now c S f) (k : κ) : AgreesOn ttl now (evict c k) S f :=
  fun k' hk' v hv => h k' hk' v (lookup_evict hv)

theorem Recorded.evict {H : κ → ν → ℕ → Prop} (h : Recorded H c) (k : κ) :
    Recorded H (Lib.ExpiringCache.evict c k) := by
  intro k' e he
  by_cases hk : k' = k
  · rw [Lib.ExpiringCache.evict, hk, Function.update_self] at he
    cases he
  · rw [Lib.ExpiringCache.evict, Function.update_of_ne hk] at he
    exact h k' e he

theorem Recorded.put {H : κ → ν → ℕ → Prop} (h : Recorded H c) {k : κ} {v : ν} (hv : H k v now) :
    Recorded H (Lib.ExpiringCache.put now c k v) := by
  intro k' e he
  rw [Lib.ExpiringCache.put] at he
  by_cases hk : k' = k
  · rw [hk, Function.update_self] at he
    obtain rfl := Option.some.inj he
    exact hk ▸ hv
  · rw [Function.update_of_ne hk] at he
    exact h k' e he

end ExpiringCache

end Concordia.Lib
