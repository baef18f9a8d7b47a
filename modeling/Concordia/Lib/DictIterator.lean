/-
Iterating over a dictionary that others may change meanwhile, as Python does.

An iterator knows the size that the dictionary had when it began. `next` raises RuntimeError if the size is another one by
now. If the size is the same but an entry has been added or removed in between, the language leaves open how the iteration
goes on.

- `Follows`: an iterator over a dictionary that began with these keys.
- `Follows.next`: undisturbed, it comes to each key in its order.
- `watch_set`: a value replaced under its key disturbs nothing.
- `next_disturbed`: disturbed, it never comes to an item or to its end by what the language promises.
-/
import Concordia.Lib.Dict

namespace Concordia.Lib

variable {κ ν : Type*}

def Dict.keys (d : Dict κ ν) : List κ := d.items.map Prod.fst

structure DictIterator where
  size : ℕ
  position : ℕ
  /-- an entry has been added or removed since it began -/
  disturbed : Bool
deriving DecidableEq, Repr

inductive Next (κ ν : Type*) where
  | item (key : κ) (value : ν)
  | stop
  | runtimeError
  /-- the language leaves open what comes -/
  | unspecified

namespace DictIterator

def begin (d : Dict κ ν) : DictIterator := ⟨d.items.length, 0, false⟩

def next (it : DictIterator) (d : Dict κ ν) : Next κ ν :=
  if d.items.length ≠ it.size then .runtimeError
  else if it.disturbed then .unspecified
  else match d.items[it.position]? with
    | some (key, value) => .item key value
    | none => .stop

def advance (it : DictIterator) : DictIterator := { it with position := it.position + 1 }

/-- the dictionary has been changed -/
def watch [DecidableEq κ] (it : DictIterator) (before after : Dict κ ν) : DictIterator :=
  { it with disturbed := it.disturbed || decide (after.keys ≠ before.keys) }

/-- the iteration began with these keys, and has passed so many of them as its position says -/
structure Follows (keys : List κ) (it : DictIterator) (d : Dict κ ν) : Prop where
  size : it.size = keys.length
  position : it.position ≤ keys.length
  same : it.disturbed = false → d.keys = keys

variable {keys : List κ} {it : DictIterator} {d : Dict κ ν}

theorem follows_begin (d : Dict κ ν) : Follows d.keys (begin d) d :=
  ⟨by simp [begin, Dict.keys], Nat.zero_le _, fun _ => rfl⟩

theorem Follows.advance (h : Follows keys it d) {key : κ} (hkey : keys[it.position]? = some key) :
    Follows keys it.advance d :=
  ⟨h.size, (List.getElem?_eq_some_iff.1 hkey).1, h.same⟩

theorem next_disturbed (h : it.disturbed = true) : it.next d = .runtimeError ∨ it.next d = .unspecified := by
  unfold next
  split_ifs
  · exact .inl rfl
  · exact .inr rfl

/-- an undisturbed iterator comes to the key at its position, or to its end behind the last one -/
theorem Follows.next (h : Follows keys it d) (hd : it.disturbed = false) :
    (∃ key value, it.next d = .item key value ∧ keys[it.position]? = some key ∧
        d.items[it.position]? = some (key, value)) ∨
      (it.next d = .stop ∧ it.position = keys.length) := by
  have hlen : d.items.length = it.size := by rw [h.size, ← h.same hd, Dict.keys, List.length_map]
  have hnext : it.next d = match d.items[it.position]? with
      | some (key, value) => .item key value
      | none => .stop := by
    rw [DictIterator.next, if_neg (not_not.2 hlen), hd]
    rfl
  cases hitem : d.items[it.position]? with
  | none =>
    refine .inr ⟨by rw [hnext, hitem], ?_⟩
    have hle := List.getElem?_eq_none_iff.1 hitem
    have := h.position
    rw [h.size] at hlen
    omega
  | some p =>
    obtain ⟨key, value⟩ := p
    refine .inl ⟨key, value, by rw [hnext, hitem], ?_, rfl⟩
    rw [← h.same hd, Dict.keys, List.getElem?_map, hitem]
    rfl

variable [DecidableEq κ]

theorem Follows.watch (h : Follows keys it d) (d' : Dict κ ν) : Follows keys (it.watch d d') d' := by
  refine ⟨h.size, h.position, fun hd => ?_⟩
  simp only [DictIterator.watch, Bool.or_eq_false_iff, decide_eq_false_iff_not, not_not] at hd
  rw [hd.2, h.same hd.1]

/-- a value replaced under its key disturbs nothing -/
theorem watch_set {k : κ} (hk : k ∈ d.keys) (v : ν) : it.watch d (d.set k v) = it := by
  have hkeys : (d.set k v).keys = d.keys := by
    have hset : (d.set k v).items = d.items.map fun p => if p.1 = k then (k, v) else p := if_pos hk
    rw [Dict.keys, hset, map_update_keys (k := Prod.fst)]
    · rfl
    · intro p
      split_ifs with hp
      · exact hp.symm
      · rfl
  simp [watch, hkeys]

end DictIterator

end Concordia.Lib
