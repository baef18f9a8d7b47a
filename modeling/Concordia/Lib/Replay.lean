/-
A store fed from a log. One reader goes through the log from the position the group has committed, each record is an
upsert of one entry of the store or nothing, and the store outlives the reader: a restart resumes at the committed
position and applies again what was applied since. An upsert may fail, and the reader goes on behind it.

- `replay`: the upserts of a list of records, one after the other; `replay_eq_lookup`: the newest record of a key decides.
- `Feed`, `feedStep`: the log, its positions and the store.
- `sourced`: after every run each entry comes from a record of the log.
- `abreast`: if no upsert of a key failed, its entry is what the log up to some point holds, never before the position;
  `caught_up`: behind the last record it is what the whole log holds.
-/
import Concordia.Lib.Run

namespace Concordia.Lib

open Function (update update_self update_of_ne)

variable {ε κ ν : Type*} [DecidableEq κ]

/-! ## Upserts -/

section

variable (entry : ε → Option (κ × ν))

/-- one record applied -/
def upsert (store : κ → Option ν) (e : ε) : κ → Option ν :=
  match entry e with
  | some (k, v) => update store k (some v)
  | none => store

/-- a list of records applied to the empty store -/
def replay (records : List ε) : κ → Option ν := records.foldl (upsert entry) fun _ => none

/-- the record is about the key -/
def About (k : κ) (e : ε) : Prop := ∃ v, entry e = some (k, v)

variable {entry}

theorem upsert_about {store : κ → Option ν} {e : ε} {k : κ} {v : ν} (h : entry e = some (k, v)) :
    upsert entry store e k = some v := by
  unfold upsert
  rw [h]
  exact update_self ..

theorem upsert_other {store : κ → Option ν} {e : ε} {k : κ} (h : ¬ About entry k e) :
    upsert entry store e k = store k := by
  unfold upsert
  cases he : entry e with
  | none => rfl
  | some kv =>
    obtain ⟨k', v⟩ := kv
    refine update_of_ne ?_ _ _
    rintro rfl
    exact h ⟨v, he⟩

theorem replay_snoc (records : List ε) (e : ε) :
    replay entry (records ++ [e]) = upsert entry (replay entry records) e := by
  simp [replay]

/-- **Last wins.** An entry is what the newest record of its key says. -/
theorem replay_eq_lookup (records : List ε) (k : κ) :
    replay entry records k = (records.reverse.filterMap entry).lookup k := by
  induction records using List.reverseRecOn with
  | nil => rfl
  | append_singleton records e ih =>
    rw [replay_snoc, List.reverse_append, List.reverse_singleton, List.singleton_append]
    cases he : entry e with
    | none =>
      rw [List.filterMap_cons_none he, ← ih]
      apply upsert_other
      rintro ⟨v, hv⟩
      rw [he] at hv
      cases hv
    | some kv =>
      obtain ⟨k', v⟩ := kv
      rw [List.filterMap_cons_some he, List.lookup_cons]
      by_cases hk : k = k'
      · subst hk
        rw [upsert_about he, beq_self_eq_true]
      · rw [beq_false_of_ne hk, ← ih]
        apply upsert_other
        rintro ⟨v', hv'⟩
        rw [he] at hv'
        cases hv'
        exact hk rfl

end

/-! ## The log and its reader -/

structure Feed (ε κ ν : Type*) where
  log : List ε
  /-- where a restarted reader resumes -/
  committed : ℕ
  /-- the next record of the reader -/
  position : ℕ
  store : κ → Option ν

inductive FeedOp (ε : Type*) where
  | publish (e : ε)
  /-- the next record is given to the reader, and its upsert is stored or fails -/
  | deliver (stored : Bool)
  | commit
  | restart
deriving DecidableEq, Repr

def Feed.empty : Feed ε κ ν where
  log := []
  committed := 0
  position := 0
  store := fun _ => none

section

variable (entry : ε → Option (κ × ν))

def feedStep (s : Feed ε κ ν) : FeedOp ε → Feed ε κ ν
  | .publish e => { s with log := s.log ++ [e] }
  | .deliver stored =>
    match s.log[s.position]? with
    | none => s
    | some e =>
      { s with position := s.position + 1, store := if stored then upsert entry s.store e else s.store }
  | .commit => { s with committed := s.position }
  | .restart => { s with position := s.committed }

/-- the next record is about `k`, and its upsert fails -/
def Lost (k : κ) (s : Feed ε κ ν) (o : FeedOp ε) : Prop :=
  o = .deliver false ∧ ∃ e, s.log[s.position]? = some e ∧ About entry k e

variable {entry}

theorem deliver_none {s : Feed ε κ ν} (h : s.log[s.position]? = none) (stored : Bool) :
    feedStep entry s (.deliver stored) = s := by
  simp [feedStep, h]

theorem deliver_some {s : Feed ε κ ν} {e : ε} (h : s.log[s.position]? = some e) (stored : Bool) :
    feedStep entry s (.deliver stored) =
      { s with position := s.position + 1, store := if stored then upsert entry s.store e else s.store } := by
  simp [feedStep, h]

/-! ## Where an entry comes from -/

/-- every entry is that of a record of the log -/
def Sourced (entry : ε → Option (κ × ν)) (s : Feed ε κ ν) : Prop :=
  ∀ k v, s.store k = some v → ∃ e ∈ s.log, entry e = some (k, v)

theorem sourced_step (s : Feed ε κ ν) (o : FeedOp ε) (h : Sourced entry s) : Sourced entry (feedStep entry s o) := by
  cases o with
  | publish e =>
    intro k v hv
    obtain ⟨e', he', hentry⟩ := h k v hv
    exact ⟨e', List.mem_append_left _ he', hentry⟩
  | deliver stored =>
    cases hnext : s.log[s.position]? with
    | none => rwa [deliver_none hnext]
    | some e =>
      rw [deliver_some hnext]
      intro k v hv
      by_cases habout : stored = true ∧ About entry k e
      · obtain ⟨rfl, v', hv'⟩ := habout
        simp only [if_pos, upsert_about hv', Option.some.injEq] at hv
        exact ⟨e, List.mem_of_getElem? hnext, hv ▸ hv'⟩
      · apply h k v
        rw [← hv]
        cases stored with
        | false => rfl
        | true => exact (upsert_other fun ha => habout ⟨rfl, ha⟩).symm
  | commit => exact h
  | restart => exact h

theorem sourced (ops : List (FeedOp ε)) : Sourced entry (run (feedStep entry) .empty ops) :=
  run_inv' sourced_step (by rintro k v ⟨⟩) ops

/-! ## How old an entry is -/

/-- the entry of `k` is what the log holds up to some point that is not before the position -/
structure Abreast (entry : ε → Option (κ × ν)) (k : κ) (s : Feed ε κ ν) : Prop where
  committed_le : s.committed ≤ s.position
  position_le : s.position ≤ s.log.length
  current : ∃ m, s.position ≤ m ∧ m ≤ s.log.length ∧ s.store k = replay entry (s.log.take m) k

theorem take_succ_of_next {l : List ε} {i : ℕ} {e : ε} (h : l[i]? = some e) : l.take (i + 1) = l.take i ++ [e] := by
  rw [List.take_add_one, h]
  rfl

theorem abreast_step {k : κ} (s : Feed ε κ ν) (o : FeedOp ε) (h : Abreast entry k s) (hkept : ¬ Lost entry k s o) :
    Abreast entry k (feedStep entry s o) := by
  obtain ⟨hcommitted, hposition, m, hm, hlen, hstore⟩ := h
  cases o with
  | publish e =>
    have hlonger : s.log.length ≤ (s.log ++ [e]).length := by simp
    refine ⟨hcommitted, hposition.trans hlonger, m, hm, hlen.trans hlonger, ?_⟩
    calc s.store k = replay entry (s.log.take m) k := hstore
      _ = replay entry ((s.log ++ [e]).take m) k := by rw [List.take_append_of_le_length hlen]
  | deliver stored =>
    cases hnext : s.log[s.position]? with
    | none =>
      rw [deliver_none hnext]
      exact ⟨hcommitted, hposition, m, hm, hlen, hstore⟩
    | some e =>
      rw [deliver_some hnext]
      have hlt : s.position < s.log.length := (List.getElem?_eq_some_iff.1 hnext).1
      refine ⟨hcommitted.trans s.position.le_succ, hlt, ?_⟩
      by_cases habout : About entry k e
      · -- a record of the key: stored, and the log just behind it says the same
        obtain ⟨v, hv⟩ := habout
        have hstored : stored = true := by
          cases stored with
          | true => rfl
          | false => exact absurd ⟨rfl, e, hnext, v, hv⟩ hkept
        subst hstored
        refine ⟨s.position + 1, le_rfl, hlt, ?_⟩
        rw [take_succ_of_next hnext, replay_snoc, upsert_about hv]
        exact upsert_about hv
      · -- a record of another key: the entry stays, and so does what the log holds for it
        have hsame : (if stored then upsert entry s.store e else s.store) k = s.store k := by
          cases stored with
          | false => rfl
          | true => exact upsert_other habout
        rcases hm.eq_or_lt with heq | hgt
        · refine ⟨s.position + 1, le_rfl, hlt, ?_⟩
          rw [take_succ_of_next hnext, replay_snoc, upsert_other habout, heq, ← hstore]
          exact hsame
        · exact ⟨m, hgt, hlen, hsame.trans hstore⟩
  | commit => exact ⟨le_rfl, hposition, m, hm, hlen, hstore⟩
  | restart => exact ⟨le_rfl, hcommitted.trans hposition, m, hcommitted.trans hm, hlen, hstore⟩

/-- **Never behind the position.** Along every run in which no upsert of the key fails. -/
theorem abreast {k : κ} {ops : List (FeedOp ε)}
    (h : Along (feedStep entry) (fun s o => ¬ Lost entry k s o) .empty ops) :
    Abreast entry k (run (feedStep entry) .empty ops) :=
  run_inv abreast_step ⟨le_rfl, le_rfl, 0, le_rfl, le_rfl, rfl⟩ h

/-- behind the last record an entry is what the whole log holds -/
theorem caught_up {k : κ} {s : Feed ε κ ν} (h : Abreast entry k s) (hend : s.position = s.log.length) :
    s.store k = replay entry s.log k := by
  obtain ⟨m, hm, hlen, hstore⟩ := h.current
  rw [hstore, le_antisymm hlen (hend ▸ hm), List.take_length]

end

end Concordia.Lib
