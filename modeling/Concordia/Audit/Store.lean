/-
The audit log (services/audit/store.go, the loop of consumer.go).

The table is a list in `seq` order. What the database answers to an INSERT is part of the operation; a row that breaks
the UUID syntax or the UNIQUE constraint is never stored. How a payload is decoded is a parameter.

- `verify_ok_iff`: verify accepts exactly the tables whose rows, as they are read back, form a hash chain.
- `verify_count`: what it counts on an accepted table.
- `scanRow_row`: the event that is read back from the row an event was inserted as.
- `consume_cases`: what one payload does to the table.
- `lastHash_head`: the hash chain's head in memory is the hash of the last row, in every run from an empty table.
-/
import Mathlib.Tactic
import Concordia.Lib.HashChain
import Concordia.Lib.Run
import Concordia.Audit.Columns

namespace Concordia.Audit

open Lib Lib.HashChain

/-! ## Rows -/

/-- a row of `audit_events` -/
structure Row where
  seq : ℕ
  eventId : Uuid
  eventType : String
  timestamp : String
  actor : Jsonb
  resource : Option Jsonb
  outcome : String
  metadata : Option Jsonb
  prevHash : Option String
  hash : String

/-- `storedEvent` -/
structure StoredEvent where
  seq : ℕ
  event : Event
  prevHash : String
  hash : String

def scanRow (r : Row) : StoredEvent where
  seq := r.seq
  event := {
    eventId := uuidOut r.eventId
    eventType := r.eventType
    timestamp := r.timestamp
    actor := unmarshalActor r.actor
    resource := r.resource.bind unmarshalResource
    outcome := r.outcome
    metadata := r.metadata.bind unmarshalMap }
  prevHash := r.prevHash.getD ""
  hash := r.hash

/-- the row that `append` inserts, once its event id is read as `id` -/
def row (sum : List Char → String) (seq : ℕ) (id : Uuid) (ev : Event) (prev : String) : Row where
  seq := seq
  eventId := id
  eventType := ev.eventType
  timestamp := ev.timestamp
  actor := jsonbFields ev.actor.fields
  resource := ev.resource.map fun r => jsonbFields r.fields
  outcome := ev.outcome
  metadata := ev.metadata.map jsonbMap
  prevHash := if prev = "" then none else some prev
  hash := computeHash sum ev prev

/-! ## Verification -/

structure VerifyResult where
  ok : Bool
  count : ℕ
  brokenSeq : ℕ
  reason : String
deriving DecidableEq

/-- the loop of `verify` -/
def verifyFrom (sum : List Char → String) : String → ℕ → List Row → VerifyResult
  | _, count, [] => ⟨true, count, 0, ""⟩
  | expectedPrev, count, r :: rows =>
    let se := scanRow r
    if se.prevHash ≠ expectedPrev then ⟨false, count + 1, se.seq, "prev_hash does not match the preceding event"⟩
    else if computeHash sum se.event se.prevHash ≠ se.hash then
      ⟨false, count + 1, se.seq, "recomputed hash does not match stored hash (event was modified)"⟩
    else verifyFrom sum se.hash (count + 1) rows

def verify (sum : List Char → String) (rows : List Row) : VerifyResult := verifyFrom sum "" 0 rows

/-- a row as it is read back, as a link of the chain -/
def link (r : Row) : Link Event String := ⟨(scanRow r).event, (scanRow r).prevHash, r.hash⟩

theorem verifyFrom_ok (sum : List Char → String) (p : String) (n : ℕ) (rows : List Row) :
    (verifyFrom sum p n rows).ok = true ↔ HashLinked (computeHash sum) p (rows.map link) := by
  induction rows generalizing p n with
  | nil => simp [verifyFrom, HashLinked]
  | cons r rows ih =>
    simp only [verifyFrom, List.map_cons, HashLinked]
    split_ifs with hprev hhash
    · refine ⟨?_, ?_⟩
      · intro h
        cases h
      · intro h
        exact absurd h.1 hprev
    · refine ⟨?_, ?_⟩
      · intro h
        cases h
      · intro h
        exact absurd h.2.1.symm hhash
    · rw [ih]
      refine ⟨?_, ?_⟩
      · intro h
        exact ⟨not_not.1 hprev, (not_not.1 hhash).symm, h⟩
      · intro h
        exact h.2.2

/-- **verify accepts the tables whose rows, as read back, form a hash chain.** -/
theorem verify_ok_iff (sum : List Char → String) (rows : List Row) :
    (verify sum rows).ok = true ↔ HashLinked (computeHash sum) "" (rows.map link) :=
  verifyFrom_ok sum "" 0 rows

theorem verifyFrom_count {sum : List Char → String} {p : String} {n : ℕ} {rows : List Row}
    (h : (verifyFrom sum p n rows).ok = true) : verifyFrom sum p n rows = ⟨true, n + rows.length, 0, ""⟩ := by
  induction rows generalizing p n with
  | nil => rfl
  | cons r rows ih =>
    simp only [verifyFrom] at h ⊢
    split_ifs at h ⊢
    rw [ih h, List.length_cons, Nat.add_right_comm, Nat.add_assoc]

/-- an accepted table is counted in full -/
theorem verify_count {sum : List Char → String} {rows : List Row} (h : (verify sum rows).ok = true) :
    verify sum rows = ⟨true, rows.length, 0, ""⟩ := by
  rw [verify, verifyFrom_count h, Nat.zero_add]

theorem verify_eq_ok {sum : List Char → String} {rows : List Row} :
    verify sum rows = ⟨true, rows.length, 0, ""⟩ ↔ HashLinked (computeHash sum) "" (rows.map link) := by
  rw [← verify_ok_iff]
  refine ⟨?_, ?_⟩
  · intro h
    rw [h]
  · exact verify_count

/-! ## Through a row -/

variable (sum : List Char → String) (seq : ℕ) (id : Uuid) (ev : Event) (prev : String)

theorem scanRow_entries : Json.obj (scanRow (row sum seq id ev prev)).event.entries =
    Json.map Float64.unsigned (.obj ev.entries) := by
  have hempty : Json.map Float64.unsigned (.obj []) = (.obj [] : Json Float64) := by
    simp [Json.map, Json.subst, Json.substMembers]
  simp only [scanRow, row, Event.entries]
  cases ev.metadata with
  | none => exact hempty.symm
  | some m =>
    have hread := unmarshalMap_jsonbMap m
    simp only [Option.map_some, Option.bind_some, Option.getD_some]
    cases hm : unmarshalMap (jsonbMap m) with
    | none =>
      rw [hm] at hread
      cases hread
    | some n =>
      rw [hm] at hread
      exact Option.some.inj hread

@[simp] theorem scanRow_prevHash : (scanRow (row sum seq id ev prev)).prevHash = prev := by
  simp only [scanRow, row]
  split_ifs with h
  · exact h.symm
  · rfl

/-- what becomes of an event: the id is canonical, the numbers of the metadata have lost the sign of zero -/
structure Event.Reads (a b : Event) (id : Uuid) : Prop where
  eventId : b.eventId = uuidOut id
  eventType : b.eventType = a.eventType
  timestamp : b.timestamp = a.timestamp
  actor : b.actor = a.actor
  resource : b.resource = a.resource
  outcome : b.outcome = a.outcome
  entries : Json.obj b.entries = Json.map Float64.unsigned (.obj a.entries)

/-- **What is read back** from the row an event was inserted as. -/
theorem scanRow_row : ev.Reads (scanRow (row sum seq id ev prev)).event id where
  eventId := rfl
  eventType := rfl
  timestamp := rfl
  actor := unmarshalActor_jsonb ev.actor
  resource := by
    simp only [scanRow, row]
    cases ev.resource with
    | none => rfl
    | some r => exact unmarshalResource_jsonb r
  outcome := rfl
  entries := scanRow_entries sum seq id ev prev

/-! ## The service -/

/-- the table, the sequence of `seq` and `lastHash` of one service -/
structure Store where
  rows : List Row
  nextSeq : ℕ
  lastHash : String

def Store.empty : Store := ⟨[], 1, ""⟩

/-- the answer to an INSERT: whether it is carried out if the constraints allow it, and how many numbers the sequence
has given up before it -/
structure Answer where
  accepted : Bool
  skipped : ℕ

/-- the id under which the constraints allow an event to be stored -/
def insertable (rows : List Row) (ev : Event) : Option Uuid :=
  (uuidIn ev.eventId).filter fun id => id ∉ rows.map Row.eventId

/-- `append` -/
def append (sum : List Char → String) (s : Store) (ev : Event) (answer : Answer) : Store :=
  let prev := s.lastHash
  let h := computeHash sum ev prev
  let seq := s.nextSeq + answer.skipped
  match if answer.accepted then insertable s.rows ev else none with
  | some id => ⟨s.rows ++ [row sum seq id ev prev], seq + 1, h⟩
  | none => { s with nextSeq := seq }

/-- one round of `run`: malformed and invalid events are dropped, a failed append is logged -/
def consume {π : Type*} (sum : List Char → String) (unmarshal : π → Option Event) (s : Store) (op : π × Answer) : Store :=
  match unmarshal op.1 with
  | none => s
  | some ev => if validEvent ev then append sum s ev op.2 else s

/-- the event a payload leads to being stored, and its id -/
def stored {π : Type*} (unmarshal : π → Option Event) (s : Store) (op : π × Answer) : Option (Event × Uuid) :=
  match unmarshal op.1 with
  | none => none
  | some ev =>
    if validEvent ev ∧ op.2.accepted then (insertable s.rows ev).map fun id => (ev, id) else none

/-- a payload stores its event after the last row, or nothing -/
theorem consume_cases {π : Type*} (sum : List Char → String) (unmarshal : π → Option Event) (s : Store)
    (op : π × Answer) :
    (stored unmarshal s op = none ∧ (consume sum unmarshal s op).rows = s.rows ∧
      (consume sum unmarshal s op).lastHash = s.lastHash) ∨
    ∃ ev id seq, stored unmarshal s op = some (ev, id) ∧
      (consume sum unmarshal s op).rows = s.rows ++ [row sum seq id ev s.lastHash] ∧
      (consume sum unmarshal s op).lastHash = computeHash sum ev s.lastHash := by
  unfold consume stored
  cases unmarshal op.1 with
  | none => exact .inl ⟨rfl, rfl, rfl⟩
  | some ev =>
    dsimp only
    by_cases hvalid : validEvent ev = true
    · cases haccepted : op.2.accepted with
      | false =>
        left
        simp [append, haccepted, hvalid]
      | true =>
        cases hid : insertable s.rows ev with
        | none =>
          left
          simp [append, haccepted, hvalid, hid]
        | some id =>
          right
          refine ⟨ev, id, s.nextSeq + op.2.skipped, ?_⟩
          simp [append, haccepted, hvalid, hid]
    · left
      simp [hvalid]

/-- the head that the service keeps is the hash of the last row -/
theorem lastHash_head {π : Type*} (sum : List Char → String) (unmarshal : π → Option Event)
    (ops : List (π × Answer)) :
    (run (consume sum unmarshal) Store.empty ops).lastHash =
      head "" ((run (consume sum unmarshal) Store.empty ops).rows.map link) := by
  refine run_inv' (I := fun s : Store => s.lastHash = head "" (s.rows.map link)) ?_ rfl ops
  intro s op hs
  rcases consume_cases sum unmarshal s op with ⟨-, hrows, hlast⟩ | ⟨ev, id, seq, -, hrows, hlast⟩
  · rw [hrows, hlast]
    exact hs
  · rw [hrows, hlast, List.map_append, List.map_singleton, head_snoc]
    rfl

end Concordia.Audit
