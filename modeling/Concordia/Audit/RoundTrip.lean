/-
An untouched audit log against its own verification.

The hash is computed from the event in memory, verification recomputes it from the columns. The timestamp column is TEXT
so that "the value round-trips byte-for-byte and the hash chain stays verifiable" (infra/audit-db/init.sh); the event id
and the numbers of the metadata are not kept byte for byte.

- `verified_iff`: after any payloads and any answers of the database, verify accepts the table, with the number of its
  rows, exactly when every event that was stored had its id in canonical form and no −0 in its metadata.
- `upper_case_id`: an event with an upper-case id breaks the chain.
-/
import Concordia.Audit.Store

namespace Concordia.Audit

open Lib Lib.HashChain

/-- the columns keep all of the event -/
def Unaltered (ev : Event) (id : Uuid) : Prop :=
  uuidOut id = ev.eventId ∧ Json.All (fun f => f.isNegZero = false) (.obj ev.entries)

theorem all_congr_negZero {v : Json Float64} :
    Json.map Float64.unsigned v = v ↔ Json.All (fun f => f.isNegZero = false) v := by
  have h : (fun f : Float64 => f.unsigned = f) = fun f => f.isNegZero = false := by
    funext f
    exact propext Float64.unsigned_eq_self
  rw [Json.map_eq_self, h]

/-- what is read back is the same event exactly when the columns keep all of it -/
theorem same_iff_unaltered {ev b : Event} {id : Uuid} (h : ev.Reads b id) : ev.Same b ↔ Unaltered ev id := by
  refine ⟨?_, ?_⟩
  · intro hsame
    refine ⟨?_, all_congr_negZero.1 ?_⟩
    · rw [← h.eventId, hsame.eventId]
    · rw [← h.entries, hsame.entries]
  · intro ⟨hid, hnum⟩
    refine ⟨?_, h.eventType.symm, h.timestamp.symm, h.actor.symm, h.resource.symm, h.outcome.symm, ?_⟩
    · rw [h.eventId, hid]
    · have hentries := h.entries
      rw [all_congr_negZero.2 hnum] at hentries
      exact (Json.obj.inj hentries).symm

section

variable {sum : List Char → String} (hsum : Function.Injective sum) {π : Type*} (unmarshal : π → Option Event)

include hsum

/-- the hash is recomputed from the row exactly when the columns keep all of the event -/
theorem recomputed_iff (seq : ℕ) (id : Uuid) (ev : Event) (prev : String) :
    computeHash sum ev prev = computeHash sum (scanRow (row sum seq id ev prev)).event prev ↔ Unaltered ev id := by
  rw [← same_iff_unaltered (scanRow_row sum seq id ev prev)]
  refine ⟨?_, ?_⟩
  · intro h
    exact (computeHash_inj hsum h).1
  · intro h
    exact h.computeHash_eq sum prev

/-- one payload keeps the table verifiable exactly when what it stores is kept unaltered -/
theorem consume_linked {s : Store} (hlast : s.lastHash = head "" (s.rows.map link)) (op : π × Answer) :
    HashLinked (computeHash sum) "" ((consume sum unmarshal s op).rows.map link) ↔
      HashLinked (computeHash sum) "" (s.rows.map link) ∧
        ∀ ev id, stored unmarshal s op = some (ev, id) → Unaltered ev id := by
  rcases consume_cases sum unmarshal s op with ⟨hnone, hrows, -⟩ | ⟨ev, id, seq, hsome, hrows, -⟩
  · rw [hrows, hnone]
    simp
  · rw [hrows, hsome, List.map_append, List.map_singleton, linked_snoc, and_congr_right_iff]
    intro _
    have hprev : (link (row sum seq id ev s.lastHash)).prev = s.lastHash := scanRow_prevHash sum seq id ev s.lastHash
    have hhash : (link (row sum seq id ev s.lastHash)).hash = computeHash sum ev s.lastHash := rfl
    rw [hprev, hhash, ← hlast]
    refine ⟨?_, ?_⟩
    · intro ⟨_, hrecomputed⟩ ev' id' h
      obtain ⟨rfl, rfl⟩ := Prod.mk.inj (Option.some.inj h)
      exact (recomputed_iff hsum seq id ev s.lastHash).1 hrecomputed
    · intro h
      exact ⟨rfl, (recomputed_iff hsum seq id ev s.lastHash).2 (h ev id rfl)⟩

/-- **Round trip.** The log verifies, with the number of its rows, exactly when every stored event was kept unaltered. -/
theorem verified_iff (ops : List (π × Answer)) :
    verify sum (run (consume sum unmarshal) Store.empty ops).rows =
        ⟨true, (run (consume sum unmarshal) Store.empty ops).rows.length, 0, ""⟩ ↔
      Along (consume sum unmarshal) (fun s op => ∀ ev id, stored unmarshal s op = some (ev, id) → Unaltered ev id)
        Store.empty ops := by
  rw [verify_eq_ok]
  -- the chain of the whole run, from its last payload backwards
  induction ops using List.reverseRecOn with
  | nil => simp [Store.empty, HashLinked, Along]
  | append_singleton ops op ih =>
    have hstep := consume_linked hsum unmarshal (lastHash_head sum unmarshal ops) op
    rw [run_snoc, hstep, along_append]
    simp only [Along, and_true]
    rw [← ih]

end

/-! ## An event that is kept, and one that is not -/

/-- a digest without collisions -/
def tagged (text : List Char) : String := String.ofList ('#' :: text)

theorem tagged_injective : Function.Injective tagged := by
  intro a b h
  have hlist := congrArg String.toList h
  simpa [tagged] using hlist

/-- a login that took 2.5 seconds -/
def login : Event where
  eventId := "0a1b2c3d-4e5f-4a6b-8c7d-9e0f1a2b3c4d"
  eventType := "auth.login.success"
  timestamp := "2024-01-01T00:00:00Z"
  actor := ⟨"alice", "10.0.0.7", ""⟩
  resource := none
  outcome := "success"
  metadata := some ⟨[("seconds", .num ⟨false, 5 * 2 ^ 50, -51, by norm_num, by norm_num⟩)], by
    simp [Json.Canonical, Json.CanonicalMembers]⟩

/-- the same with its id in upper case -/
def loginUpper : Event := { login with eventId := "0A1B2C3D-4E5F-4A6B-8C7D-9E0F1A2B3C4D" }

def loginId : Uuid := (uuidIn login.eventId).get (by decide)

theorem loginId_eq : uuidIn login.eventId = some loginId := (Option.some_get _).symm

theorem login_unaltered : Unaltered login loginId := by
  have hkept : (uuidIn login.eventId).map uuidOut = some login.eventId := by decide
  rw [loginId_eq] at hkept
  exact ⟨Option.some.inj hkept, by simp [login, Event.entries, Json.All, Json.AllMembers, Float64.isNegZero]⟩

theorem login_verified :
    Function.Injective tagged ∧
      verify tagged (run (consume tagged some) Store.empty [(login, ⟨true, 0⟩)]).rows =
        ⟨true, (run (consume tagged some) Store.empty [(login, ⟨true, 0⟩)]).rows.length, 0, ""⟩ := by
  refine ⟨tagged_injective, (verified_iff tagged_injective some [(login, ⟨true, 0⟩)]).2 ⟨?_, trivial⟩⟩
  intro ev id h
  have hvalid : validEvent login = true := by decide
  have hstored : (login, loginId) = (ev, id) := by
    simpa [stored, hvalid, insertable, Option.filter, Store.empty, loginId_eq] using h
  obtain ⟨rfl, rfl⟩ := Prod.mk.inj hstored
  exact login_unaltered

/-- the first event of a log -/
theorem first_row {sum : List Char → String} {ev : Event} {id : Uuid} (hvalid : validEvent ev = true)
    (hid : uuidIn ev.eventId = some id) :
    (run (consume sum some) Store.empty [(ev, ⟨true, 0⟩)]).rows = [row sum 1 id ev ""] := by
  simp [run, consume, append, insertable, Option.filter, Store.empty, hvalid, hid]

/-- stored and never touched, but not accepted -/
theorem upper_case_id :
    Function.Injective tagged ∧ (run (consume tagged some) Store.empty [(loginUpper, ⟨true, 0⟩)]).rows.length = 1 ∧
      verify tagged (run (consume tagged some) Store.empty [(loginUpper, ⟨true, 0⟩)]).rows =
        ⟨false, 1, 1, "recomputed hash does not match stored hash (event was modified)"⟩ := by
  refine ⟨tagged_injective, ?_⟩
  have hlower : (uuidIn loginUpper.eventId).map uuidOut = some "0a1b2c3d-4e5f-4a6b-8c7d-9e0f1a2b3c4d" := by decide
  cases hid : uuidIn loginUpper.eventId with
  | none =>
    rw [hid] at hlower
    cases hlower
  | some id =>
    rw [hid] at hlower
    rw [first_row (by decide) hid]
    refine ⟨rfl, ?_⟩
    have hprev : (scanRow (row tagged 1 id loginUpper "")).prevHash = "" := scanRow_prevHash tagged 1 id loginUpper ""
    have hbroken : computeHash tagged (scanRow (row tagged 1 id loginUpper "")).event "" ≠
        computeHash tagged loginUpper "" := by
      intro h
      have hkept := ((recomputed_iff tagged_injective 1 id loginUpper "").1 h.symm).1
      rw [Option.some.inj hlower] at hkept
      revert hkept
      decide
    rw [verify, verifyFrom]
    simp only [hprev, ne_eq, not_true_eq_false, if_false]
    exact if_pos hbroken

end Concordia.Audit
