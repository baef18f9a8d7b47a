/-
What the hashes of an audit log commit to: "each event commits to the entire history before it" and "any manual
UPDATE/DELETE in the database breaks one of these checks" (services/audit/store.go).

The digest has no collisions (`hsum`) and is never the empty text (`hne`).

- `head_commits`: two logs that verify and whose last rows have the same hash agree row by row.
- `tampering_detected_iff`: manual changes of a log that verifies, hashes not recomputed, are noticed exactly when a row
  is deleted from before one that is kept, or a row is changed in what is read back of it.
- `emptied_log`: rows deleted from the end, all of them even, are not missed.
-/
import Concordia.Audit.RoundTrip

namespace Concordia.Audit

open Lib Lib.HashChain

/-- two rows that verify reads alike -/
structure SameReading (a b : Row) : Prop where
  event : (scanRow a).event.Same (scanRow b).event
  prevHash : (scanRow a).prevHash = (scanRow b).prevHash
  hash : a.hash = b.hash

theorem agree_link {a b : Row} : Agree Event.Same (link a) (link b) ↔ SameReading a b := by
  refine ⟨?_, ?_⟩
  · intro ⟨hevent, hprev, hhash⟩
    exact ⟨hevent, hprev, hhash⟩
  · intro h
    exact ⟨h.event, h.prevHash, h.hash⟩

/-- the same column by column: the JSONB columns up to what is decoded from them, no metadata being like an empty map and
no previous hash like an empty one -/
structure SameColumns (a b : Row) : Prop where
  eventId : a.eventId = b.eventId
  eventType : a.eventType = b.eventType
  timestamp : a.timestamp = b.timestamp
  actor : unmarshalActor a.actor = unmarshalActor b.actor
  resource : a.resource.bind unmarshalResource = b.resource.bind unmarshalResource
  outcome : a.outcome = b.outcome
  metadata : ((a.metadata.bind unmarshalMap).map Metadata.members).getD [] =
    ((b.metadata.bind unmarshalMap).map Metadata.members).getD []
  prevHash : a.prevHash.getD "" = b.prevHash.getD ""
  hash : a.hash = b.hash

theorem sameReading_iff {a b : Row} : SameReading a b ↔ SameColumns a b := by
  refine ⟨?_, ?_⟩
  · intro ⟨⟨hid, htype, htime, hactor, hresource, houtcome, hentries⟩, hprev, hhash⟩
    exact ⟨uuidOut_inj hid, htype, htime, hactor, hresource, houtcome, hentries, hprev, hhash⟩
  · intro ⟨hid, htype, htime, hactor, hresource, houtcome, hentries, hprev, hhash⟩
    exact ⟨⟨congrArg uuidOut hid, htype, htime, hactor, hresource, houtcome, hentries⟩, hprev, hhash⟩

theorem head_last {rows : List Row} {last : Row} (h : rows.getLast? = some last) :
    head "" (rows.map link) = last.hash := by
  obtain ⟨init, rfl⟩ := List.getLast?_eq_some_iff.1 h
  rw [List.map_append, List.map_singleton, head_snoc]
  rfl

section

variable {sum : List Char → String} (hsum : Function.Injective sum) (hne : ∀ text, sum text ≠ "")

include hsum hne

/-- **The last hash commits to the whole log.** -/
theorem head_commits {A B : List Row} {a b : Row} (hA : (verify sum A).ok = true) (hB : (verify sum B).ok = true)
    (ha : A.getLast? = some a) (hb : B.getLast? = some b) (hhash : a.hash = b.hash) :
    A.length = B.length ∧ List.Forall₂ SameReading A B := by
  rw [verify_ok_iff] at hA hB
  have hcommit := commit (R := Event.Same) (fun _ _ _ _ h => computeHash_inj hsum h) (fun _ _ => hne _) hA hB
    (by rw [head_last ha, head_last hb, hhash])
  rw [List.forall₂_map_left_iff, List.forall₂_map_right_iff] at hcommit
  have hrows : List.Forall₂ SameReading A B := hcommit.imp fun _ _ => agree_link.1
  exact ⟨hrows.length_eq, hrows⟩

end

/-! ## Two logs of one event -/

theorem tagged_ne (text : List Char) : tagged text ≠ "" := by
  intro h
  have hlist := congrArg String.toList h
  simp [tagged] at hlist

/-- the log of one event that is kept unaltered verifies -/
theorem verify_first {ev : Event} {id : Uuid} (seq : ℕ) (h : Unaltered ev id) :
    (verify tagged [row tagged seq id ev ""]).ok = true := by
  rw [verify_ok_iff, List.map_singleton]
  exact ⟨scanRow_prevHash tagged seq id ev "", (recomputed_iff tagged_injective seq id ev "").2 h, trivial⟩

/-- the login without metadata, and with an empty map of it -/
def loginNil : Event := { login with metadata := none }

def loginEmpty : Event := { login with metadata := some ⟨[], by simp [Json.Canonical, Json.CanonicalMembers]⟩ }

theorem loginNil_unaltered : Unaltered loginNil loginId :=
  ⟨login_unaltered.1, by simp [loginNil, Event.entries, Json.All, Json.AllMembers]⟩

theorem loginEmpty_unaltered : Unaltered loginEmpty loginId :=
  ⟨login_unaltered.1, by simp [loginEmpty, Event.entries, Json.All, Json.AllMembers]⟩

theorem one_event_agrees :
    (row tagged 1 loginId loginNil "").hash = (row tagged 2 loginId loginEmpty "").hash ∧
      List.Forall₂ SameReading [row tagged 1 loginId loginNil ""] [row tagged 2 loginId loginEmpty ""] := by
  have hhash : (row tagged 1 loginId loginNil "").hash = (row tagged 2 loginId loginEmpty "").hash := rfl
  exact ⟨hhash, (head_commits tagged_injective tagged_ne (verify_first 1 loginNil_unaltered)
    (verify_first 2 loginEmpty_unaltered) rfl rfl hhash).2⟩

/-! ## Manual changes -/

/-- a row and what a manual change makes of it: deleted, or with other columns, its hash not recomputed -/
structure Edit (sum : List Char → String) where
  before : Row
  after : Option Row
  seq : ∀ r, after = some r → r.seq = before.seq
  hash : ∀ r, after = some r → r.hash = before.hash ∨ r.hash ≠ computeHash sum (scanRow r).event (scanRow r).prevHash

/-- the deleted rows are the last ones, and in those that are kept nothing has changed that is read -/
def Unnoticed {sum : List Char → String} (edits : List (Edit sum)) : Prop :=
  ∃ kept lost, edits = kept ++ lost ∧ (∀ e ∈ kept, ∃ r, e.after = some r ∧ SameColumns e.before r) ∧
    ∀ e ∈ lost, e.after = none

section

variable {sum : List Char → String} (hsum : Function.Injective sum) (hne : ∀ text, sum text ≠ "")

/-- an edit as a link and what becomes of it -/
def Edit.links (e : Edit sum) : Link Event String × Option (Link Event String) := (link e.before, e.after.map link)

theorem links_after (edits : List (Edit sum)) :
    (edits.map Edit.links).filterMap Prod.snd = (edits.filterMap Edit.after).map link := by
  rw [List.filterMap_map, List.map_filterMap]
  rfl

theorem unnoticed_iff (edits : List (Edit sum)) : Unnoticed edits ↔
    ∃ kept lost, edits.map Edit.links = kept ++ lost ∧
      (∀ x ∈ kept, ∃ l, x.2 = some l ∧ Agree Event.Same x.1 l) ∧ ∀ x ∈ lost, x.2 = none := by
  refine ⟨?_, ?_⟩
  · intro ⟨kept, lost, hedits, hkept, hlost⟩
    refine ⟨kept.map Edit.links, lost.map Edit.links, by rw [hedits, List.map_append], ?_, ?_⟩
    · intro x hx
      obtain ⟨e, he, rfl⟩ := List.mem_map.1 hx
      obtain ⟨r, hr, hsame⟩ := hkept e he
      exact ⟨link r, by rw [Edit.links, hr]; rfl, agree_link.2 (sameReading_iff.2 hsame)⟩
    · intro x hx
      obtain ⟨e, he, rfl⟩ := List.mem_map.1 hx
      rw [Edit.links, hlost e he]
      rfl
  · intro ⟨kept', lost', hmap, hkept, hlost⟩
    obtain ⟨kept, lost, rfl, rfl, rfl⟩ := List.map_eq_append_iff.1 hmap
    refine ⟨kept, lost, rfl, ?_, ?_⟩
    · intro e he
      obtain ⟨l, hl, hagree⟩ := hkept _ (List.mem_map_of_mem he)
      obtain ⟨r, hr, rfl⟩ := Option.map_eq_some_iff.1 hl
      exact ⟨r, hr, sameReading_iff.1 (agree_link.1 hagree)⟩
    · intro e he
      exact Option.map_eq_none_iff.1 (hlost _ (List.mem_map_of_mem he))

include hsum hne

/-- **Tampering.** Manual changes of a log that verifies are noticed exactly when they are not of the unnoticed kind. -/
theorem tampering_detected_iff (edits : List (Edit sum)) (hok : (verify sum (edits.map Edit.before)).ok = true) :
    (verify sum (edits.filterMap Edit.after)).ok = false ↔ ¬ Unnoticed edits := by
  rw [verify_ok_iff] at hok
  rw [← Bool.not_eq_true, verify_ok_iff, unnoticed_iff, ← links_after, not_iff_not]
  have hbefore : (edits.map Edit.links).map Prod.fst = (edits.map Edit.before).map link := by
    rw [List.map_map, List.map_map]
    rfl
  have hkeep : ∀ x ∈ edits.map Edit.links, ∀ l, x.2 = some l →
      l.hash = x.1.hash ∨ l.hash ≠ computeHash sum l.body l.prev := by
    intro x hx l hl
    obtain ⟨e, -, rfl⟩ := List.mem_map.1 hx
    obtain ⟨r, hr, rfl⟩ := Option.map_eq_some_iff.1 hl
    exact e.hash r hr
  have hinj : ∀ a p b q, computeHash sum a p = computeHash sum b q → a.Same b ∧ p = q :=
    fun _ _ _ _ h => computeHash_inj hsum h
  rw [← hbefore] at hok
  exact survivors_iff hinj (fun _ _ => hne _) (fun _ _ p h => h.computeHash_eq sum p) hok hkeep

end

/-- the outcome of the login turned around -/
def turned : Edit tagged where
  before := row tagged 1 loginId login ""
  after := some { row tagged 1 loginId login "" with outcome := "failure" }
  seq := by
    intro r hr
    rw [← Option.some.inj hr]
  hash := by
    intro r hr
    left
    rw [← Option.some.inj hr]

theorem turned_detected :
    (verify tagged [row tagged 1 loginId login ""]).ok = true ∧
      (verify tagged [{ row tagged 1 loginId login "" with outcome := "failure" }]).ok = false := by
  refine ⟨verify_first 1 login_unaltered,
    (tampering_detected_iff tagged_injective tagged_ne [turned] (verify_first 1 login_unaltered)).2 ?_⟩
  intro ⟨kept, lost, hedits, hkept, hlost⟩
  have hmem : turned ∈ kept ++ lost := by simp [← hedits]
  rcases List.mem_append.1 hmem with hin | hin
  · obtain ⟨r, hr, hsame⟩ := hkept turned hin
    have houtcome := hsame.outcome
    rw [← Option.some.inj hr] at houtcome
    revert houtcome
    decide
  · cases hlost turned hin

/-- the rows deleted from the end of a log are not missed, be it all of them -/
theorem emptied_log :
    Function.Injective tagged ∧ (∀ text, tagged text ≠ "") ∧
      ∃ edits : List (Edit tagged),
        edits.map Edit.before = (run (consume tagged some) Store.empty [(login, ⟨true, 0⟩)]).rows ∧
        (verify tagged (edits.map Edit.before)).ok = true ∧ (∃ e ∈ edits, e.after = none) ∧
        verify tagged (edits.filterMap Edit.after) = ⟨true, 0, 0, ""⟩ := by
  have hedit : ∀ r, (none : Option Row) = some r → False := by
    intro r hr
    cases hr
  refine ⟨tagged_injective, tagged_ne, [⟨row tagged 1 loginId login "", none, fun r hr => (hedit r hr).elim,
    fun r hr => (hedit r hr).elim⟩], ?_, verify_first 1 login_unaltered, ⟨_, List.mem_singleton_self _, rfl⟩, rfl⟩
  rw [first_row (by decide) loginId_eq]
  rfl

end Concordia.Audit
