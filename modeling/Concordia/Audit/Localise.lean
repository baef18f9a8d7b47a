/-
Where verification of a changed audit log stops (services/audit/store.go `verify`), with manual changes as in
`Concordia.Audit.Commitment`: rows deleted, or columns updated, no hash recomputed.

- `verifyFrom_append`: rows that form a chain are passed over and counted.
- `verify_breaks`: verify stops at the first row that does not go on with the chain, and why.
- `located`: changes that are noticed at all are reported at the first row that is left at or behind the first of them,
  whatever else was changed further on.
-/
import Concordia.Audit.Commitment

namespace Concordia.Audit

open Lib Lib.HashChain

/-- why a row does not go on with a chain of head `p` -/
def breakReason (p : String) (r : Row) : String :=
  if r.prevHash.getD "" = p then "recomputed hash does not match stored hash (event was modified)"
  else "prev_hash does not match the preceding event"

/-! ## The row at which verify stops -/

theorem verifyFrom_append {sum : List Char → String} {p : String} {A : List Row}
    (hA : HashLinked (computeHash sum) p (A.map link)) (n : ℕ) (B : List Row) :
    verifyFrom sum p n (A ++ B) = verifyFrom sum (head p (A.map link)) (n + A.length) B := by
  induction A generalizing p n with
  | nil => rfl
  | cons r A ih =>
    obtain ⟨hprev, hhash, hrest⟩ := hA
    have hprev : (scanRow r).prevHash = p := hprev
    have hhash : computeHash sum (scanRow r).event (scanRow r).prevHash = (scanRow r).hash := hhash.symm
    rw [List.cons_append, verifyFrom]
    simp only [ne_eq, hprev, not_true_eq_false, if_false]
    rw [hprev] at hhash
    rw [if_neg (not_not.2 hhash)]
    calc verifyFrom sum (scanRow r).hash (n + 1) (A ++ B)
        = verifyFrom sum (head (scanRow r).hash (A.map link)) (n + 1 + A.length) B := ih hrest (n + 1)
      _ = verifyFrom sum (head p ((r :: A).map link)) (n + (r :: A).length) B := by
          rw [List.length_cons, Nat.add_right_comm, Nat.add_assoc]
          rfl

/-- **Verify stops at the first row that does not go on with the chain.** -/
theorem verify_breaks {sum : List Char → String} {A : List Row} {r : Row} (B : List Row)
    (hA : HashLinked (computeHash sum) "" (A.map link))
    (hr : ¬ ((link r).prev = head "" (A.map link) ∧ (link r).hash = computeHash sum (link r).body (link r).prev)) :
    verify sum (A ++ r :: B) = ⟨false, A.length + 1, r.seq, breakReason (head "" (A.map link)) r⟩ := by
  rw [verify, verifyFrom_append hA, Nat.zero_add, verifyFrom]
  have hlink : (link r).prev = (scanRow r).prevHash := rfl
  have hcolumn : (scanRow r).prevHash = r.prevHash.getD "" := rfl
  by_cases hprev : (scanRow r).prevHash = head "" (A.map link)
  · -- then it is the hash that is not the row's own
    have hhash : computeHash sum (scanRow r).event (scanRow r).prevHash ≠ (scanRow r).hash := by
      intro h
      exact hr ⟨hprev, h.symm⟩
    simp only [ne_eq, hprev, not_true_eq_false, if_false]
    rw [hprev] at hhash
    rw [if_pos hhash, breakReason, if_pos (hcolumn ▸ hprev)]
    rfl
  · simp only [ne_eq, hprev, not_false_eq_true, if_true]
    rw [breakReason, if_neg (hcolumn ▸ hprev)]
    rfl

/-! ## The first change -/

variable {sum : List Char → String}

/-- the first change: the rows in front of it are as they were, those in `gone` are deleted, and `e` is the first row left
behind these -/
structure FirstChange (edits kept gone : List (Edit sum)) (e : Edit sum) (r : Row) : Prop where
  split : ∃ rest, edits = kept ++ gone ++ e :: rest
  same : ∀ k ∈ kept, ∃ row, k.after = some row ∧ SameColumns k.before row
  deleted : ∀ k ∈ gone, k.after = none
  left : e.after = some r
  change : gone ≠ [] ∨ ¬ SameColumns e.before r

/-- the deleted rows in front, and what is left behind them -/
theorem exists_left (edits : List (Edit sum)) :
    ∃ gone rest, edits = gone ++ rest ∧ (∀ k ∈ gone, k.after = none) ∧
      ∀ e es, rest = e :: es → ∃ r, e.after = some r := by
  induction edits with
  | nil => exact ⟨[], [], rfl, List.forall_mem_nil _, by simp⟩
  | cons e edits ih =>
    cases hafter : e.after with
    | some r =>
      refine ⟨[], e :: edits, rfl, List.forall_mem_nil _, ?_⟩
      intro e' es h
      obtain ⟨rfl, -⟩ := List.cons.inj h
      exact ⟨r, hafter⟩
    | none =>
      obtain ⟨gone, rest, rfl, hgone, hleft⟩ := ih
      exact ⟨e :: gone, rest, rfl, List.forall_mem_cons.2 ⟨hafter, hgone⟩, hleft⟩

/-- changes that are not of the unnoticed kind have a first one -/
theorem exists_firstChange {edits : List (Edit sum)} (h : ¬ Unnoticed edits) :
    ∃ kept gone e r, FirstChange edits kept gone e r := by
  induction edits with
  | nil => exact absurd ⟨[], [], rfl, List.forall_mem_nil _, List.forall_mem_nil _⟩ h
  | cons e edits ih =>
    by_cases hsame : ∃ r, e.after = some r ∧ SameColumns e.before r
    · -- the row is as it was: the first change is further on
      have hrest : ¬ Unnoticed edits := by
        intro ⟨kept, lost, hedits, hkept, hlost⟩
        exact h ⟨e :: kept, lost, by rw [hedits]; rfl, List.forall_mem_cons.2 ⟨hsame, hkept⟩, hlost⟩
      obtain ⟨kept, gone, e', r, ⟨rest, hsplit⟩, hkept, hgone, hleft, hchange⟩ := ih hrest
      exact ⟨e :: kept, gone, e', r, ⟨rest, by rw [hsplit]; rfl⟩, List.forall_mem_cons.2 ⟨hsame, hkept⟩, hgone, hleft,
        hchange⟩
    · obtain ⟨gone, rest, hedits, hgone, hleft⟩ := exists_left (e :: edits)
      cases rest with
      | nil => exact absurd ⟨[], gone, by simpa using hedits, List.forall_mem_nil _, hgone⟩ h
      | cons e' rest =>
        obtain ⟨r, hr⟩ := hleft e' rest rfl
        refine ⟨[], gone, e', r, ⟨rest, hedits⟩, List.forall_mem_nil _, hgone, hr, ?_⟩
        by_contra hno
        obtain ⟨hnil, hcolumns⟩ := not_or.1 hno
        obtain rfl := not_not.1 hnil
        rw [List.nil_append] at hedits
        obtain ⟨rfl, -⟩ := List.cons.inj hedits
        exact hsame ⟨r, hr, not_not.1 hcolumns⟩

/-- rows that are as they were, as links -/
theorem kept_agree {kept : List (Edit sum)} (h : ∀ k ∈ kept, ∃ row, k.after = some row ∧ SameColumns k.before row) :
    List.Forall₂ (Agree Event.Same) ((kept.map Edit.before).map link) ((kept.filterMap Edit.after).map link) := by
  induction kept with
  | nil => exact .nil
  | cons k kept ih =>
    obtain ⟨⟨row, hrow, hsame⟩, hrest⟩ := List.forall_mem_cons.1 h
    rw [List.filterMap_cons, hrow]
    exact .cons (agree_link.2 (sameReading_iff.2 hsame)) (ih hrest)

/-- the hash of the last row that is as it was -/
def lastKept (kept : List (Edit sum)) : String := head "" ((kept.map Edit.before).map link)

theorem head_agree {A C : List (Link Event String)} (h : List.Forall₂ (Agree Event.Same) A C) : head "" A = head "" C := by
  apply head_congr
  induction h with
  | nil => rfl
  | cons hac _ ih => rw [List.map_cons, List.map_cons, hac.2.2, ih]

theorem linked_kept {kept : List (Edit sum)} (h : ∀ k ∈ kept, ∃ row, k.after = some row ∧ SameColumns k.before row)
    (hok : HashLinked (computeHash sum) "" ((kept.map Edit.before).map link)) :
    HashLinked (computeHash sum) "" ((kept.filterMap Edit.after).map link) :=
  linked_of_agree (fun _ _ p h => h.computeHash_eq sum p) (kept_agree h) hok

theorem length_kept {kept : List (Edit sum)} (h : ∀ k ∈ kept, ∃ row, k.after = some row ∧ SameColumns k.before row) :
    (kept.filterMap Edit.after).length = kept.length := by
  have hlen := (kept_agree h).length_eq
  simpa using hlen.symm

/-- changes of the unnoticed kind leave a chain, with the rows that are left counted -/
theorem Unnoticed.verify_eq {edits : List (Edit sum)} (h : Unnoticed edits)
    (hok : HashLinked (computeHash sum) "" ((edits.map Edit.before).map link)) :
    verify sum (edits.filterMap Edit.after) = ⟨true, (edits.filterMap Edit.after).length, 0, ""⟩ := by
  obtain ⟨kept, lost, rfl, hkept, hlost⟩ := h
  rw [List.map_append, List.map_append, linked_append] at hok
  rw [verify_eq_ok, List.filterMap_append, List.filterMap_eq_nil_iff.2 hlost, List.append_nil]
  exact linked_kept hkept hok.1

section

variable (hsum : Function.Injective sum) (hne : ∀ text, sum text ≠ "")

include hsum hne

theorem FirstChange.verify_eq {edits kept gone : List (Edit sum)} {e : Edit sum} {r : Row}
    (h : FirstChange edits kept gone e r) (hok : HashLinked (computeHash sum) "" ((edits.map Edit.before).map link)) :
    verify sum (edits.filterMap Edit.after) =
      ⟨false, kept.length + 1, e.before.seq, breakReason (lastKept kept) r⟩ := by
  obtain ⟨⟨rest, rfl⟩, hkept, hgone, hleft, hchange⟩ := h
  have hhead := head_agree (kept_agree hkept)
  simp only [List.map_append, List.map_cons] at hok
  have hchain : HashLinked (computeHash sum) "" ((kept.filterMap Edit.after).map link) := by
    rw [List.append_assoc, linked_append] at hok
    exact linked_kept hkept hok.1
  have hafter : (kept ++ gone ++ e :: rest).filterMap Edit.after =
      kept.filterMap Edit.after ++ r :: rest.filterMap Edit.after := by
    rw [List.filterMap_append, List.filterMap_append, List.filterMap_eq_nil_iff.2 hgone, List.append_nil,
      List.filterMap_cons, hleft]
  have hbreak : ¬ ((link r).prev = head "" ((kept.filterMap Edit.after).map link) ∧
      (link r).hash = computeHash sum (link r).body (link r).prev) := by
    intro ⟨hprev, hhash⟩
    -- no hash was recomputed, so the row would have the hash it had
    have hkeep : (link r).hash = (link e.before).hash := by
      rcases e.hash r hleft with heq | hne
      · exact heq
      · exact absurd hhash hne
    obtain ⟨hlost, hsame⟩ := goes_on (R := Event.Same) (fun _ _ _ _ h => computeHash_inj hsum h) (fun _ _ => hne _) hok
      hkeep (by rw [hprev, hhead]) hhash
    rcases hchange with hgap | hdiff
    · exact hgap (List.map_eq_nil_iff.1 (List.map_eq_nil_iff.1 hlost))
    · exact hdiff (sameReading_iff.1 (agree_link.1 hsame))
  rw [hafter, verify_breaks _ hchain hbreak, length_kept hkept, ← hhead, e.seq r hleft]
  rfl

/-- **Localisation.** Manual changes of a log that verifies are either of the unnoticed kind, or verify reports the first
row that is left at or behind the first of them, with the number of rows it has read. -/
theorem located (edits : List (Edit sum)) (hok : (verify sum (edits.map Edit.before)).ok = true) :
    (Unnoticed edits ∧ verify sum (edits.filterMap Edit.after) = ⟨true, (edits.filterMap Edit.after).length, 0, ""⟩) ∨
      ∃ kept gone e r, FirstChange edits kept gone e r ∧ verify sum (edits.filterMap Edit.after) =
        ⟨false, kept.length + 1, e.before.seq, breakReason (lastKept kept) r⟩ := by
  rw [verify_ok_iff] at hok
  by_cases hquiet : Unnoticed edits
  · exact .inl ⟨hquiet, hquiet.verify_eq hok⟩
  · obtain ⟨kept, gone, e, r, h⟩ := exists_firstChange hquiet
    exact .inr ⟨kept, gone, e, r, h, h.verify_eq hsum hne hok⟩

end

/-! ## The first of two rows deleted -/

def logout : Event := { login with eventId := "1a1b2c3d-4e5f-4a6b-8c7d-9e0f1a2b3c4d", eventType := "auth.logout" }

def logoutId : Uuid := (uuidIn logout.eventId).get (by decide)

theorem logout_unaltered : Unaltered logout logoutId := by
  have hid : uuidIn logout.eventId = some logoutId := (Option.some_get _).symm
  have hkept : (uuidIn logout.eventId).map uuidOut = some logout.eventId := by decide
  rw [hid] at hkept
  exact ⟨Option.some.inj hkept, login_unaltered.2⟩

def loginRow : Row := row tagged 1 loginId login ""

def logoutRow : Row := row tagged 2 logoutId logout loginRow.hash

theorem verify_both : (verify tagged [loginRow, logoutRow]).ok = true := by
  rw [verify_ok_iff]
  have hlogin := (recomputed_iff tagged_injective 1 loginId login "").2 login_unaltered
  have hlogout := (recomputed_iff tagged_injective 2 logoutId logout loginRow.hash).2 logout_unaltered
  have hprev : (link logoutRow).prev = loginRow.hash := scanRow_prevHash tagged 2 logoutId logout loginRow.hash
  refine ⟨scanRow_prevHash tagged 1 loginId login "", hlogin, hprev, ?_, trivial⟩
  rw [hprev]
  exact hlogout

def removed : Edit tagged where
  before := loginRow
  after := none
  seq := by
    intro r hr
    cases hr
  hash := by
    intro r hr
    cases hr

def untouched : Edit tagged where
  before := logoutRow
  after := some logoutRow
  seq := by
    intro r hr
    rw [← Option.some.inj hr]
  hash := by
    intro r hr
    left
    rw [← Option.some.inj hr]

theorem removed_located :
    verify tagged [logoutRow] = ⟨false, 1, 2, "prev_hash does not match the preceding event"⟩ := by
  have hkept : ∀ {kept rest : List (Edit tagged)}, [removed, untouched] = kept ++ rest →
      (∀ k ∈ kept, ∃ row, k.after = some row ∧ SameColumns k.before row) → kept = [] := by
    intro kept rest hsplit hsame
    cases kept with
    | nil => rfl
    | cons k kept =>
      obtain ⟨rfl, -⟩ := List.cons.inj hsplit
      obtain ⟨row, hrow, -⟩ := hsame removed (by simp)
      cases hrow
  rcases located tagged_injective tagged_ne [removed, untouched] verify_both with ⟨hquiet, -⟩ | ⟨kept, gone, e, r, h, hverify⟩
  · obtain ⟨kept, lost, hsplit, hsame, hlost⟩ := hquiet
    rw [hkept hsplit hsame, List.nil_append] at hsplit
    cases hlost untouched (by simp [← hsplit])
  · obtain ⟨⟨rest, hsplit⟩, hsame, hdeleted, hleft, -⟩ := h
    obtain rfl := hkept (by rw [hsplit, List.append_assoc]) hsame
    have he : e = untouched := by
      have hmem : e ∈ [removed, untouched] := by simp [hsplit]
      rcases List.mem_pair.1 hmem with rfl | rfl
      · cases hleft
      · rfl
    obtain rfl : logoutRow = r := by
      rw [he] at hleft
      exact Option.some.inj hleft
    rw [he] at hverify
    refine hverify.trans ?_
    rw [breakReason, if_neg]
    · rfl
    · intro hprev
      have hfirst : loginRow.hash = "" := (scanRow_prevHash tagged 2 logoutId logout loginRow.hash).symm.trans hprev
      exact tagged_ne _ hfirst

end Concordia.Audit
