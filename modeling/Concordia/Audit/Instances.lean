/-
Any number of audit services over one database (services/audit/store.go `seed`, `append`; consumer.go `run`).

Each service keeps the head of the chain in memory: `seed` loads it once, at the start, and an INSERT that is
acknowledged moves it on. The partition may be given to any service at any time; a service that owns it reads a payload
and sends its INSERT; the database carries the INSERT out, or not, at any later time, also after the service has been
told of an error, has lost the partition or has stopped.

- `step_points`: whatever happens, the head that a service keeps is the head the table had at some time.
- `linear_iff`: the rows form one linear chain exactly when no INSERT is carried out after another row was stored since
  the service that sent it last loaded its head, at its start or with an acknowledgement.
- `committed_but_failed`: an INSERT that is carried out and reported as an error makes the next one fork the chain.
- `linear_no_break`: on a linear chain verify never finds a previous hash that does not match.
-/
import Concordia.Audit.Commitment

namespace Concordia.Audit.Instances

open Lib Lib.HashChain

/-! ## Model -/

/-- an INSERT that was sent; `seen` is the number of rows up to the one whose hash is `prev` -/
structure Insert where
  event : Event
  prev : String
  seen : ℕ
  /-- none as long as the database has not dealt with it, then the number of rows up to the new one, if it is stored -/
  result : Option (Option ℕ)

/-- a service process: the head it keeps, how many rows lead up to it, and the INSERT it is waiting for -/
inductive Process where
  | down
  | idle (lastHash : String) (seen : ℕ)
  | appending (lastHash : String) (seen : ℕ) (insert : ℕ)

structure State where
  rows : List Row
  nextSeq : ℕ
  inserts : List Insert
  owner : Option ℕ
  process : ℕ → Process

def State.init : State := ⟨[], 1, [], none, fun _ => .down⟩

inductive Op (π : Type*) where
  /-- the service starts and seeds -/
  | start (i : ℕ)
  | stop (i : ℕ)
  /-- the partition is given to a service, or to none -/
  | assign (owner : Option ℕ)
  /-- the service reads a payload and sends its INSERT -/
  | read (i : ℕ) (payload : π)
  /-- the database deals with the INSERT -/
  | execute (insert : ℕ) (answer : Answer)
  /-- the service is told of the outcome, an error whatever became of the INSERT -/
  | reply (i : ℕ) (ok : Bool)

/-- `seed`: the hash of the row with the greatest `seq` -/
def seed (rows : List Row) : String := match rows.getLast? with
  | some r => r.hash
  | none => ""

/-- the INSERT that the database carries out, and the id of the row -/
def executes (s : State) (k : ℕ) (answer : Answer) : Option (Insert × Uuid) :=
  match s.inserts[k]? with
  | some ins => if ins.result = none ∧ answer.accepted then (insertable s.rows ins.event).map fun id => (ins, id) else none
  | none => none

variable {π : Type*} (sum : List Char → String) (unmarshal : π → Option Event)

def step (s : State) : Op π → State
  | .start i => match s.process i with
    | .down => { s with process := Function.update s.process i (.idle (seed s.rows) s.rows.length) }
    | _ => s
  | .stop i => { s with process := Function.update s.process i .down }
  | .assign owner => { s with owner := owner }
  | .read i payload => match s.process i, unmarshal payload with
    | .idle lastHash seen, some ev =>
      if s.owner = some i ∧ validEvent ev then
        { s with inserts := s.inserts ++ [⟨ev, lastHash, seen, none⟩],
                 process := Function.update s.process i (.appending lastHash seen s.inserts.length) }
      else s
    | _, _ => s
  | .execute k answer =>
    let seq := s.nextSeq + answer.skipped
    match executes s k answer with
    | some (ins, id) =>
      { s with rows := s.rows ++ [row sum seq id ins.event ins.prev], nextSeq := seq + 1,
               inserts := s.inserts.set k { ins with result := some (some (s.rows.length + 1)) } }
    | none => match s.inserts[k]? with
      | some ins =>
        if ins.result = none then { s with nextSeq := seq, inserts := s.inserts.set k { ins with result := some none } }
        else s
      | none => s
  | .reply i ok => match s.process i with
    | .appending lastHash seen k => match ok, s.inserts[k]? with
      | false, _ => { s with process := Function.update s.process i (.idle lastHash seen) }
      | true, some ⟨ev, prev, _, some (some n)⟩ =>
        { s with process := Function.update s.process i (.idle (computeHash sum ev prev) n) }
      | true, _ => s
    | _ => s

/-- each row names the hash of the row before it, the first one none -/
def Linear (rows : List Row) : Prop := Chained "" (rows.map link)

/-- an INSERT that is carried out was made for the last row -/
def Fresh (s : State) : Op π → Prop
  | .execute k answer => match executes s k answer with
    | some (ins, _) => ins.seen = s.rows.length
    | none => True
  | _ => True

/-! ## Heads in memory are heads that the table had -/

/-- `hash` is the head of the first `n` rows -/
def Points (rows : List Row) (hash : String) (n : ℕ) : Prop :=
  n ≤ rows.length ∧ hash = head "" ((rows.take n).map link)

theorem Points.snoc {rows : List Row} {hash : String} {n : ℕ} (h : Points rows hash n) (r : Row) :
    Points (rows ++ [r]) hash n := by
  refine ⟨h.1.trans (by simp), ?_⟩
  rw [List.take_append_of_le_length h.1]
  exact h.2

theorem points_last (rows : List Row) (r : Row) : Points (rows ++ [r]) r.hash (rows.length + 1) := by
  refine ⟨by simp, ?_⟩
  rw [List.take_of_length_le (by simp), List.map_append, List.map_singleton, head_snoc]
  rfl

theorem points_seed (rows : List Row) : Points rows (seed rows) rows.length := by
  refine ⟨le_rfl, ?_⟩
  rw [List.take_length, seed]
  rcases List.eq_nil_or_concat' rows with rfl | ⟨init, r, rfl⟩
  · rfl
  · rw [List.getLast?_concat, List.map_append, List.map_singleton, head_snoc]
    rfl

/-- the head a process keeps -/
def Process.Holds (rows : List Row) : Process → Prop
  | .down => True
  | .idle lastHash seen => Points rows lastHash seen
  | .appending lastHash seen _ => Points rows lastHash seen

structure Insert.Holds (rows : List Row) (ins : Insert) : Prop where
  prev : Points rows ins.prev ins.seen
  result : ∀ n, ins.result = some (some n) → Points rows (computeHash sum ins.event ins.prev) n

/-- every head in memory and in an INSERT is one that the table had; every hash was computed from some event -/
structure Inv (s : State) : Prop where
  hashed : ∀ r ∈ s.rows, ∃ ev, r.hash = computeHash sum ev (scanRow r).prevHash
  process : ∀ i, (s.process i).Holds s.rows
  inserts : ∀ ins ∈ s.inserts, ins.Holds sum s.rows

theorem Process.Holds.snoc {rows : List Row} {p : Process} (h : p.Holds rows) (r : Row) : p.Holds (rows ++ [r]) := by
  cases p with
  | down => trivial
  | idle lastHash seen => exact Points.snoc h r
  | appending lastHash seen k => exact Points.snoc h r

theorem Insert.Holds.snoc {rows : List Row} {ins : Insert} (h : ins.Holds sum rows) (r : Row) :
    ins.Holds sum (rows ++ [r]) :=
  ⟨h.prev.snoc r, fun n hn => (h.result n hn).snoc r⟩

theorem Inv.update {s : State} (h : Inv sum s) (i : ℕ) {p : Process} (hp : p.Holds s.rows) :
    Inv sum { s with process := Function.update s.process i p } := by
  refine ⟨h.hashed, ?_, h.inserts⟩
  intro j
  by_cases hj : j = i
  · rw [hj]
    simpa using hp
  · simpa [hj] using h.process j

theorem init_inv : Inv sum State.init :=
  ⟨by simp [State.init], fun _ => trivial, by simp [State.init]⟩

theorem executes_some {s : State} {k : ℕ} {answer : Answer} {ins : Insert} {id : Uuid}
    (h : executes s k answer = some (ins, id)) : s.inserts[k]? = some ins ∧ ins.result = none := by
  unfold executes at h
  split at h
  · next i hi =>
    split_ifs at h with hres
    obtain ⟨j, -, hj⟩ := Option.map_eq_some_iff.1 h
    obtain ⟨rfl, -⟩ := Prod.mk.inj hj
    exact ⟨hi, hres.1⟩
  · cases h

theorem set_holds {rows : List Row} {inserts : List Insert} (h : ∀ ins ∈ inserts, ins.Holds sum rows) (k : ℕ)
    {ins : Insert} (hins : ins.Holds sum rows) : ∀ x ∈ inserts.set k ins, x.Holds sum rows := by
  intro x hx
  rcases List.mem_or_eq_of_mem_set hx with hx | rfl
  · exact h x hx
  · exact hins

/-- **Heads.** Whatever happens, every head in memory is one that the table had. -/
theorem step_points (s : State) (op : Op π) (h : Inv sum s) : Inv sum (step sum unmarshal s op) := by
  cases op with
  | start i =>
    simp only [step]
    split
    · exact h.update sum i (points_seed s.rows)
    · exact h
  | stop i => exact h.update sum i trivial
  | assign owner => exact ⟨h.hashed, h.process, h.inserts⟩
  | read i payload =>
    simp only [step]
    split
    · next lastHash seen ev hp _ =>
      split_ifs
      · have hpoints : Points s.rows lastHash seen := by
          have hi := h.process i
          rw [hp] at hi
          exact hi
        have hnew : Inv sum { s with inserts := s.inserts ++ [⟨ev, lastHash, seen, none⟩] } := by
          refine ⟨h.hashed, h.process, ?_⟩
          intro ins hins
          rcases List.mem_append.1 hins with hins | hins
          · exact h.inserts ins hins
          · rw [List.mem_singleton.1 hins]
            exact ⟨hpoints, fun n hn => by cases hn⟩
        exact hnew.update sum i hpoints
      · exact h
    · exact h
  | execute k answer =>
    simp only [step]
    split
    · next ins id hexec =>
      -- the new row: what it points to was a head, and its own hash is the new one
      obtain ⟨hget, -⟩ := executes_some hexec
      have hins := h.inserts ins (List.mem_of_getElem? hget)
      refine ⟨?_, fun i => (h.process i).snoc _, ?_⟩
      · intro r hr
        rcases List.mem_append.1 hr with hr | hr
        · exact h.hashed r hr
        · rw [List.mem_singleton.1 hr, scanRow_prevHash]
          exact ⟨ins.event, rfl⟩
      · refine set_holds sum (fun x hx => (h.inserts x hx).snoc sum _) k ⟨hins.prev.snoc _, ?_⟩
        intro n hn
        obtain rfl := Option.some.inj (Option.some.inj hn)
        exact points_last s.rows _
    · split
      · next ins hget =>
        split_ifs
        · have hins := h.inserts ins (List.mem_of_getElem? hget)
          exact ⟨h.hashed, h.process, set_holds sum h.inserts k ⟨hins.prev, fun n hn => by cases hn⟩⟩
        · exact h
      · exact h
  | reply i ok =>
    simp only [step]
    split
    · next lastHash seen k hp =>
      have hpoints : Points s.rows lastHash seen := by
        have hi := h.process i
        rw [hp] at hi
        exact hi
      split
      · exact h.update sum i hpoints
      · next ev prev seen' n hget =>
        exact h.update sum i ((h.inserts _ (List.mem_of_getElem? hget)).result n rfl)
      · exact h
    · exact h

/-! ## The chain stays linear -/

/-- a step stores the row of an INSERT, or none -/
theorem step_rows (s : State) (op : Op π) :
    (Fresh s op ∧ (step sum unmarshal s op).rows = s.rows) ∨
    ∃ k answer ins id seq, op = .execute k answer ∧ executes s k answer = some (ins, id) ∧
      (step sum unmarshal s op).rows = s.rows ++ [row sum seq id ins.event ins.prev] := by
  cases op with
  | start i =>
    left
    simp only [step, Fresh, true_and]
    split <;> rfl
  | stop i => exact .inl ⟨trivial, rfl⟩
  | assign owner => exact .inl ⟨trivial, rfl⟩
  | read i payload =>
    left
    simp only [step, Fresh, true_and]
    split
    · split_ifs <;> rfl
    · rfl
  | execute k answer =>
    cases hexec : executes s k answer with
    | none =>
      left
      simp only [step, Fresh, hexec, true_and]
      split
      · split_ifs <;> rfl
      · rfl
    | some x =>
      right
      refine ⟨k, answer, x.1, x.2, s.nextSeq + answer.skipped, rfl, hexec, ?_⟩
      simp only [step, hexec]
  | reply i ok =>
    left
    simp only [step, Fresh, true_and]
    split
    · split <;> rfl
    · rfl

section

variable {sum} (hsum : Function.Injective sum) (hne : ∀ text, sum text ≠ "")

include hsum hne

/-- one step keeps the chain linear exactly when what it stores was made for the last row -/
theorem step_linear {s : State} (h : Inv sum s) (op : Op π) :
    Linear (step sum unmarshal s op).rows ↔ Linear s.rows ∧ Fresh s op := by
  rcases step_rows sum unmarshal s op with ⟨hfresh, hrows⟩ | ⟨k, answer, ins, id, seq, rfl, hexec, hrows⟩
  · rw [hrows]
    exact (and_iff_left hfresh).symm
  · obtain ⟨hget, -⟩ := executes_some hexec
    obtain ⟨hle, hprev⟩ := (h.inserts ins (List.mem_of_getElem? hget)).prev
    have hlink : (link (row sum seq id ins.event ins.prev)).prev = ins.prev := scanRow_prevHash sum seq id _ _
    rw [hrows, Linear, List.map_append, List.map_singleton, chained_snoc, hlink]
    apply and_congr_right
    intro hlinear
    simp only [Fresh, hexec]
    refine ⟨?_, ?_⟩
    · intro hhead
      -- equal heads of a linear chain are heads of equally many rows
      have hinj : ∀ a p b q, computeHash sum a p = computeHash sum b q → Event.Same a b ∧ p = q :=
        fun _ _ _ _ h => computeHash_inj hsum h
      have hhashed : ∀ l ∈ s.rows.map link, ∃ ev, l.hash = computeHash sum ev l.prev := by
        intro l hl
        obtain ⟨r, hr, rfl⟩ := List.mem_map.1 hl
        exact h.hashed r hr
      refine chained_take_eq hinj (fun _ _ => hne _) hlinear hhashed (by simpa using hle) (by simp) ?_
      rw [← List.map_take, ← List.map_take, List.take_length, ← hprev, hhead]
    · intro hseen
      rw [hprev, hseen, List.take_length]

/-- **Linear chain.** The rows form one linear chain exactly when every INSERT that was carried out was made for the
last row. -/
theorem linear_iff (ops : List (Op π)) :
    Linear (run (step sum unmarshal) State.init ops).rows ↔ Along (step sum unmarshal) Fresh State.init ops := by
  induction ops using List.reverseRecOn with
  | nil => simp [Linear, State.init, Chained, Along]
  | append_singleton ops op ih =>
    have hinv : Inv sum (run (step sum unmarshal) State.init ops) :=
      run_inv' (step_points sum unmarshal) (init_inv sum) ops
    rw [run_snoc, step_linear unmarshal hsum hne hinv op, along_append, ih]
    simp only [Along, and_true]

end

theorem linear_no_break_from {p : String} {n : ℕ} {rows : List Row} (h : Chained p (rows.map link)) :
    (verifyFrom sum p n rows).reason ≠ "prev_hash does not match the preceding event" := by
  induction rows generalizing p n with
  | nil =>
    exact (by decide : "" ≠ "prev_hash does not match the preceding event")
  | cons r rows ih =>
    have hprev : (scanRow r).prevHash = p := h.1
    simp only [verifyFrom]
    rw [if_neg (not_not.2 hprev)]
    split_ifs with hhash
    · exact (by decide : "recomputed hash does not match stored hash (event was modified)" ≠
        "prev_hash does not match the preceding event")
    · exact ih h.2

/-- on a linear chain verify never finds a previous hash that does not match -/
theorem linear_no_break {rows : List Row} (h : Linear rows) :
    (verify sum rows).reason ≠ "prev_hash does not match the preceding event" :=
  linear_no_break_from sum h

/-! ## Two events -/

def logout : Event := { login with eventId := "1b2c3d4e-5f60-4b7c-9d8e-0f1a2b3c4d5e", eventType := "auth.logout" }

def logoutId : Uuid := (uuidIn logout.eventId).get (by decide)

/-- one service at work: the login is stored and acknowledged, then the logout -/
def acknowledged : List (Op Event) :=
  [.assign (some 0), .start 0, .read 0 login, .execute 0 ⟨true, 0⟩, .reply 0 true, .read 0 logout, .execute 1 ⟨true, 0⟩,
    .reply 0 true]

theorem acknowledged_linear :
    Linear (run (step tagged some) State.init acknowledged).rows ∧
      (run (step tagged some) State.init acknowledged).rows.length = 2 := by
  refine ⟨(linear_iff some tagged_injective tagged_ne acknowledged).2 ?_, rfl⟩
  exact ⟨trivial, trivial, trivial, rfl, trivial, trivial, rfl, trivial, trivial⟩

/-- the login is stored, but the service is told of an error and goes on from the head it had -/
def failed : List (Op Event) :=
  [.assign (some 0), .start 0, .read 0 login, .execute 0 ⟨true, 0⟩, .reply 0 false, .read 0 logout, .execute 1 ⟨true, 0⟩]

theorem committed_but_failed :
    Function.Injective tagged ∧ (∀ text, tagged text ≠ "") ∧
      ¬ Linear (run (step tagged some) State.init failed).rows ∧
      verify tagged (run (step tagged some) State.init failed).rows =
        ⟨false, 2, 2, "prev_hash does not match the preceding event"⟩ := by
  have hrows : (run (step tagged some) State.init failed).rows =
      [row tagged 1 loginId login "", row tagged 2 logoutId logout ""] := rfl
  have hfork : (scanRow (row tagged 2 logoutId logout "")).prevHash ≠ (scanRow (row tagged 1 loginId login "")).hash :=
    (tagged_ne _).symm
  have hfirst : computeHash tagged (scanRow (row tagged 1 loginId login "")).event
      (scanRow (row tagged 1 loginId login "")).prevHash = (scanRow (row tagged 1 loginId login "")).hash :=
    ((recomputed_iff tagged_injective 1 loginId login "").2 login_unaltered).symm
  rw [hrows]
  refine ⟨tagged_injective, tagged_ne, fun h => hfork h.2.1, ?_⟩
  rw [verify, verifyFrom]
  rw [if_neg (not_not.2 (scanRow_prevHash tagged 1 loginId login "")), if_neg (not_not.2 hfirst), verifyFrom]
  exact if_pos hfork

end Concordia.Audit.Instances
