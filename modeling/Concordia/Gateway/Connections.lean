/-
What every reached state of the gateway's processes satisfies, with crashes, restarts and the wrap of the counter.

- `Numbering`: the connections of a process are numbered from 1, each number used once, and the number is in the id.
- `Tables`: what a connection table has is held by that process under that id.
- `Deliveries`: an event is written only to connections that its push lists, and not more often than they are listed.
-/
import Concordia.Gateway.Backplane
import Concordia.Lib.Rows

namespace Concordia.Gateway.Backplane

open Concordia.Lib
open Function (update update_self update_of_ne)

/-! ## Numbering -/

/-- what a process keeps whatever happens to its connections -/
def Process.key (P : Process) : String × ℕ := (P.instanceID, P.seq)

/-- what a connection keeps for good -/
def Conn.key (x : Conn) : ℕ × ℕ × String := (x.process, x.nth, x.id)

/-- the connections of a process are numbered from 1 to `seq`, each number used once -/
structure Numbering (s : St) : Prop where
  fresh : ∀ c, s.opened ≤ c → s.conns c = none
  numbered : ∀ c x, s.conns c = some x → ∃ P, s.processes x.process = some P ∧ 1 ≤ x.nth ∧ x.nth ≤ P.seq ∧
    x.id = connID P.instanceID (x.nth % 2 ^ 64)
  apart : ∀ c c' x x', s.conns c = some x → s.conns c' = some x' → x.process = x'.process → x.nth = x'.nth → c = c'
  total : ∀ p P, s.processes p = some P → ∀ m, 1 ≤ m → m ≤ P.seq → ∃ c x, s.conns c = some x ∧ x.process = p ∧ x.nth = m

theorem numbering_init (backplane : Bool) : Numbering (init backplane) :=
  ⟨fun _ _ => rfl, fun _ _ h => (by cases h), fun _ _ _ _ h => (by cases h), fun _ _ h => (by cases h)⟩

/-- stages, tables and what delivers pushes do not matter -/
theorem Numbering.frame {s t : St} (h : Numbering s) (hopened : t.opened = s.opened)
    (hprocesses : ∀ p, (t.processes p).map Process.key = (s.processes p).map Process.key)
    (hconns : ∀ c, (t.conns c).map Conn.key = (s.conns c).map Conn.key) : Numbering t := by
  have hconn : ∀ {c : ℕ} {x : Conn}, t.conns c = some x → ∃ y, s.conns c = some y ∧ y.key = x.key := by
    intro c x hx
    have hkey := hconns c
    rw [hx] at hkey
    exact Option.map_eq_some_iff.1 hkey.symm
  refine ⟨?_, ?_, ?_, ?_⟩
  · intro c hc
    have hkey := hconns c
    rw [h.fresh c (hopened ▸ hc)] at hkey
    exact Option.map_eq_none_iff.1 hkey
  · intro c x hx
    obtain ⟨y, hy, hkey⟩ := hconn hx
    obtain ⟨hprocess, hnth, hid⟩ : y.process = x.process ∧ y.nth = x.nth ∧ y.id = x.id := by simpa [Conn.key] using hkey
    obtain ⟨P, hP, h1, hle, hfmt⟩ := h.numbered c y hy
    have hkeyP := hprocesses x.process
    rw [← hprocess, hP, Option.map_some, Option.map_eq_some_iff] at hkeyP
    obtain ⟨Q, hQ, hkeyQ⟩ := hkeyP
    obtain ⟨hinst, hseq⟩ : Q.instanceID = P.instanceID ∧ Q.seq = P.seq := by simpa [Process.key] using hkeyQ
    exact ⟨Q, by rw [← hprocess, hQ], by omega, by omega, by rw [← hid, hfmt, hinst, hnth]⟩
  · intro c c' x x' hx hx' hprocess hnth
    obtain ⟨y, hy, hkey⟩ := hconn hx
    obtain ⟨y', hy', hkey'⟩ := hconn hx'
    simp only [Conn.key, Prod.mk.injEq] at hkey hkey'
    exact h.apart c c' y y' hy hy' (by rw [hkey.1, hkey'.1, hprocess]) (by rw [hkey.2.1, hkey'.2.1, hnth])
  · intro p P hP m h1 hm
    have hkeyP := hprocesses p
    rw [hP, Option.map_some] at hkeyP
    obtain ⟨Q, hQ, hkeyQ⟩ := Option.map_eq_some_iff.1 hkeyP.symm
    have hseq : Q.seq = P.seq := congrArg Prod.snd hkeyQ
    obtain ⟨c, y, hy, hprocess, hnth⟩ := h.total p Q hQ m h1 (by omega)
    have hkeyC := hconns c
    rw [hy, Option.map_some] at hkeyC
    obtain ⟨x, hx, hkey⟩ := Option.map_eq_some_iff.1 hkeyC
    simp only [Conn.key, Prod.mk.injEq] at hkey
    exact ⟨c, x, hx, hkey.1.trans hprocess, hkey.2.1.trans hnth⟩

/-- replacing one value by one with the same key -/
theorem map_update {α κ : Type*} {key : α → κ} {f : ℕ → Option α} {i : ℕ} {a b : α} (ha : f i = some a)
    (hkey : key b = key a) (j : ℕ) : (update f i (some b) j).map key = (f j).map key := by
  rcases eq_or_ne j i with rfl | hne
  · rw [update_self, ha, Option.map_some, Option.map_some, hkey]
  · rw [update_of_ne hne]

theorem Numbering.start {s : St} (h : Numbering s) {p : ℕ} (host : String) (hnone : s.processes p = none) :
    Numbering { s with processes := update s.processes p (some (newProcess host)) } := by
  refine ⟨h.fresh, ?_, h.apart, ?_⟩
  · intro c x hx
    obtain ⟨P, hP, hrest⟩ := h.numbered c x hx
    have hne : x.process ≠ p := ne_of_vacant hnone hP
    exact ⟨P, by simpa [update_of_ne hne] using hP, hrest⟩
  · intro q Q hQ m h1 hm
    rcases eq_or_ne q p with rfl | hne
    · obtain rfl : newProcess host = Q := by simpa using hQ
      simp only [newProcess] at hm
      omega
    · exact h.total q Q (by simpa [update_of_ne hne] using hQ) m h1 hm

/-- a connection that is there is not the one a process accepts -/
theorem Numbering.kept {s : St} (h : Numbering s) {c : ℕ} {x : Conn} (hx : s.conns c = some x) (p : ℕ) (P : Process) :
    (accept s p P).conns c = some x := by
  have hne : c ≠ s.opened := ne_of_vacant (h.fresh _ le_rfl) hx
  simpa [Backplane.accept, update_of_ne hne] using hx

theorem Numbering.accept {s : St} (h : Numbering s) {p : ℕ} {P : Process} (hP : s.processes p = some P) :
    Numbering (accept s p P) := by
  have hcases : ∀ {c : ℕ} {x : Conn}, (Backplane.accept s p P).conns c = some x →
      (c = s.opened ∧ x = ⟨p, P.seq + 1, connID P.instanceID ((P.seq + 1) % 2 ^ 64), .accepted⟩) ∨
        s.conns c = some x := by
    intro c x hx
    rcases eq_or_ne c s.opened with rfl | hne
    · exact .inl ⟨rfl, by simpa [Backplane.accept] using hx.symm⟩
    · exact .inr (by simpa [Backplane.accept, update_of_ne hne] using hx)
  -- a connection there already has a smaller number
  have hless : ∀ {c : ℕ} {x : Conn}, s.conns c = some x → x.process = p → x.nth ≤ P.seq := by
    intro c x hx hprocess
    obtain ⟨Q, hQ, -, hle, -⟩ := h.numbered c x hx
    rw [hprocess, hP] at hQ
    cases hQ
    exact hle
  refine ⟨?_, ?_, ?_, ?_⟩
  · intro c hc
    simp only [Backplane.accept] at hc ⊢
    rw [update_of_ne (by omega)]
    exact h.fresh c (by omega)
  · intro c x hx
    rcases hcases hx with ⟨-, rfl⟩ | hx
    · exact ⟨{ P with seq := P.seq + 1 }, by simp [Backplane.accept], by simp, by simp, rfl⟩
    · obtain ⟨Q, hQ, h1, hle, hfmt⟩ := h.numbered c x hx
      rcases eq_or_ne x.process p with heq | hne
      · rw [heq, hP] at hQ
        cases hQ
        exact ⟨{ P with seq := P.seq + 1 }, by simp [Backplane.accept, heq], h1, by simp only; omega, hfmt⟩
      · exact ⟨Q, by simpa [Backplane.accept, update_of_ne hne] using hQ, h1, hle, hfmt⟩
  · intro c c' x x' hx hx' hprocess hnth
    rcases hcases hx with ⟨rfl, rfl⟩ | hx
    · rcases hcases hx' with ⟨rfl, rfl⟩ | hx'
      · rfl
      · have := hless hx' hprocess.symm
        simp only at hnth
        omega
    · rcases hcases hx' with ⟨rfl, rfl⟩ | hx'
      · have := hless hx hprocess
        simp only at hnth
        omega
      · exact h.apart c c' x x' hx hx' hprocess hnth
  · intro q Q hQ m h1 hm
    rcases eq_or_ne q p with rfl | hne
    · obtain rfl : { P with seq := P.seq + 1 } = Q := by simpa [Backplane.accept] using hQ
      simp only at hm
      rcases Nat.lt_or_ge P.seq m with hlt | hle
      · obtain rfl : m = P.seq + 1 := by omega
        exact ⟨s.opened, _, update_self _ _ _, rfl, rfl⟩
      · obtain ⟨c, x, hx, hrest⟩ := h.total q P hP m h1 hle
        exact ⟨c, x, h.kept hx q P, hrest⟩
    · obtain ⟨c, x, hx, hrest⟩ := h.total q Q (by simpa [Backplane.accept, update_of_ne hne] using hQ) m h1 hm
      exact ⟨c, x, h.kept hx p P, hrest⟩

theorem Effect.numbering {s t : St} {o : Op} (h : Numbering s) (he : Effect s o t) : Numbering t := by
  cases he with
  | start host hnone => exact h.start host hnone
  | accept hP _ => exact h.accept hP
  | crash hP _ =>
    refine h.frame rfl (map_update hP rfl) ?_
    intro c
    rw [Backplane.crash, Option.map_map]
    congr 1
    funext x
    simp only [Function.comp_apply]
    split_ifs <;> rfl
  | hold hx hP _ => exact h.frame rfl (map_update hP rfl) (map_update hx rfl)
  | close hx hP _ => exact h.frame rfl (map_update hP rfl) (map_update hx rfl)
  | _ => exact h.frame rfl (fun _ => rfl) fun _ => rfl

/-! ## Tables -/

/-- what a table has is held; a connection is open only while its process runs -/
structure Tables (s : St) : Prop where
  table : ∀ p P, s.processes p = some P → ∀ id c, P.conns id = some c →
    ∃ x, s.conns c = some x ∧ x.process = p ∧ x.id = id ∧ x.stage = .held
  runs : ∀ c x, s.conns c = some x → x.stage ≠ .closed → s.Running x.process

theorem tables_init (backplane : Bool) : Tables (init backplane) :=
  ⟨fun _ _ h => (by cases h), fun _ _ h => (by cases h)⟩

theorem Tables.frame {s t : St} (h : Tables s) (hprocesses : t.processes = s.processes) (hconns : t.conns = s.conns) :
    Tables t := by
  refine ⟨?_, ?_⟩
  · rw [hprocesses, hconns]
    exact h.table
  · unfold St.Running
    rw [hprocesses, hconns]
    exact h.runs

theorem Tables.start {s : St} (h : Tables s) {p : ℕ} (host : String) (hnone : s.processes p = none) :
    Tables { s with processes := update s.processes p (some (newProcess host)) } := by
  refine ⟨?_, ?_⟩
  · intro q Q hQ id c hc
    rcases eq_or_ne q p with rfl | hne
    · obtain rfl : newProcess host = Q := by simpa using hQ
      cases hc
    · exact h.table q Q (by simpa [update_of_ne hne] using hQ) id c hc
  · intro c x hx hstage
    obtain ⟨P, hP, hrun⟩ := h.runs c x hx hstage
    have hne : x.process ≠ p := ne_of_vacant hnone hP
    exact ⟨P, by simpa [update_of_ne hne] using hP, hrun⟩

theorem Tables.crash {s : St} (h : Tables s) (p : ℕ) (P : Process) : Tables (crash s p P) := by
  refine ⟨?_, ?_⟩
  · intro q Q hQ id c hc
    rcases eq_or_ne q p with rfl | hne
    · obtain rfl : { P with running := false, conns := fun _ => none } = Q := by simpa [Backplane.crash] using hQ
      cases hc
    · have hQ' : s.processes q = some Q := by simpa [Backplane.crash, update_of_ne hne] using hQ
      obtain ⟨x, hx, hprocess, hid, hstage⟩ := h.table q Q hQ' id c hc
      refine ⟨x, ?_, hprocess, hid, hstage⟩
      simp [Backplane.crash, hx, hprocess, hne]
  · intro c x hx hstage
    obtain ⟨y, hy, rfl⟩ := Option.map_eq_some_iff.1 hx
    split_ifs at hstage ⊢ with hp
    · exact absurd rfl hstage
    · obtain ⟨Q, hQ, hrun⟩ := h.runs c y hy hstage
      exact ⟨Q, by simpa [Backplane.crash, update_of_ne hp] using hQ, hrun⟩

theorem Tables.accept {s : St} (h : Tables s) (hn : Numbering s) {p : ℕ} {P : Process} (hP : s.processes p = some P)
    (hrun : P.running = true) : Tables (accept s p P) := by
  have hrunning : ∀ q, s.Running q → (Backplane.accept s p P).Running q := by
    rintro q ⟨Q, hQ, hQrun⟩
    rcases eq_or_ne q p with rfl | hne
    · exact ⟨{ P with seq := P.seq + 1 }, by simp [Backplane.accept], hrun⟩
    · exact ⟨Q, by simpa [Backplane.accept, update_of_ne hne] using hQ, hQrun⟩
  refine ⟨?_, ?_⟩
  · intro q Q hQ id c hc
    obtain ⟨x, hx, hrest⟩ : ∃ x, s.conns c = some x ∧ x.process = q ∧ x.id = id ∧ x.stage = .held := by
      rcases eq_or_ne q p with rfl | hne
      · obtain rfl : { P with seq := P.seq + 1 } = Q := by simpa [Backplane.accept] using hQ
        exact h.table q P hP id c hc
      · exact h.table q Q (by simpa [Backplane.accept, update_of_ne hne] using hQ) id c hc
    exact ⟨x, hn.kept hx p P, hrest⟩
  · intro c x hx hstage
    rcases eq_or_ne c s.opened with rfl | hne
    · obtain rfl : _ = x := by simpa [Backplane.accept] using hx
      exact hrunning p ⟨P, hP, hrun⟩
    · exact hrunning x.process (h.runs c x (by simpa [Backplane.accept, update_of_ne hne] using hx) hstage)

/-- a connection moves, and the entry under its id changes with it -/
theorem Tables.move {s : St} (h : Tables s) {c : ℕ} {x : Conn} {P : Process} (hx : s.conns c = some x)
    (hP : s.processes x.process = some P) (hopen : x.stage ≠ .closed) {stage : Stage} {entry : Option ℕ}
    (hentry : ∀ c' ∈ entry, c' = c ∧ stage = .held) :
    Tables { s with
      processes := update s.processes x.process (some { P with conns := update P.conns x.id entry })
      conns := update s.conns c (some { x with stage }) } := by
  have hkeep : ∀ {c' : ℕ} {x' : Conn}, s.conns c' = some x' → x'.process ≠ x.process ∨ x'.id ≠ x.id →
      update s.conns c (some { x with stage }) c' = some x' := by
    intro c' x' hx' hne
    rwa [update_of_ne]
    rintro rfl
    rw [hx] at hx'
    cases hx'
    rcases hne with hne | hne <;> exact hne rfl
  have hrun : ∀ q, s.Running q →
      ∃ Q ∈ update s.processes x.process (some { P with conns := update P.conns x.id entry }) q, Q.running = true := by
    rintro q ⟨Q, hQ, hQrun⟩
    rcases eq_or_ne q x.process with rfl | hne
    · obtain rfl : P = Q := Option.some.inj (hP.symm.trans hQ)
      exact ⟨_, update_self _ _ _, hQrun⟩
    · exact ⟨Q, by rwa [update_of_ne hne], hQrun⟩
  refine ⟨?_, ?_⟩
  · intro q Q hQ id c' hc
    rcases eq_or_ne q x.process with rfl | hq
    · obtain rfl : { P with conns := update P.conns x.id entry } = Q := by simpa using hQ
      rcases eq_or_ne id x.id with rfl | hid
      · simp only [update_self] at hc
        obtain ⟨rfl, rfl⟩ := hentry c' hc
        exact ⟨_, update_self _ _ _, rfl, rfl, rfl⟩
      · obtain ⟨x', hx', hprocess, rfl, hstage⟩ := h.table _ P hP id c' (by simpa [update_of_ne hid] using hc)
        exact ⟨x', hkeep hx' (.inr hid), hprocess, rfl, hstage⟩
    · obtain ⟨x', hx', rfl, hid, hstage⟩ := h.table q Q (by simpa [update_of_ne hq] using hQ) id c' hc
      exact ⟨x', hkeep hx' (.inl hq), rfl, hid, hstage⟩
  · intro c' x' hx' hstage
    rcases eq_or_ne c' c with rfl | hne
    · obtain rfl : { x with stage } = x' := by simpa using hx'
      exact hrun _ (h.runs c' x hx hopen)
    · exact hrun _ (h.runs c' x' (by simpa [update_of_ne hne] using hx') hstage)

theorem Effect.tables {s t : St} {o : Op} (h : Tables s) (hn : Numbering s) (he : Effect s o t) : Tables t := by
  cases he with
  | start host hnone => exact h.start host hnone
  | crash _ _ => exact h.crash _ _
  | accept hP hrun => exact h.accept hn hP hrun
  | hold hx hP hstage => exact h.move hx hP (by simp [hstage]) (by simp)
  | close hx hP hstage => exact h.move hx hP (by simp [hstage]) (by simp)
  | _ => exact h.frame rfl rfl

/-- the connection under an id of a process is held there under that id -/
theorem Tables.owner {s : St} (h : Tables s) {p : ℕ} {P : Process} (hP : s.processes p = some P) {id : String} {c : ℕ}
    (hc : P.conns id = some c) {x : Conn} (hx : s.conns c = some x) : x.process = p ∧ x.id = id ∧ x.stage = .held := by
  obtain ⟨y, hy, hrest⟩ := h.table p P hP id c hc
  obtain rfl : x = y := Option.some.inj (hx.symm.trans hy)
  exact hrest

/-! ## Deliveries -/

/-- push `n` has been taken, with this request -/
def St.Taken (s : St) (n : ℕ) (req : PushRequest) : Prop := ∃ push, s.pushes[n]? = some push ∧ push.stage = .taken req

/-- the session ids of push `n` that process `p` has not looked up yet -/
def St.remaining (s : St) (p n : ℕ) : List String := ((s.jobs p n).map Job.rest).getD []

/-- how often the event of push `n` has been written to connection `c` -/
def St.count (s : St) (n c : ℕ) : ℕ := s.written.countP fun w => w.push = n ∧ w.conn = c

/-- what is delivered was addressed, under the id of the connection, and not more often than it is listed -/
structure Deliveries (s : St) : Prop where
  jobs : ∀ p n job, s.jobs p n = some job → ∃ req, s.Taken n req ∧ ∃ done, req.sessionIDs = done ++ job.rest
  written : ∀ w ∈ s.written, ∃ x req, s.conns w.conn = some x ∧ x.id = w.id ∧ s.Taken w.push req ∧ w.id ∈ req.sessionIDs
  once : ∀ n req c x, s.Taken n req → s.conns c = some x →
    s.count n c + (s.remaining x.process n).count x.id ≤ req.sessionIDs.count x.id

theorem deliveries_init (backplane : Bool) : Deliveries (init backplane) :=
  ⟨fun _ _ _ h => (by cases h), fun _ h => (by cases h), fun _ _ _ _ _ h => (by cases h)⟩

/-- a connection is there for good -/
theorem Effect.conn {s t : St} {o : Op} (hn : Numbering s) (he : Effect s o t) {c : ℕ} {x : Conn}
    (hx : s.conns c = some x) : ∃ y, t.conns c = some y ∧ y.key = x.key := by
  have hupdate : ∀ {k : ℕ} {a b : Conn}, s.conns k = some a → b.key = a.key →
      ∃ y, update s.conns k (some b) c = some y ∧ y.key = x.key := by
    intro k a b ha hkey
    have hmap := map_update ha hkey c
    rw [hx, Option.map_some] at hmap
    exact Option.map_eq_some_iff.1 hmap
  cases he with
  | crash hP _ =>
    simp only [Backplane.crash, hx, Option.map_some, Option.some.injEq, exists_eq_left']
    split_ifs <;> rfl
  | @accept p P _ _ => exact ⟨x, hn.kept hx p P, rfl⟩
  | hold hx' hP _ => exact hupdate hx' rfl
  | close hx' hP _ => exact hupdate hx' rfl
  | _ => exact ⟨x, hx, rfl⟩

theorem taken_unique {s : St} {n : ℕ} {req req' : PushRequest} (h : s.Taken n req) (h' : s.Taken n req') :
    req = req' := by
  obtain ⟨push, hpush, hstage⟩ := h
  obtain ⟨push', hpush', hstage'⟩ := h'
  obtain rfl : push = push' := Option.some.inj (hpush.symm.trans hpush')
  rw [hstage] at hstage'
  cases hstage'
  rfl

theorem not_taken_of_sent {s : St} {n : ℕ} {push : Push} (hpush : s.pushes[n]? = some push) (hsent : push.stage = .sent)
    (req : PushRequest) : ¬ s.Taken n req := by
  rintro ⟨push', hpush', hstage⟩
  obtain rfl : push = push' := Option.some.inj (hpush.symm.trans hpush')
  rw [hsent] at hstage
  cases hstage

/-- what has been taken is another push than the one that has been sent only -/
theorem ne_of_taken {s : St} {n m : ℕ} {push : Push} {r : PushRequest} (hpush : s.pushes[n]? = some push)
    (hsent : push.stage = .sent) (h : s.Taken m r) : m ≠ n := by
  rintro rfl
  exact not_taken_of_sent hpush hsent r h

theorem taken_of_ne {s : St} {n : ℕ} {push push' : Push} (hpush : s.pushes[n]? = some push) (hsent : push.stage = .sent)
    {m : ℕ} {r : PushRequest} (h : s.Taken m r) :
    ∃ q, (s.pushes.set n push')[m]? = some q ∧ q.stage = .taken r := by
  have hne : m ≠ n := ne_of_taken hpush hsent h
  obtain ⟨q, hq, hstage⟩ := h
  exact ⟨q, by rwa [List.getElem?_set_ne hne.symm], hstage⟩

/-- a push that is taken stays so -/
theorem Effect.taken {s t : St} {o : Op} (he : Effect s o t) {m : ℕ} {r : PushRequest} (h : s.Taken m r) :
    t.Taken m r := by
  cases he with
  | address body =>
    obtain ⟨push, hpush, hstage⟩ := h
    refine ⟨push, ?_, hstage⟩
    rw [List.getElem?_append_left (List.getElem?_eq_some_iff.1 hpush).1]
    exact hpush
  | take hpush hsent _ _ => exact taken_of_ne hpush hsent h
  | refuse _ _ hpush hsent => exact taken_of_ne hpush hsent h
  | _ => exact h

theorem remaining_of_job {s : St} {p n : ℕ} {job : Job} (h : s.jobs p n = some job) : s.remaining p n = job.rest := by
  rw [St.remaining, h]
  rfl

theorem remaining_setJob {s : St} {p n : ℕ} (job : Job) (q m : ℕ) :
    (s.setJob p n job).remaining q m = if q = p ∧ m = n then job.rest else s.remaining q m := by
  unfold St.remaining St.setJob
  rcases eq_or_ne q p with rfl | hq
  · rcases eq_or_ne m n with rfl | hm
    · simp
    · simp [hm]
  · simp [hq]

theorem remaining_write {s : St} {p n : ℕ} (job : Job) (written : List Write) (q m : ℕ) :
    St.remaining { s.setJob p n job with written } q m = if q = p ∧ m = n then job.rest else s.remaining q m :=
  remaining_setJob job q m

theorem count_write {s : St} {p n c : ℕ} {id : String} (job : Job) (m k : ℕ) :
    St.count { s.setJob p n job with written := s.written ++ [⟨n, id, c⟩] } m k =
      s.count m k + if n = m ∧ c = k then 1 else 0 := by
  rw [St.count, List.countP_append, List.countP_singleton]
  simp [St.count]

/-- each session id is looked up at most as often as it is listed -/
theorem remaining_le {s : St}
    (hjobs : ∀ p n job, s.jobs p n = some job → ∃ req, s.Taken n req ∧ ∃ done, req.sessionIDs = done ++ job.rest)
    {n : ℕ} {req : PushRequest} (htaken : s.Taken n req) (p : ℕ) (id : String) :
    (s.remaining p n).count id ≤ req.sessionIDs.count id := by
  cases hjob : s.jobs p n with
  | none => simp [St.remaining, hjob]
  | some job =>
    obtain ⟨req', htaken', done, hsplit⟩ := hjobs p n job hjob
    obtain rfl := taken_unique htaken htaken'
    rw [remaining_of_job hjob, hsplit, List.count_append]
    omega

/-- nothing has been written of a push that is not taken, or to a connection that is not there -/
theorem Deliveries.count_zero {s : St} (h : Deliveries s) {n c : ℕ}
    (hnew : (∀ req, ¬ s.Taken n req) ∨ s.conns c = none) :
    s.count n c = 0 := by
  rw [St.count, List.countP_eq_zero]
  intro w hw
  obtain ⟨x, req, hx, -, htaken, -⟩ := h.written w hw
  simp only [decide_eq_true_eq, not_and]
  rintro rfl rfl
  rcases hnew with hnew | hnew
  · exact hnew req htaken
  · rw [hnew] at hx
    cases hx

/-- a step that writes nothing, and in which no session id comes back -/
theorem Deliveries.quiet {s t : St} (h : Deliveries s) (htaken : ∀ {n req}, s.Taken n req → t.Taken n req)
    (hconn : ∀ {c x}, s.conns c = some x → ∃ y, t.conns c = some y ∧ y.key = x.key) (hwritten : t.written = s.written)
    (hjobs : ∀ p n job, t.jobs p n = some job → ∃ req, t.Taken n req ∧ ∃ done, req.sessionIDs = done ++ job.rest)
    (hrest : ∀ p n id, (∃ req, s.Taken n req) → (t.remaining p n).count id ≤ (s.remaining p n).count id) :
    Deliveries t := by
  refine ⟨hjobs, ?_, ?_⟩
  · intro w hw
    rw [hwritten] at hw
    obtain ⟨x, req, hx, hid, ht, hmem⟩ := h.written w hw
    obtain ⟨y, hy, hkey⟩ := hconn hx
    simp only [Conn.key, Prod.mk.injEq] at hkey
    exact ⟨y, req, hy, hkey.2.2.trans hid, htaken ht, hmem⟩
  · intro n req c y ht hy
    have hcount : t.count n c = s.count n c := by rw [St.count, hwritten, St.count]
    rw [hcount]
    by_cases hold : (∃ r, s.Taken n r) ∧ ∃ x, s.conns c = some x
    · obtain ⟨⟨r, hr⟩, x, hx⟩ := hold
      obtain rfl := taken_unique ht (htaken hr)
      obtain ⟨y', hy', hkey⟩ := hconn hx
      obtain rfl : y' = y := Option.some.inj (hy'.symm.trans hy)
      simp only [Conn.key, Prod.mk.injEq] at hkey
      rw [hkey.1, hkey.2.2]
      exact le_trans (Nat.add_le_add_left (hrest _ _ _ ⟨_, hr⟩) _) (h.once n _ c x hr hx)
    · have hzero : s.count n c = 0 := by
        apply h.count_zero
        rcases not_and_or.1 hold with hn | hc
        · exact .inl (not_exists.1 hn)
        · exact .inr (Option.eq_none_iff_forall_ne_some.2 (not_exists.1 hc))
      rw [hzero, Nat.zero_add]
      exact remaining_le hjobs ht _ _

theorem jobs_setJob {s : St} (h : Deliveries s) {p n : ℕ} {id : String} {rest : List String} {delivered missing : ℕ}
    (hjob : s.jobs p n = some ⟨id :: rest, delivered, missing⟩) (job : Job) (hrest : job.rest = rest) :
    ∀ q m job', (s.setJob p n job).jobs q m = some job' →
      ∃ req, s.Taken m req ∧ ∃ done, req.sessionIDs = done ++ job'.rest := by
  intro q m job' hjob'
  simp only [St.setJob] at hjob'
  rcases eq_or_ne q p with rfl | hq
  · rcases eq_or_ne m n with rfl | hm
    · obtain rfl : job = job' := by simpa using hjob'
      obtain ⟨req, htaken, done, hsplit⟩ := h.jobs q m _ hjob
      exact ⟨req, htaken, done ++ [id], by simp [hsplit, hrest]⟩
    · exact h.jobs q m job' (by simpa [update_of_ne hm] using hjob')
  · exact h.jobs q m job' (by simpa [update_of_ne hq] using hjob')

theorem Deliveries.take {s : St} (h : Deliveries s) {p n : ℕ} {push : Push} (req : PushRequest)
    (hpush : s.pushes[n]? = some push) (hsent : push.stage = .sent) : Deliveries (take s p n push req) := by
  have htaken : (Backplane.take s p n push req).Taken n req :=
    ⟨{ push with stage := .taken req },
      by simp [Backplane.take, List.getElem?_set_self (List.getElem?_eq_some_iff.1 hpush).1], rfl⟩
  refine h.quiet (taken_of_ne hpush hsent) (fun hx => ⟨_, hx, rfl⟩) rfl ?_ ?_
  · intro q m job hjob
    simp only [Backplane.take] at hjob
    split_ifs at hjob with hnew
    · obtain rfl := Option.some.inj hjob
      obtain ⟨rfl, -⟩ := hnew
      exact ⟨req, htaken, [], rfl⟩
    · obtain ⟨r, hr, hdone⟩ := h.jobs q m job hjob
      exact ⟨r, taken_of_ne hpush hsent hr, hdone⟩
  · rintro q m id ⟨r, hr⟩
    have hne : m ≠ n := ne_of_taken hpush hsent hr
    simp [St.remaining, Backplane.take, hne]

theorem Deliveries.write {s : St} (h : Deliveries s) (ht : Tables s) {p n c : ℕ} {P : Process} {id : String}
    {rest : List String} {delivered missing : ℕ} (hP : s.processes p = some P)
    (hjob : s.jobs p n = some ⟨id :: rest, delivered, missing⟩) (hc : P.conns id = some c) :
    Deliveries { s.setJob p n ⟨rest, delivered + 1, missing⟩ with written := s.written ++ [⟨n, id, c⟩] } := by
  obtain ⟨x, hx, hprocess, hid, -⟩ := ht.table p P hP id c hc
  refine ⟨jobs_setJob h hjob _ rfl, ?_, ?_⟩
  · intro w hw
    rcases List.mem_append.1 hw with hw | hw
    · exact h.written w hw
    · obtain rfl := List.mem_singleton.1 hw
      obtain ⟨req, htaken, done, hsplit⟩ := h.jobs p n _ hjob
      exact ⟨x, req, hx, hid, htaken, by simp [hsplit]⟩
  · intro m req k y htaken hy
    have honce := h.once m req k y htaken hy
    rw [count_write, remaining_write]
    by_cases hjobs : y.process = p ∧ m = n
    · obtain ⟨rfl, rfl⟩ := hjobs
      rw [remaining_of_job hjob, List.count_cons] at honce
      simp only [and_self, true_and, if_true]
      by_cases hk : c = k
      · subst hk
        obtain rfl : x = y := Option.some.inj (hx.symm.trans hy)
        simp only [hid, beq_self_eq_true, if_true] at honce ⊢
        omega
      · rw [if_neg hk]
        omega
    · rw [if_neg hjobs, if_neg]
      · exact honce
      · rintro ⟨rfl, rfl⟩
        obtain rfl : x = y := Option.some.inj (hx.symm.trans hy)
        exact hjobs ⟨hprocess, rfl⟩

theorem Effect.deliveries {s t : St} {o : Op} (h : Deliveries s) (hn : Numbering s) (ht : Tables s)
    (he : Effect s o t) : Deliveries t := by
  have hconn : ∀ {c x}, s.conns c = some x → ∃ y, t.conns c = some y ∧ y.key = x.key := he.conn hn
  have htaken : ∀ {n req}, s.Taken n req → t.Taken n req := he.taken
  -- where the deliveries under way are as they were
  have hsame : t.written = s.written → t.jobs = s.jobs → Deliveries t := by
    intro hwritten hjobs
    refine h.quiet htaken hconn hwritten ?_ ?_
    · intro p n job hjob
      rw [hjobs] at hjob
      obtain ⟨req, hreq, hdone⟩ := h.jobs p n job hjob
      exact ⟨req, htaken hreq, hdone⟩
    · intro p n id _
      rw [St.remaining, hjobs, ← St.remaining]
  cases he with
  | @crash p P hP _ =>
    refine h.quiet htaken hconn rfl ?_ ?_
    · intro q n job hjob
      simp only [Backplane.crash] at hjob
      rcases eq_or_ne q p with rfl | hne
      · rw [update_self] at hjob
        cases hjob
      · rw [update_of_ne hne] at hjob
        exact h.jobs q n job hjob
    · intro q n id _
      rcases eq_or_ne q p with rfl | hne
      · simp [St.remaining, Backplane.crash]
      · simp [St.remaining, Backplane.crash, update_of_ne hne]
  | take hpush hsent _ _ => exact h.take _ hpush hsent
  | @miss p n ok P id rest delivered missing hP hjob hnone =>
    refine h.quiet htaken hconn rfl (jobs_setJob h hjob _ rfl) ?_
    intro q m id' _
    rw [remaining_setJob]
    split_ifs with heq
    · obtain ⟨rfl, rfl⟩ := heq
      rw [remaining_of_job hjob]
      exact List.count_le_count_cons
    · exact le_rfl
  | write hP hjob hc => exact h.write ht hP hjob hc
  | _ => exact hsame rfl rfl

/-! ## Reached states -/

structure Inv (s : St) : Prop where
  numbering : Numbering s
  tables : Tables s
  deliveries : Deliveries s

theorem step_inv {s : St} {o : Op} (h : Inv s) : Inv (step s o) := by
  rcases step_effect s o with heq | he
  · rw [heq]
    exact h
  · exact ⟨he.numbering h.numbering, he.tables h.tables h.numbering, he.deliveries h.deliveries h.numbering h.tables⟩

theorem reached_inv (backplane : Bool) (ops : List Op) : Inv (reached backplane ops) :=
  run_inv' (fun _ _ => step_inv) ⟨numbering_init backplane, tables_init backplane, deliveries_init backplane⟩ ops

end Concordia.Gateway.Backplane
