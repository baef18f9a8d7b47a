/-
Connection ids over crashes and restarts (`connID` in `services/gateway/ws/handler.go`).

An id is the host name and a counter that starts from zero with each process. Pushes are addressed by id: chat takes the
ids from presence, and what is addressed may reach a process that was started later.

- `identity_iff`: no two connections receive the same id, and no event addressed to one connection is written to another,
  iff each process that accepts a connection is the only one of its instance id that ever has, and has accepted fewer than
  2^64.
- `restarted`: a container is started again while a push to its first connection is on its way; the push is written to a
  connection of the new process.
-/
import Concordia.Gateway.Connections

namespace Concordia.Gateway.Backplane

open Concordia.Lib
open Function (update update_self update_of_ne)

/-- no two connections have received the same id -/
def Distinct (s : St) : Prop :=
  ∀ c c' x x', s.conns c = some x → s.conns c' = some x' → x.id = x'.id → c = c'

/-- an event is written to no other connection than one that had the session id when chat addressed it -/
def Faithful (s : St) : Prop :=
  ∀ w ∈ s.written, ∀ push, s.pushes[w.push]? = some push → ∀ c x, s.conns c = some x → x.id = w.id → c < push.opened →
    c = w.conn

def Identity (s : St) : Prop := Distinct s ∧ Faithful s

/-- a connection is accepted by the first process of its instance id to accept any, as one of its first 2^64 -/
def Sole (s : St) (o : Op) : Prop :=
  ∀ p P, o = .accept p → s.processes p = some P → P.running = true → P.seq < 2 ^ 64 ∧
    ∀ q Q, q ≠ p → s.processes q = some Q → Q.instanceID = P.instanceID → Q.seq = 0

/-! ## Distinct ids -/

/-- the processes that have accepted connections have different instance ids, and their counters have not come round -/
structure Apart (s : St) : Prop where
  counted : ∀ p P, s.processes p = some P → P.seq ≤ 2 ^ 64
  named : ∀ p q P Q, s.processes p = some P → s.processes q = some Q → 0 < P.seq → 0 < Q.seq →
    P.instanceID = Q.instanceID → p = q

theorem Apart.distinct {s : St} (h : Apart s) (hn : Numbering s) : Distinct s := by
  intro c c' x x' hx hx' hid
  obtain ⟨P, hP, h1, hle, hfmt⟩ := hn.numbered c x hx
  obtain ⟨Q, hQ, h1', hle', hfmt'⟩ := hn.numbered c' x' hx'
  have hformat : connID P.instanceID (x.nth % 2 ^ 64) = connID Q.instanceID (x'.nth % 2 ^ 64) := by
    calc connID P.instanceID (x.nth % 2 ^ 64) = x.id := hfmt.symm
      _ = x'.id := hid
      _ = connID Q.instanceID (x'.nth % 2 ^ 64) := hfmt'
  obtain ⟨hinst, hmod⟩ := connID_inj hformat
  have hprocess : x.process = x'.process := h.named _ _ P Q hP hQ (by omega) (by omega) hinst
  have hcount := h.counted _ P hP
  have hcount' := h.counted _ Q hQ
  exact hn.apart c c' x x' hx hx' hprocess (by omega)

/-- instance ids and counters are as they were -/
theorem Apart.frame {s t : St} (h : Apart s)
    (hkey : ∀ p, (t.processes p).map Process.key = (s.processes p).map Process.key) : Apart t := by
  have hback : ∀ {p P}, t.processes p = some P → ∃ Q, s.processes p = some Q ∧ Q.key = P.key := by
    intro p P hP
    have := hkey p
    rw [hP] at this
    exact Option.map_eq_some_iff.1 this.symm
  refine ⟨?_, ?_⟩
  · intro p P hP
    obtain ⟨P', hP', hk⟩ := hback hP
    have hseq : P'.seq = P.seq := congrArg Prod.snd hk
    rw [← hseq]
    exact h.counted p P' hP'
  · intro p q P Q hP hQ hposP hposQ hinst
    obtain ⟨P', hP', hk⟩ := hback hP
    obtain ⟨Q', hQ', hk'⟩ := hback hQ
    simp only [Process.key, Prod.mk.injEq] at hk hk'
    exact h.named p q P' Q' hP' hQ' (by omega) (by omega) (by rw [hk.1, hk'.1, hinst])

theorem Apart.start {s : St} (h : Apart s) (p : ℕ) (host : String) :
    Apart { s with processes := update s.processes p (some (newProcess host)) } := by
  have hold : ∀ {q Q}, update s.processes p (some (newProcess host)) q = some Q → 0 < Q.seq →
      s.processes q = some Q := by
    intro q Q hQ hpos
    rcases eq_or_ne q p with rfl | hne
    · obtain rfl : newProcess host = Q := by simpa using hQ
      simp [newProcess] at hpos
    · rwa [update_of_ne hne] at hQ
  refine ⟨?_, ?_⟩
  · intro q Q hQ
    rcases Nat.eq_zero_or_pos Q.seq with hzero | hpos
    · omega
    · exact h.counted q Q (hold hQ hpos)
  · intro q r Q R hQ hR hposQ hposR
    exact h.named q r Q R (hold hQ hposQ) (hold hR hposR) hposQ hposR

theorem Apart.accept {s : St} (h : Apart s) {p : ℕ} {P : Process} (hP : s.processes p = some P)
    (hlt : P.seq < 2 ^ 64) (hsole : ∀ q Q, q ≠ p → s.processes q = some Q → Q.instanceID = P.instanceID → Q.seq = 0) :
    Apart (accept s p P) := by
  have hcases : ∀ {q Q}, (Backplane.accept s p P).processes q = some Q →
      (q = p ∧ Q = { P with seq := P.seq + 1 }) ∨ (q ≠ p ∧ s.processes q = some Q) := by
    intro q Q hQ
    rcases eq_or_ne q p with rfl | hne
    · exact .inl ⟨rfl, by simpa [Backplane.accept] using hQ.symm⟩
    · exact .inr ⟨hne, by simpa [Backplane.accept, update_of_ne hne] using hQ⟩
  refine ⟨?_, ?_⟩
  · intro q Q hQ
    rcases hcases hQ with ⟨rfl, rfl⟩ | ⟨-, hQ⟩
    · exact hlt
    · exact h.counted q Q hQ
  · intro q r Q R hQ hR hposQ hposR hinst
    rcases hcases hQ with ⟨rfl, rfl⟩ | ⟨hq, hQ'⟩
    · rcases hcases hR with ⟨rfl, rfl⟩ | ⟨hr, hR'⟩
      · rfl
      · have := hsole r R hr hR' hinst.symm
        omega
    · rcases hcases hR with ⟨rfl, rfl⟩ | ⟨hr, hR'⟩
      · have := hsole q Q hq hQ' hinst
        omega
      · exact h.named q r Q R hQ' hR' hposQ hposR hinst

theorem Effect.apart {s t : St} {o : Op} (h : Apart s) (hsole : Sole s o) (he : Effect s o t) : Apart t := by
  cases he with
  | start host _ => exact h.start _ host
  | accept hP hrun =>
    obtain ⟨hlt, hothers⟩ := hsole _ _ rfl hP hrun
    exact h.accept hP hlt hothers
  | crash hP _ => exact h.frame (map_update hP rfl)
  | hold _ hP _ => exact h.frame (map_update hP rfl)
  | close _ hP _ => exact h.frame (map_update hP rfl)
  | _ => exact h.frame fun _ => rfl

theorem step_apart {s : St} {o : Op} (h : Apart s) (hsole : Sole s o) : Apart (step s o) := by
  rcases step_effect s o with heq | he
  · rw [heq]
    exact h
  · exact he.apart h hsole

theorem reached_distinct {backplane : Bool} {ops : List Op} (h : Along step Sole (init backplane) ops) :
    Distinct (reached backplane ops) := by
  have hapart : Apart (reached backplane ops) :=
    run_inv (fun _ _ => step_apart) ⟨fun _ _ hP => (by cases hP), fun _ _ _ _ hP => (by cases hP)⟩ h
  exact hapart.distinct (reached_inv backplane ops).numbering

/-! ## Ids given twice -/

/-- an id that two connections have, they keep -/
theorem Distinct.of_step {s : St} {o : Op} (hn : Numbering s) (h : Distinct (step s o)) : Distinct s := by
  rcases step_effect s o with heq | he
  · rwa [heq] at h
  · intro c c' x x' hx hx' hid
    obtain ⟨y, hy, hkey⟩ := he.conn hn hx
    obtain ⟨y', hy', hkey'⟩ := he.conn hn hx'
    simp only [Conn.key, Prod.mk.injEq] at hkey hkey'
    exact h c c' y y' hy hy' (by rw [hkey.2.2, hkey'.2.2, hid])

theorem Distinct.of_run {s : St} (hs : Inv s) (ops : List Op) (h : Distinct (run step s ops)) : Distinct s := by
  induction ops generalizing s with
  | nil => exact h
  | cons o ops ih => exact (ih (step_inv hs) h).of_step hs.numbering

/-- otherwise the connection gets an id that is in use -/
theorem sole_of_distinct {s : St} {o : Op} (hs : Inv s) (h : Distinct (step s o)) : Sole s o := by
  rintro p P rfl hP hrun
  have hstep : step s (.accept p) = accept s p P := by simp [step, hP, hrun]
  rw [hstep] at h
  have hn : Numbering (accept s p P) := hs.numbering.accept hP
  have hP' : (accept s p P).processes p = some { P with seq := P.seq + 1 } := update_self _ _ _
  -- the connections of one number and of two processes, or of two numbers that are equal modulo 2^64
  have hclash : ∀ {q Q} (m m' : ℕ), (accept s p P).processes q = some Q → Q.instanceID = P.instanceID → 1 ≤ m → m ≤ Q.seq →
      1 ≤ m' → m' ≤ P.seq + 1 → m % 2 ^ 64 = m' % 2 ^ 64 → q = p ∧ m = m' := by
    intro q Q m m' hQ hinst h1 hle h1' hle' hmod
    obtain ⟨c, x, hx, rfl, rfl⟩ := hn.total q Q hQ m h1 hle
    obtain ⟨c', x', hx', hprocess', rfl⟩ := hn.total p _ hP' m' h1' hle'
    obtain ⟨R, hR, -, -, hfmt⟩ := hn.numbered c x hx
    obtain rfl : Q = R := Option.some.inj (hQ.symm.trans hR)
    obtain ⟨R', hR', -, -, hfmt'⟩ := hn.numbered c' x' hx'
    rw [hprocess', hP'] at hR'
    obtain rfl := Option.some.inj hR'
    have hid : x.id = x'.id := by rw [hfmt, hfmt', hinst, hmod]
    obtain rfl := h c c' x x' hx hx' hid
    obtain rfl : x = x' := Option.some.inj (hx.symm.trans hx')
    exact ⟨hprocess', rfl⟩
  refine ⟨?_, ?_⟩
  · by_contra hge
    have hsame : P.seq + 1 - 2 ^ 64 = P.seq + 1 :=
      (hclash _ _ hP' rfl (by omega) (by simp only; omega) (by omega) le_rfl (by omega)).2
    omega
  · intro q Q hq hQ hinst
    by_contra hpos
    have hQ' : (accept s p P).processes q = some Q := by
      rw [← hQ]
      exact update_of_ne hq _ _
    exact hq (hclash 1 1 hQ' hinst le_rfl (by omega) le_rfl (by omega) rfl).1

/-- **Identity.** In every run: connection ids are never given twice, and no event goes to another connection than it was
addressed to, iff no process accepts a connection after another one of its instance id has, or as its 2^64+1st. -/
theorem identity_iff (backplane : Bool) (ops : List Op) :
    Identity (reached backplane ops) ↔ Along step Sole (init backplane) ops := by
  refine ⟨?_, ?_⟩
  · rintro ⟨hdistinct, -⟩
    rw [along_iff_split]
    rintro a o b rfl
    have hinv := reached_inv backplane a
    rw [reached, run_append, run_cons] at hdistinct
    exact sole_of_distinct hinv (hdistinct.of_run (step_inv hinv) b)
  · intro h
    have hdistinct := reached_distinct h
    refine ⟨hdistinct, ?_⟩
    intro w hw push _ c x hx hid _
    obtain ⟨y, -, hy, hyid, -⟩ := (reached_inv backplane ops).deliveries.written w hw
    exact hdistinct c w.conn x y hx hy (hid.trans hyid.symm)

/-! ## A restart -/

/-- alice's event is on its way to connection 0 when the container is started again and bob connects -/
def restart : List Op := [.start 0 "gw", .accept 0, .hold 0, .address (.request ⟨["gw-1"], "for alice"⟩), .crash 0,
  .start 1 "gw", .accept 1, .hold 1, .post 1 0 true, .deliver 1 0 true]

theorem restarted : (reached false restart).written = [⟨0, "gw-1", 1⟩] ∧ ¬ Identity (reached false restart) := by
  refine ⟨by decide, ?_⟩
  rintro ⟨hdistinct, -⟩
  exact absurd (hdistinct 0 1 ⟨0, 1, "gw-1", .closed⟩ ⟨1, 1, "gw-1", .held⟩ (by decide) (by decide) rfl) (by decide)

end Concordia.Gateway.Backplane
