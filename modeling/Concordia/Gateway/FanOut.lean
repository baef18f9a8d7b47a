/-
The backplane: a push posted to any replica, delivered by all of them (`PushHandler`, `runBackplane`, `deliverLocal` in
`services/gateway/ws/handler.go`).

Replicas have different instance ids and do not crash; Redis gives a published push once to every replica that runs; the
writes to sockets succeed. Connections open and close at any time, and the replicas deliver in any order.

- `fan_out`: as long as no replica has accepted 2^64 connections, ids are distinct, a push is written exactly once to each
  listed connection that stays open until its replica has processed it, to no other, and altogether as often as one
  replica that holds all connections would write it.
- `wrapped_and_changing`: a replica's 2^64+1st connection gets the id of its first; what two replicas write while
  connections open and close need not be what one table holds.
-/
import Concordia.Gateway.Identity

namespace Concordia.Gateway.Backplane

open Concordia.Lib
open Function (update update_self update_of_ne)

/-! ## What is claimed -/

/-- the replicas of a deployment: different instance ids, no crash, no write that fails -/
def Deployed (s : St) : Op → Prop
  | .start _ host => ∀ q Q, s.processes q = some Q → Q.instanceID ≠ (newProcess host).instanceID
  | .crash _ => False
  | .deliver _ _ ok => ok = true
  | _ => True

/-- no counter has come round -/
def Unwrapped (s : St) (o : Op) : Prop := ∀ p P, o = .accept p → s.processes p = some P → P.seq < 2 ^ 64

/-- process `p`, when push `n` is posted to it, takes the request -/
def Takes (s : St) (p n : ℕ) (published : Bool) (req : PushRequest) : Prop :=
  ∃ push, s.pushes[n]? = some push ∧ push.stage = .sent ∧ s.Running p ∧
    pushHandler s.backplane published push.body = .ok req

def Held (s : St) (c : ℕ) (x : Conn) : Prop := s.conns c = some x ∧ x.stage = .held

/-- `deliverLocal` at once, on one table: the connections written -/
def deliverLocal (conns : String → Option ℕ) (sessionIDs : List String) : List ℕ := sessionIDs.filterMap conns

/-- the table of a single replica that holds all connections -/
def allConns (s : St) (id : String) : Option ℕ :=
  (List.range s.opened).find? fun c => s.conns c |>.any fun x => x.id = id ∧ x.stage = .held

/-- what the run has done with its pushes -/
structure FanOut (ops : List Op) : Prop where
  distinct : Distinct (reached true ops)
  unlisted : ∀ n req c x, (reached true ops).Taken n req → (reached true ops).conns c = some x →
    x.id ∉ req.sessionIDs → (reached true ops).count n c = 0
  atMostOnce : ∀ n req c, (reached true ops).Taken n req → req.sessionIDs.Nodup → (reached true ops).count n c ≤ 1
  /-- open when the push is taken (after `a`) and when its replica has processed it (after `b`) -/
  once : ∀ a p n published b d req c x, ops = a ++ .post p n published :: b ++ d →
    Takes (reached true a) p n published req → req.sessionIDs.Nodup → x.id ∈ req.sessionIDs →
    Held (reached true a) c x → Held (reached true (a ++ .post p n published :: b)) c x →
    (reached true (a ++ .post p n published :: b)).remaining x.process n = [] → (reached true ops).count n c = 1
  /-- no listed connection opens or closes while the push is processed -/
  alone : ∀ a p n published b req, ops = a ++ .post p n published :: b → Takes (reached true a) p n published req →
    (∀ q, (reached true ops).remaining q n = []) →
    (∀ c x, (reached true ops).conns c = some x → x.id ∈ req.sessionIDs → .hold c ∉ b ∧ .close c ∉ b) →
    ∀ c, (reached true ops).count n c = (deliverLocal (allConns (reached true a)) req.sessionIDs).count c

/-! ## Open connections -/

/-- every open connection is in the table of its process -/
def Exact (s : St) : Prop :=
  ∀ c x P, s.conns c = some x → x.stage = .held → s.processes x.process = some P → P.conns x.id = some c

/-- what holds of a deployment without restarts -/
structure Live (s : St) : Prop where
  inv : Inv s
  apart : Apart s
  named : ∀ p q P Q, s.processes p = some P → s.processes q = some Q → P.instanceID = Q.instanceID → p = q
  exact : Exact s
  backplane : s.backplane = true

/-- a connection that is open was open before, or has just been put into the table -/
theorem Effect.held {s t : St} {o : Op} (he : Effect s o t) {c : ℕ} {y : Conn} (hy : Held t c y) :
    Held s c y ∨ o = .hold c ∧ ∃ x, s.conns c = some x ∧ x.stage = .accepted := by
  obtain ⟨hy, hstage⟩ := hy
  cases he with
  | crash hP _ =>
    obtain ⟨x, hx, rfl⟩ := Option.map_eq_some_iff.1 hy
    split_ifs at hstage ⊢ with hp
    exact .inl ⟨hx, hstage⟩
  | accept hP _ =>
    rcases eq_or_ne c s.opened with rfl | hne
    · obtain rfl : _ = y := by simpa [Backplane.accept] using hy
      cases hstage
    · exact .inl ⟨by simpa [Backplane.accept, update_of_ne hne] using hy, hstage⟩
  | @hold k x P hx hP haccepted =>
    rcases eq_or_ne c k with rfl | hne
    · exact .inr ⟨rfl, x, hx, haccepted⟩
    · exact .inl ⟨by simpa [Backplane.hold, update_of_ne hne] using hy, hstage⟩
  | @close k x P hx hP _ =>
    rcases eq_or_ne c k with rfl | hne
    · obtain rfl : _ = y := by simpa [Backplane.close] using hy
      cases hstage
    · exact .inl ⟨by simpa [Backplane.close, update_of_ne hne] using hy, hstage⟩
  | _ => exact .inl ⟨hy, hstage⟩

/-- the entries of other connections stay when a connection moves -/
theorem Exact.move {s : St} (h : Exact s) (hd : Distinct s) {k : ℕ} {x : Conn} {P : Process} (hx : s.conns k = some x)
    (hP : s.processes x.process = some P) (entry : Option ℕ) {c : ℕ} {y : Conn} {Q : Process} (hy : Held s c y)
    (hne : c ≠ k)
    (hQ : update s.processes x.process (some { P with conns := update P.conns x.id entry }) y.process = some Q) :
    Q.conns y.id = some c := by
  rcases eq_or_ne y.process x.process with heq | hprocess
  · rw [heq, update_self] at hQ
    obtain rfl := Option.some.inj hQ
    have hid : y.id ≠ x.id := by
      intro hid
      exact hne (hd c k y x hy.1 hx hid)
    simp only [update_of_ne hid]
    exact h c y P hy.1 hy.2 (by rw [heq, hP])
  · rw [update_of_ne hprocess] at hQ
    exact h c y Q hy.1 hy.2 hQ

theorem Effect.exact {s t : St} {o : Op} (h : Exact s) (hd : Distinct s) (hn : Numbering s) (hlive : Deployed s o)
    (he : Effect s o t) : Exact t := by
  intro c y Q hy hstage hQ
  have hheld := he.held ⟨hy, hstage⟩
  cases he with
  | @start p host hnone =>
    obtain ⟨P, hP, -⟩ := hn.numbered c y hy
    have hne : y.process ≠ p := ne_of_vacant hnone hP
    exact h c y Q hy hstage (by simpa [update_of_ne hne] using hQ)
  | crash => exact hlive.elim
  | @accept p P hP _ =>
    obtain ⟨hy', -⟩ : Held s c y := by simpa using hheld
    rcases eq_or_ne y.process p with heq | hne
    · obtain rfl : { P with seq := P.seq + 1 } = Q := by simpa [Backplane.accept, heq] using hQ
      exact h c y P hy' hstage (by rw [heq, hP])
    · exact h c y Q hy' hstage (by simpa [Backplane.accept, update_of_ne hne] using hQ)
  | @hold k x P hx hP _ =>
    rcases eq_or_ne c k with rfl | hne
    · obtain rfl : { x with stage := .held } = y := by simpa [Backplane.hold] using hy
      obtain rfl : { P with conns := update P.conns x.id (some c) } = Q := by simpa [Backplane.hold] using hQ
      exact update_self _ _ _
    · exact h.move hd hx hP _ (hheld.resolve_right (by simp [hne.symm])) hne hQ
  | @close k x P hx hP _ =>
    have hheld' : Held s c y := by simpa using hheld
    rcases eq_or_ne c k with rfl | hne
    · obtain rfl : { x with stage := .closed } = y := by simpa [Backplane.close] using hy
      cases hstage
    · exact h.move hd hx hP _ hheld' hne hQ
  | _ => exact h c y Q hy hstage hQ

theorem Live.distinct {s : St} (h : Live s) : Distinct s := h.apart.distinct h.inv.numbering

/-- among different instance ids, a process is the only one of its own -/
theorem Live.sole {s : St} {o : Op} (h : Live s) (hcount : Unwrapped s o) : Sole s o := by
  intro p P ho hP _
  refine ⟨hcount p P ho hP, ?_⟩
  intro q Q hne hQ hinst
  exact absurd (h.named q p Q P hQ hP hinst) hne

theorem Effect.named {s t : St} {o : Op}
    (h : ∀ p q P Q, s.processes p = some P → s.processes q = some Q → P.instanceID = Q.instanceID → p = q)
    (hlive : Deployed s o) (he : Effect s o t) :
    ∀ p q P Q, t.processes p = some P → t.processes q = some Q → P.instanceID = Q.instanceID → p = q := by
  -- a step that starts no process leaves the instance ids as they were
  have hframe : (∀ p P, t.processes p = some P → ∃ P', s.processes p = some P' ∧ P'.instanceID = P.instanceID) →
      ∀ p q P Q, t.processes p = some P → t.processes q = some Q → P.instanceID = Q.instanceID → p = q := by
    intro hback p q P Q hP hQ hinst
    obtain ⟨P', hP', heq⟩ := hback p P hP
    obtain ⟨Q', hQ', heq'⟩ := hback q Q hQ
    exact h p q P' Q' hP' hQ' (by rw [heq, heq', hinst])
  have hupdate : ∀ {k : ℕ} {R R' : Process}, s.processes k = some R → R'.instanceID = R.instanceID →
      ∀ p P, update s.processes k (some R') p = some P → ∃ P', s.processes p = some P' ∧ P'.instanceID = P.instanceID := by
    intro k R R' hR hsame p P hP
    rcases eq_or_ne p k with rfl | hne
    · obtain rfl : R' = P := by simpa using hP
      exact ⟨R, hR, hsame.symm⟩
    · exact ⟨P, by rwa [update_of_ne hne] at hP, rfl⟩
  cases he with
  | @start k host hnone =>
    intro p q P Q hP hQ hinst
    simp only at hP hQ
    rcases eq_or_ne p k with rfl | hp
    · rcases eq_or_ne q p with rfl | hq
      · rfl
      · rw [update_of_ne hq] at hQ
        obtain rfl : newProcess host = P := by simpa using hP
        exact absurd hinst.symm (hlive q Q hQ)
    · rcases eq_or_ne q k with rfl | hq
      · rw [update_of_ne hp] at hP
        obtain rfl : newProcess host = Q := by simpa using hQ
        exact absurd hinst (hlive p P hP)
      · rw [update_of_ne hp] at hP
        rw [update_of_ne hq] at hQ
        exact h p q P Q hP hQ hinst
  | crash => exact hlive.elim
  | accept hP _ => exact hframe (hupdate hP rfl)
  | hold _ hP _ => exact hframe (hupdate hP rfl)
  | close _ hP _ => exact hframe (hupdate hP rfl)
  | _ => exact hframe fun p P hP => ⟨P, hP, rfl⟩

theorem Effect.backplane {s t : St} {o : Op} (he : Effect s o t) : t.backplane = s.backplane := by
  cases he <;> rfl

theorem step_live {s : St} {o : Op} (h : Live s) (hlive : Deployed s o) (hcount : Unwrapped s o) : Live (step s o) := by
  have hinv := step_inv (o := o) h.inv
  have hapart := step_apart h.apart (h.sole hcount)
  rcases step_effect s o with heq | he
  · rwa [heq]
  · exact ⟨hinv, hapart, he.named h.named hlive, he.exact h.exact h.distinct h.inv.numbering hlive,
      he.backplane.trans h.backplane⟩

theorem reached_live {ops : List Op} (h : Along step (fun s o => Deployed s o ∧ Unwrapped s o) (init true) ops) :
    Live (reached true ops) := by
  apply run_inv (fun s o hs hC => step_live hs hC.1 hC.2) _ h
  exact ⟨reached_inv true [], ⟨fun _ _ hP => (by cases hP), fun _ _ _ _ hP => (by cases hP)⟩,
    fun _ _ _ _ hP => (by cases hP), fun _ _ _ hx => (by cases hx), rfl⟩

/-! ## Exactly once -/

/-- a connection that has been put into the table is not put there again -/
theorem Effect.opened {s t : St} {o : Op} (hn : Numbering s) (he : Effect s o t) {c : ℕ} {x : Conn}
    (hx : s.conns c = some x) (hopened : x.stage ≠ .accepted) : ∃ y, t.conns c = some y ∧ y.stage ≠ .accepted := by
  have hupdate : ∀ {k : ℕ} {b : Conn}, b.stage ≠ .accepted →
      ∃ y, update s.conns k (some b) c = some y ∧ y.stage ≠ .accepted := by
    intro k b hb
    rcases eq_or_ne c k with rfl | hne
    · exact ⟨b, update_self _ _ _, hb⟩
    · exact ⟨x, by rwa [update_of_ne hne], hopened⟩
  cases he with
  | @crash p P hP _ =>
    refine ⟨if x.process = p then { x with stage := .closed } else x, by simp [Backplane.crash, hx], ?_⟩
    split_ifs
    · simp
    · exact hopened
  | @accept p P _ _ => exact ⟨x, hn.kept hx p P, hopened⟩
  | hold => exact hupdate (by simp)
  | close => exact hupdate (by simp)
  | _ => exact ⟨x, hx, hopened⟩

/-- while connection `c` is open, what is written of push `n` and what is left of it add up to what it lists -/
structure Track (s : St) (n : ℕ) (req : PushRequest) (c : ℕ) : Prop where
  taken : s.Taken n req
  opened : ∃ x, s.conns c = some x ∧ x.stage ≠ .accepted
  total : ∀ x, Held s c x → s.count n c + (s.remaining x.process n).count x.id = req.sessionIDs.count x.id

theorem Effect.track {s t : St} {o : Op} (h : Live s) (hlive : Deployed s o) {n : ℕ} {req : PushRequest} {c : ℕ}
    (ht : Track s n req c) (he : Effect s o t) : Track t n req c := by
  obtain ⟨x, hx, hopened⟩ := ht.opened
  refine ⟨he.taken ht.taken, he.opened h.inv.numbering hx hopened, ?_⟩
  intro y hy
  have hheld : Held s c y := by
    refine (he.held hy).resolve_right ?_
    rintro ⟨-, x', hx', hstage⟩
    obtain rfl : x = x' := Option.some.inj (hx.symm.trans hx')
    exact hopened hstage
  have htotal := ht.total y hheld
  cases he with
  | crash => exact hlive.elim
  | @take p m published push r hpush hsent _ _ =>
    -- another push
    have hne : n ≠ m := ne_of_taken hpush hsent ht.taken
    simpa [St.count, St.remaining, Backplane.take, hne] using htotal
  | @miss p m ok P id rest delivered missing hP hjob hnone =>
    have hcount : (s.setJob p m ⟨rest, delivered, missing + 1⟩).count n c = s.count n c := rfl
    rw [hcount, remaining_setJob]
    split_ifs with heq
    · obtain ⟨hprocess, rfl⟩ := heq
      -- the id that is not in the table is not this connection's
      have hid : id ≠ y.id := by
        rintro rfl
        rcases hnone with hnone | rfl
        · rw [h.exact c y P hheld.1 hheld.2 (by rw [hprocess, hP])] at hnone
          cases hnone
        · cases hlive
      rw [hprocess, remaining_of_job hjob, List.count_cons_of_ne hid] at htotal
      exact htotal
    · exact htotal
  | @write p m k P id rest delivered missing hP hjob hk =>
    rw [count_write, remaining_write]
    by_cases hjobs : y.process = p ∧ n = m
    · obtain ⟨hprocess, rfl⟩ := hjobs
      have hown : P.conns y.id = some c := h.exact c y P hheld.1 hheld.2 (by rw [hprocess, hP])
      rw [hprocess, remaining_of_job hjob] at htotal
      simp only [hprocess, and_self, true_and, if_true]
      by_cases hid : id = y.id
      · obtain rfl : k = c := by
          rw [hid, hown] at hk
          exact (Option.some.inj hk).symm
        rw [hid, List.count_cons_self] at htotal
        simp only [if_true]
        omega
      · have hkc : k ≠ c := by
          rintro rfl
          exact hid (h.inv.tables.owner hP hk hheld.1).2.1.symm
        rw [List.count_cons_of_ne hid] at htotal
        rw [if_neg hkc]
        exact htotal
    · rw [if_neg hjobs, if_neg]
      · exact htotal
      · rintro ⟨rfl, rfl⟩
        exact hjobs ⟨(h.inv.tables.owner hP hk hheld.1).1, rfl⟩
  | _ => exact htotal

theorem step_track {s : St} {o : Op} (h : Live s) (hlive : Deployed s o) {n : ℕ} {req : PushRequest} {c : ℕ}
    (ht : Track s n req c) : Track (step s o) n req c := by
  rcases step_effect s o with heq | he
  · rwa [heq]
  · exact he.track h hlive ht

theorem Takes.step {s : St} {p n : ℕ} {published : Bool} {req : PushRequest} (htakes : Takes s p n published req) :
    ∃ push, s.pushes[n]? = some push ∧ push.stage = .sent ∧ step s (.post p n published) = take s p n push req := by
  obtain ⟨push, hpush, hsent, hrun, hreq⟩ := htakes
  exact ⟨push, hpush, hsent, by simp [Backplane.step, hpush, hsent, hrun, hreq]⟩

theorem Takes.taken {s : St} {p n : ℕ} {published : Bool} {req : PushRequest} (htakes : Takes s p n published req) :
    (Backplane.step s (.post p n published)).Taken n req := by
  obtain ⟨push, hpush, -, hstep⟩ := htakes.step
  rw [hstep]
  exact ⟨{ push with stage := .taken req },
    by simp [take, List.getElem?_set_self (List.getElem?_eq_some_iff.1 hpush).1], rfl⟩

/-- nothing of a push is written before it is taken, and nothing in the step that takes it -/
theorem Takes.count {s : St} (h : Inv s) {p n : ℕ} {published : Bool} {req : PushRequest}
    (htakes : Takes s p n published req) (c : ℕ) : (Backplane.step s (.post p n published)).count n c = 0 := by
  obtain ⟨push, hpush, hsent, hstep⟩ := htakes.step
  rw [hstep]
  exact h.deliveries.count_zero (.inl (not_taken_of_sent hpush hsent))

/-- when a push is taken, everything is left of it, at every replica -/
theorem Takes.track {s : St} (h : Live s) {p n : ℕ} {published : Bool} {req : PushRequest}
    (htakes : Takes s p n published req) {c : ℕ} {x : Conn} (hx : Held s c x) :
    Track (Backplane.step s (.post p n published)) n req c := by
  have htaken := htakes.taken
  have hzero := htakes.count h.inv c
  obtain ⟨push, -, -, hstep⟩ := htakes.step
  rw [hstep] at htaken hzero ⊢
  refine ⟨htaken, ⟨x, hx.1, by simp [hx.2]⟩, ?_⟩
  intro y hy
  have hy' : Held s c y := hy
  have hrunning : s.Running y.process := h.inv.tables.runs c y hy'.1 (by simp [hy'.2])
  have hall : (take s p n push req).remaining y.process n = req.sessionIDs := by
    simp [St.remaining, take, hrunning, h.backplane]
  rw [hzero, hall, Nat.zero_add]

/-- a connection stays open until it closes -/
theorem Effect.stays {s t : St} {o : Op} (hn : Numbering s) (hlive : Deployed s o) (he : Effect s o t) {c : ℕ} {x : Conn}
    (hx : Held s c x) (hclose : o ≠ .close c) : Held t c x := by
  obtain ⟨hx, hstage⟩ := hx
  cases he with
  | crash => exact hlive.elim
  | @accept p P _ _ => exact ⟨hn.kept hx p P, hstage⟩
  | @hold k y P hy hP haccepted =>
    have hne : c ≠ k := by
      rintro rfl
      obtain rfl : x = y := Option.some.inj (hx.symm.trans hy)
      rw [hstage] at haccepted
      cases haccepted
    exact ⟨by simpa [Backplane.hold, update_of_ne hne] using hx, hstage⟩
  | @close k y P hy hP _ =>
    have hne : c ≠ k := by
      rintro rfl
      exact hclose rfl
    exact ⟨by simpa [Backplane.close, update_of_ne hne] using hx, hstage⟩
  | _ => exact ⟨hx, hstage⟩

/-- connection `c` is not open, and nothing of push `n` has been written to it -/
structure Idle (s : St) (n c : ℕ) : Prop where
  shut : ∀ x, ¬ Held s c x
  unwritten : s.count n c = 0

theorem Effect.idle {s t : St} {o : Op} (h : Inv s) {n c : ℕ} (hidle : Idle s n c) (he : Effect s o t)
    (hhold : o ≠ .hold c) : Idle t n c := by
  refine ⟨?_, ?_⟩
  · intro x hx
    rcases he.held hx with hx | ⟨rfl, -⟩
    · exact hidle.shut x hx
    · exact hhold rfl
  · cases he with
    | @write p m k P id rest delivered missing hP hjob hk =>
      rw [count_write, hidle.unwritten, if_neg]
      rintro ⟨-, rfl⟩
      obtain ⟨x, hx, -, -, hstage⟩ := h.tables.table p P hP id k hk
      exact hidle.shut x ⟨hx, hstage⟩
    | _ => exact hidle.unwritten

theorem Effect.count {s t : St} {o : Op} (he : Effect s o t) (n c : ℕ) : s.count n c ≤ t.count n c := by
  cases he with
  | write hP hjob hk =>
    rw [count_write]
    omega
  | _ => exact le_rfl

theorem run_count (n c : ℕ) (s : St) (ops : List Op) : s.count n c ≤ (run step s ops).count n c := by
  refine run_rel (R := fun s t => s.count n c ≤ t.count n c) (fun _ => le_rfl) (fun _ _ _ => le_trans) ?_ s ops
  intro s o
  rcases step_effect s o with heq | he
  · rw [heq]
  · exact he.count n c

theorem run_taken {s : St} {n : ℕ} {req : PushRequest} (h : s.Taken n req) (ops : List Op) :
    (run step s ops).Taken n req := by
  refine run_inv' (I := fun s : St => s.Taken n req) ?_ h ops
  intro s o hs
  rcases step_effect s o with heq | he
  · rwa [heq]
  · exact he.taken hs

theorem run_conn {s : St} (hs : Inv s) {c : ℕ} {x : Conn} (hx : s.conns c = some x) (ops : List Op) :
    ∃ y, (run step s ops).conns c = some y ∧ y.key = x.key := by
  have hall : Inv (run step s ops) ∧ ∃ y, (run step s ops).conns c = some y ∧ y.key = x.key := by
    refine run_inv' (I := fun s => Inv s ∧ ∃ y, s.conns c = some y ∧ y.key = x.key) ?_ ⟨hs, x, hx, rfl⟩ ops
    rintro s o ⟨hinv, y, hy, hkey⟩
    refine ⟨step_inv hinv, ?_⟩
    rcases step_effect s o with heq | he
    · rw [heq]
      exact ⟨y, hy, hkey⟩
    · obtain ⟨z, hz, hkey'⟩ := he.conn hinv.numbering hy
      exact ⟨z, hz, hkey'.trans hkey⟩
  exact hall.2

/-! ## One replica that holds all connections -/

theorem allConns_eq_some {s : St} (hn : Numbering s) (hd : Distinct s) {id : String} {c : ℕ} :
    allConns s id = some c ↔ ∃ x, Held s c x ∧ x.id = id := by
  have hany : ∀ {k : ℕ}, ((s.conns k).any fun x => x.id = id ∧ x.stage = .held) = true ↔
      ∃ x, Held s k x ∧ x.id = id := by
    intro k
    simp only [Option.any_eq_true, decide_eq_true_eq, Held]
    refine ⟨?_, ?_⟩
    · rintro ⟨x, hx, hid, hstage⟩
      exact ⟨x, ⟨hx, hstage⟩, hid⟩
    · rintro ⟨x, ⟨hx, hstage⟩, hid⟩
      exact ⟨x, hx, hid, hstage⟩
  have hfound : ∀ {k : ℕ}, allConns s id = some k → ∃ x, Held s k x ∧ x.id = id := by
    intro k hfind
    unfold allConns at hfind
    have hk := List.find?_some hfind
    exact hany.1 hk
  refine ⟨hfound, ?_⟩
  · rintro ⟨x, hx, hid⟩
    have hlt : c < s.opened := by
      by_contra hge
      have hnone := hx.1
      rw [hn.fresh c (not_lt.1 hge)] at hnone
      cases hnone
    cases hfind : allConns s id with
    | none =>
      have hnot := List.find?_eq_none.1 hfind c (List.mem_range.2 hlt)
      exact absurd (hany.2 ⟨x, hx, hid⟩) hnot
    | some k =>
      obtain ⟨y, hy, hyid⟩ := hfound hfind
      rw [hd k c y x hy.1 hx.1 (hyid.trans hid.symm)]

theorem deliverLocal_count {s : St} (hn : Numbering s) (hd : Distinct s) {c : ℕ} {x : Conn} (hx : Held s c x)
    (ids : List String) : (deliverLocal (allConns s) ids).count c = ids.count x.id := by
  rw [deliverLocal, List.count_filterMap, List.count_eq_countP]
  apply List.countP_congr
  intro id _
  rw [beq_iff_eq, beq_iff_eq, allConns_eq_some hn hd]
  refine ⟨?_, ?_⟩
  · rintro ⟨y, hy, rfl⟩
    obtain rfl : x = y := Option.some.inj (hx.1.symm.trans hy.1)
    rfl
  · rintro rfl
    exact ⟨x, hx, rfl⟩

theorem deliverLocal_shut {s : St} (hn : Numbering s) (hd : Distinct s) {c : ℕ} (hshut : ∀ x, ¬ Held s c x)
    (ids : List String) : (deliverLocal (allConns s) ids).count c = 0 := by
  rw [List.count_eq_zero, deliverLocal, List.mem_filterMap]
  rintro ⟨id, -, hid⟩
  obtain ⟨x, hx, -⟩ := (allConns_eq_some hn hd).1 hid
  exact hshut x hx

/-! ## Runs -/

section

variable {s : St} {p n : ℕ} {published : Bool} {req : PushRequest} {b : List Op}

/-- a listed connection that is open when the push is taken and at the end -/
theorem written_once (h : Live s) (htakes : Takes s p n published req)
    (hb : Along step (fun s o => Deployed s o ∧ Unwrapped s o) s (.post p n published :: b)) {c : ℕ} {x : Conn}
    (hx : Held s c x) (hx' : Held (run step s (.post p n published :: b)) c x)
    (hdone : (run step s (.post p n published :: b)).remaining x.process n = []) :
    (run step s (.post p n published :: b)).count n c = req.sessionIDs.count x.id := by
  obtain ⟨⟨hlive, hcount⟩, hb⟩ := hb
  rw [run_cons] at hx' hdone ⊢
  have htrack : Live (run step (step s (.post p n published)) b) ∧
      Track (run step (step s (.post p n published)) b) n req c :=
    run_inv (I := fun s => Live s ∧ Track s n req c)
      (fun s o hs hC => ⟨step_live hs.1 hC.1 hC.2, step_track hs.1 hC.1 hs.2⟩)
      ⟨step_live h hlive hcount, htakes.track h hx⟩ hb
  have htotal := htrack.2.total x hx'
  rwa [hdone, List.count_nil, Nat.add_zero] at htotal

/-- a connection that is not open when the push is taken, and is not opened -/
theorem written_never (h : Inv s) (ops : List Op) {c : ℕ} (hidle : Idle s n c) (hhold : .hold c ∉ ops) :
    Idle (run step s ops) n c := by
  have hall : Inv (run step s ops) ∧ Idle (run step s ops) n c := by
    refine run_inv (I := fun s => Inv s ∧ Idle s n c) (C := fun _ o => o ≠ .hold c) ?_ ⟨h, hidle⟩ ?_
    · rintro s o ⟨hinv, hidle⟩ hne
      refine ⟨step_inv hinv, ?_⟩
      rcases step_effect s o with heq | he
      · rwa [heq]
      · exact he.idle hinv hidle hne
    · apply along_of_mem
      rintro o ho rfl
      exact hhold ho
  exact hall.2

/-- an open connection that does not close -/
theorem held_stays (h : Inv s) {ops : List Op} (hC : Along step (fun s o => Deployed s o ∧ Unwrapped s o) s ops) {c : ℕ}
    {x : Conn} (hx : Held s c x) (hclose : .close c ∉ ops) : Held (run step s ops) c x := by
  have hne : Along step (fun _ o => o ≠ .close c) s ops := by
    apply along_of_mem
    rintro o ho rfl
    exact hclose ho
  have hall : Inv (run step s ops) ∧ Held (run step s ops) c x := by
    refine run_inv (I := fun s => Inv s ∧ Held s c x) ?_ ⟨h, hx⟩ (along_and hC hne)
    rintro s o ⟨hinv, hx⟩ ⟨⟨hlive, -⟩, hne⟩
    refine ⟨step_inv hinv, ?_⟩
    rcases step_effect s o with heq | he
    · rwa [heq]
    · exact he.stays hinv.numbering hlive hx hne
  exact hall.2

end

/-- **Fan-out.** In every run of replicas none of which has accepted 2^64 connections. -/
theorem fan_out (ops : List Op) (h : Along step (fun s o => Deployed s o ∧ Unwrapped s o) (init true) ops) :
    FanOut ops := by
  have hlive := reached_live h
  have hinv := hlive.inv
  have hle : ∀ n req c, (reached true ops).Taken n req → req.sessionIDs.Nodup → (reached true ops).count n c ≤ 1 := by
    intro n req c htaken hnodup
    cases hx : (reached true ops).conns c with
    | none => rw [hinv.deliveries.count_zero (.inr hx)]; exact Nat.zero_le _
    | some x =>
      have honce := hinv.deliveries.once n req c x htaken hx
      have hone := List.nodup_iff_count_le_one.1 hnodup x.id
      omega
  have hunlisted : ∀ n req c x, (reached true ops).Taken n req → (reached true ops).conns c = some x →
      x.id ∉ req.sessionIDs → (reached true ops).count n c = 0 := by
    intro n req c x htaken hx hid
    have honce := hinv.deliveries.once n req c x htaken hx
    rw [List.count_eq_zero.2 hid] at honce
    omega
  refine ⟨hlive.distinct, hunlisted, hle, ?_, ?_⟩
  · rintro a p n published b d req c x rfl htakes hnodup hid hx hx' hdone
    obtain ⟨hab, -⟩ := along_append.1 h
    obtain ⟨ha, hb⟩ := along_append.1 hab
    have honce : (reached true (a ++ .post p n published :: b)).count n c = 1 := by
      rw [reached, run_append] at hx' hdone ⊢
      rw [written_once (reached_live ha) htakes hb hx hx' hdone, List.count_eq_one_of_mem hnodup hid]
    have hmore : (reached true (a ++ .post p n published :: b)).count n c ≤
        (reached true (a ++ .post p n published :: b ++ d)).count n c := by
      rw [reached, reached, run_append (a := a ++ .post p n published :: b)]
      exact run_count n c _ d
    have htaken : (reached true (a ++ .post p n published :: b ++ d)).Taken n req := by
      rw [reached, List.append_assoc, run_append, List.cons_append, run_cons]
      exact run_taken htakes.taken _
    have := hle n req c htaken hnodup
    omega
  · rintro a p n published b req rfl htakes hdone hquiet c
    obtain ⟨ha, hb⟩ := along_append.1 h
    have hlive' := reached_live ha
    have htaken : (reached true (a ++ .post p n published :: b)).Taken n req := by
      rw [reached, run_append, run_cons]
      exact run_taken htakes.taken _
    by_cases hopen : ∃ x, Held (reached true a) c x
    · obtain ⟨x, hx⟩ := hopen
      rw [deliverLocal_count hlive'.inv.numbering hlive'.distinct hx]
      obtain ⟨y, hy, hkey⟩ := run_conn hlive'.inv hx.1 (.post p n published :: b)
      rw [← run_append] at hy
      have hid : y.id = x.id := congrArg (fun k => k.2.2) hkey
      by_cases hlisted : x.id ∈ req.sessionIDs
      · -- it stays open
        obtain ⟨-, hclose⟩ := hquiet c y hy (by rwa [hid])
        have hx' := held_stays hlive'.inv hb hx (by simpa using hclose)
        have hprocess := hdone x.process
        rw [reached, run_append] at hprocess ⊢
        exact written_once hlive' htakes hb hx hx' hprocess
      · rw [List.count_eq_zero.2 hlisted]
        exact hunlisted n req c y htaken hy (by rwa [hid])
    · -- it was not open, and if it is listed it stays so
      have hshut := not_exists.1 hopen
      rw [deliverLocal_shut hlive'.inv.numbering hlive'.distinct hshut]
      cases hy : (reached true (a ++ .post p n published :: b)).conns c with
      | none => exact hinv.deliveries.count_zero (.inr hy)
      | some y =>
        by_cases hlisted : y.id ∈ req.sessionIDs
        · obtain ⟨hhold, -⟩ := hquiet c y hy hlisted
          have hstep : Idle (step (reached true a) (.post p n published)) n c := by
            refine ⟨?_, htakes.count hlive'.inv c⟩
            obtain ⟨push, -, -, heq⟩ := htakes.step
            rw [heq]
            exact hshut
          have hidle := written_never (step_inv hlive'.inv) b hstep hhold
          rw [← run_cons, ← run_append] at hidle
          exact hidle.unwritten
        · exact hunlisted n req c y htaken hy hlisted

/-! ## A deployment, and one that has run for long -/

/-- two replicas, whose host names differ in a digit after the dash -/
def replicas : List Op := [.start 0 "gw-1", .start 1 "gw-11", .accept 0, .hold 0, .accept 1, .hold 1,
  .address (.request ⟨["gw-11-1", "gw-1-1"], "hi"⟩), .post 1 0 true, .deliver 0 0 true, .deliver 1 0 true,
  .deliver 0 0 true, .deliver 1 0 true]

theorem replicas_fan_out : FanOut replicas ∧ (reached true replicas).written = [⟨0, "gw-11-1", 1⟩, ⟨0, "gw-1-1", 0⟩] := by
  refine ⟨?_, by decide⟩
  apply fan_out
  have hidle : ∀ {s : St} {o : Op}, (∀ p, o ≠ .accept p) → Unwrapped s o := by
    intro s o ho p P heq
    exact absurd heq (ho p)
  refine ⟨⟨?_, hidle (by simp)⟩, ⟨?_, hidle (by simp)⟩, ⟨trivial, ?_⟩, ⟨trivial, hidle (by simp)⟩, ⟨trivial, ?_⟩,
    ⟨trivial, hidle (by simp)⟩, ⟨trivial, hidle (by simp)⟩, ⟨trivial, hidle (by simp)⟩, ⟨rfl, hidle (by simp)⟩,
    ⟨rfl, hidle (by simp)⟩, ⟨rfl, hidle (by simp)⟩, ⟨rfl, hidle (by simp)⟩, trivial⟩
  · intro q Q hQ
    cases hQ
  · rintro (_ | q) Q hQ
    · obtain rfl : newProcess "gw-1" = Q := Option.some.inj hQ
      decide
    · cases hQ
  · rintro p P ⟨⟩ hP
    obtain rfl : newProcess "gw-1" = P := Option.some.inj hP
    decide
  · rintro p P ⟨⟩ hP
    obtain rfl : newProcess "gw-11" = P := Option.some.inj hP
    decide

/-- one replica, and 2^64 + 1 connections -/
def manyConnections : List Op := .start 0 "gw" :: List.replicate (2 ^ 64 + 1) (.accept 0)

theorem seq_accepted (k : ℕ) : ∃ P, (reached true (.start 0 "gw" :: List.replicate k (.accept 0))).processes 0 = some P ∧
    P.running = true ∧ P.seq = k := by
  induction k with
  | zero => exact ⟨newProcess "gw", rfl, rfl, rfl⟩
  | succ k ih =>
    obtain ⟨P, hP, hrun, hseq⟩ := ih
    refine ⟨{ P with seq := P.seq + 1 }, ?_, hrun, by simp [hseq]⟩
    rw [List.replicate_succ', ← List.cons_append, reached, run_snoc]
    simp only [reached] at hP
    simp [step, hP, hrun, accept]

theorem not_distinct {k : ℕ} (hk : 2 ^ 64 ≤ k) :
    ¬ Distinct (reached true (.start 0 "gw" :: List.replicate (k + 1) (.accept 0))) := by
  intro hd
  obtain ⟨P, hP, hrun, hseq⟩ := seq_accepted k
  rw [List.replicate_succ', ← List.cons_append, reached, run_snoc] at hd
  have hlt := (sole_of_distinct (reached_inv true _) hd 0 P rfl hP hrun).1
  omega

theorem along_accepts (s : St) (k : ℕ) : Along step Deployed s (List.replicate k (.accept 0)) := by
  apply Along.mono (C := fun _ o => o = .accept 0)
  · rintro s o rfl
    trivial
  · apply along_of_mem
    intro o ho
    exact List.eq_of_mem_replicate ho

theorem ids_wrap : Along step Deployed (init true) manyConnections ∧ ¬ Distinct (reached true manyConnections) := by
  refine ⟨⟨?_, along_accepts _ _⟩, not_distinct le_rfl⟩
  intro q Q hQ
  cases hQ

/-- while a push is delivered, the second of its connections closes and then the first one opens -/
def changing : List Op := [.start 0 "gw-1", .start 1 "gw-2", .accept 0, .accept 1, .hold 1,
  .address (.request ⟨["gw-1-1", "gw-2-1"], "hi"⟩), .post 0 0 true, .deliver 1 0 true, .deliver 1 0 true, .close 1,
  .hold 0, .deliver 0 0 true, .deliver 0 0 true]

/-- ids are handed out twice after 2^64 connections; and two replicas may write both connections of a push that were never
open at one moment, so that no single table is what they have written -/
theorem wrapped_and_changing :
    (Along step Deployed (init true) manyConnections ∧ ¬ Distinct (reached true manyConnections)) ∧
      Along step Deployed (init true) changing ∧ (reached true changing).written.map Write.conn = [1, 0] ∧
      ∀ a ∈ changing.inits, ¬ [1, 0] ⊆ deliverLocal (allConns (reached true a)) ["gw-1-1", "gw-2-1"] := by
  refine ⟨ids_wrap, ⟨?_, ?_, trivial, trivial, trivial, trivial, trivial, rfl, rfl, trivial, trivial, rfl, rfl, trivial⟩,
    by decide, by decide⟩
  · intro q Q hQ
    cases hQ
  · intro q Q hQ
    cases q with
    | zero =>
      obtain rfl : newProcess "gw-1" = Q := Option.some.inj hQ
      decide
    | succ q => cases hQ

end Concordia.Gateway.Backplane
