/-
The life of a gateway's WebSocket connections (`ServeHTTP` and its deferred calls, `updateSubscription`, `runHeartbeats`,
`registerSession`, `deregisterSession` in `services/gateway/ws/handler.go`), with the presence service.

- A handler is one call of `ServeHTTP`. Its stages are the points at which other handlers can run; whatever ends it, it
  leaves through the deferred calls, the last one deferred first. `handlers` has the handlers of accepted requests in the
  order of their acceptance.
- A call to presence is served, answered with an error status and not applied, or not answered within 5 seconds; a
  registration that was not answered can still be applied later, or never.
- Heartbeats of any connection reach presence at any time, the cancelled ones too.
- `active` is an int32 and comes round at 2^31, `seq` a uint64 and comes round at 2^64; a connection id is its number.

Main results:
- `accounted`: as long as less than 2^64 connections were accepted, `active` counts the handlers that are running (if they
  are less than 2^31), the two tables have the same keys, and presence knows of no session but those of connections in the
  tables and of those that lost a call.
- `nothing_left`: once all these handlers have returned, whichever way, the counter and the tables are as at the start, and
  presence knows of no session unless a registration of its connection was not answered or its deregistration not served.
-/
import Concordia.Gateway.Subscription

namespace Concordia.Gateway.Lifecycle

open Concordia.Lib Concordia.Presence
open Concordia.Push (In)
open Function (update update_self update_of_ne)

/-! ## Model -/

inductive Stage where
  /-- the connection is upgraded -/
  | upgraded
  /-- `h.active.Add(1)` is done -/
  | counted
  /-- `h.seq.Add(1)` is done -/
  | numbered
  /-- the connection is in both tables -/
  | entered
  /-- presence has been called, and the heartbeats run -/
  | registered
  /-- the loop waits for a message -/
  | reading
  /-- `updateSubscription` has changed the set and is about to call presence -/
  | updating (channels : List String)
  /-- the heartbeats are cancelled -/
  | leaving
  | deregistered
  /-- the connection is in no table -/
  | removed
  /-- `h.active.Add(-1)` is done -/
  | uncounted
  | closed
deriving DecidableEq, Repr

/-- between `h.active.Add(1)` and `h.active.Add(-1)` -/
def Stage.running : Stage → Bool
  | .upgraded | .uncounted | .closed => false
  | _ => true

/-- has a connection id -/
def Stage.named : Stage → Bool
  | .upgraded | .counted => false
  | _ => true

/-- in the tables -/
def Stage.tabled : Stage → Bool
  | .entered | .registered | .reading | .updating _ | .leaving | .deregistered => true
  | _ => false

/-- after the call that registers the session, and before the one that deregisters it -/
def Stage.known : Stage → Bool
  | .registered | .reading | .updating _ | .leaving => true
  | _ => false

structure Handler where
  userId : String
  connId : ConnId
  stage : Stage
  /-- the registrations that were not answered and can still be applied -/
  late : List (List String)
  /-- a registration was not answered, or the deregistration was not served -/
  lost : Bool
deriving DecidableEq, Repr

structure St where
  /-- an int32 -/
  active : ℤ
  /-- a uint64 -/
  seq : ℕ
  /-- the handler whose connection it is -/
  conns : ConnId → Option ℕ
  subs : ConnId → Option (List String)
  presence : Presence.State
  handlers : List Handler

inductive Op where
  /-- a request is upgraded -/
  | accept (userId : String)
  /-- the handler goes on by itself -/
  | run (i : ℕ)
  /-- the call to presence that the handler is at -/
  | call (i : ℕ) (call : Call)
  /-- the welcome is written, or that fails -/
  | welcome (i : ℕ) (ok : Bool)
  /-- a subscription frame is read; the other frames change nothing here -/
  | frame (i : ℕ) (inMsg : In)
  /-- reading fails -/
  | fail (i : ℕ)
  /-- presence applies a registration that was not answered -/
  | late (i : ℕ) (channels : List String)
  /-- presence receives a heartbeat -/
  | heartbeat (k : ConnId)
  | tick (d : ℕ)
deriving DecidableEq

def init : St := ⟨0, 0, fun _ => none, fun _ => none, Presence.init, []⟩

/-- `atomic.Int32.Add` -/
def addInt32 (n d : ℤ) : ℤ := Int.bmod (n + d) (2 ^ 32)

/-- `atomic.Uint64.Add` -/
def addUint64 (n d : ℕ) : ℕ := (n + d) % 2 ^ 64

namespace St

/-- the handler goes on to another stage -/
def move (s : St) (i : ℕ) (h : Handler) (stage : Stage) : St := { s with handlers := s.handlers.set i { h with stage } }

/-- what a handler does by itself -/
def advance (s : St) (i : ℕ) (h : Handler) : St :=
  match h.stage with
  | .upgraded => { s.move i h .counted with active := addInt32 s.active 1 }
  | .counted => { s.move i { h with connId := addUint64 s.seq 1 } .numbered with seq := addUint64 s.seq 1 }
  | .numbered =>
    { s.move i h .entered with
      conns := update s.conns h.connId (some i)
      subs := update s.subs h.connId (some []) }
  | .deregistered =>
    { s.move i h .removed with conns := update s.conns h.connId none, subs := update s.subs h.connId none }
  | .removed => { s.move i h .uncounted with active := addInt32 s.active (-1) }
  | .uncounted => s.move i h .closed
  | _ => s

/-- the handler registers its session and goes on, served or not -/
def register (s : St) (i : ℕ) (h : Handler) (channels : List String) (stage : Stage) (call : Call) : St :=
  let h' := if call = .failed then { h with late := channels :: h.late, lost := true } else h
  { s.move i h' stage with presence := (registerSession s.presence h.userId h.connId channels call).1 }

/-- the handler's call to presence -/
def callPresence (s : St) (i : ℕ) (h : Handler) (call : Call) : St :=
  match h.stage with
  | .entered => s.register i h [] .registered call
  | .updating channels => s.register i h channels .reading call
  | .leaving =>
    { s.move i { h with lost := h.lost || decide (call ≠ .served) } .deregistered with
      presence := deregisterSession s.presence h.connId call }
  | _ => s

/-- `dispatch` and the first half of `updateSubscription` -/
def receive (s : St) (i : ℕ) (h : Handler) (inMsg : In) : St :=
  if inChannel inMsg = "" then s
  else
    match s.subs h.connId with
    | none => s
    | some set => { s.move i h (.updating (change inMsg set)) with subs := update s.subs h.connId (some (change inMsg set)) }

end St

def step (s : St) : Op → St
  | .accept userId => { s with handlers := s.handlers ++ [⟨userId, 0, .upgraded, [], false⟩] }
  | .run i =>
    match s.handlers[i]? with
    | some h => s.advance i h
    | none => s
  | .call i call =>
    match s.handlers[i]? with
    | some h => s.callPresence i h call
    | none => s
  | .welcome i ok =>
    match s.handlers[i]? with
    | some h => if h.stage = .registered then s.move i h (if ok then .reading else .leaving) else s
    | none => s
  | .frame i inMsg =>
    match s.handlers[i]? with
    | some h => if h.stage = .reading then s.receive i h inMsg else s
    | none => s
  | .fail i =>
    match s.handlers[i]? with
    | some h => if h.stage = .reading then s.move i h .leaving else s
    | none => s
  | .late i channels =>
    match s.handlers[i]? with
    | some h =>
      if channels ∈ h.late then
        { s with
          handlers := s.handlers.set i { h with late := h.late.erase channels }
          presence := (registerSession s.presence h.userId h.connId channels .served).1 }
      else s
    | none => s
  | .heartbeat k => { s with presence := Presence.step s.presence (.heartbeat k) }
  | .tick d => { s with presence := Presence.step s.presence (.tick d) }

def reached (ops : List Op) : St := run step init ops

/-- presence has a session for the connection -/
def Known (p : Presence.State) (k : ConnId) : Prop := (p.redis.hgetall p.now k).isSome = true

/-! ## The invariant -/

structure Inv (s : St) : Prop where
  active : s.active = Int.bmod (s.handlers.countP (·.stage.running)) (2 ^ 32)
  seq : s.seq = s.handlers.countP (·.stage.named)
  small : ∀ (i : ℕ) h, s.handlers[i]? = some h → h.stage.named = true → h.connId ≤ s.seq
  apart : ∀ (i j : ℕ) h h', s.handlers[i]? = some h → s.handlers[j]? = some h' → h.stage.named = true →
    h'.stage.named = true → h.connId = h'.connId → i = j
  conns : ∀ k i, s.conns k = some i ↔ ∃ h, s.handlers[i]? = some h ∧ h.stage.tabled = true ∧ h.connId = k
  subs : ∀ k, (s.subs k).isSome = (s.conns k).isSome
  known : ∀ k, Known s.presence k →
    ∃ (i : ℕ) (h : Handler), s.handlers[i]? = some h ∧ h.stage.named = true ∧ h.connId = k ∧
      (h.stage.known = true ∨ h.lost = true)
  late : ∀ (i : ℕ) h, s.handlers[i]? = some h → h.late ≠ [] → h.stage.named = true ∧ h.lost = true

theorem not_known_init (k : ConnId) : ¬ Known init.presence k := by
  simp [Known, init, Presence.init, Redis.hgetall, Redis.empty]

theorem inv_init : Inv init where
  active := by simp [init]
  seq := rfl
  small := fun i h hi => by cases hi
  apart := fun i j h h' hi => by cases hi
  conns := fun k i => ⟨fun hk => (by cases hk), fun ⟨h, hi, _⟩ => (by cases hi)⟩
  subs := fun k => rfl
  known := fun k hk => absurd hk (not_known_init k)
  late := fun i h hi => by cases hi

theorem tabled_named {stage : Stage} (h : stage.tabled = true) : stage.named = true := by
  cases stage <;> first | rfl | cases h

section

variable {s t : St} {i : ℕ} {h g : Handler}

theorem get_set (hi : s.handlers[i]? = some h) (j : ℕ) (x : Handler) : (s.handlers.set i g)[j]? = some x ↔
    (j = i ∧ x = g) ∨ (j ≠ i ∧ s.handlers[j]? = some x) := by
  obtain ⟨hlt, -⟩ := List.getElem?_eq_some_iff.1 hi
  rcases eq_or_ne j i with rfl | hne
  · simp [List.getElem?_set_self hlt, eq_comm]
  · simp [List.getElem?_set_ne hne.symm, hne]

/-- a count of handlers, one of which changes -/
theorem countP_set (p : Handler → Bool) (hi : s.handlers[i]? = some h) : ((s.handlers.set i g).countP p : ℤ) =
    s.handlers.countP p - (p h).toNat + (p g).toNat := by
  obtain ⟨hlt, rfl⟩ := List.getElem?_eq_some_iff.1 hi
  have hpos : p s.handlers[i] = true → 0 < s.handlers.countP p :=
    fun hr => List.countP_pos_iff.2 ⟨_, List.getElem_mem hlt, hr⟩
  rw [List.countP_set hlt]
  cases hr : p s.handlers[i] with
  | true =>
    have h1 := hpos hr
    cases p g <;> simp <;> omega
  | false => cases p g <;> simp

/-- the int32 stays -/
theorem Inv.active_same (hs : Inv s) (hrunning : g.stage.running = h.stage.running) :
    s.active = Int.bmod (s.active - h.stage.running.toNat + g.stage.running.toNat) (2 ^ 32) := by
  rw [hrunning, sub_add_cancel, hs.active, Int.bmod_bmod]

/-- it goes on with the handlers that are running -/
theorem Inv.active_moved (hs : Inv s) (hi : s.handlers[i]? = some h) :
    Int.bmod (s.active - h.stage.running.toNat + g.stage.running.toNat) (2 ^ 32) =
      Int.bmod ((s.handlers.set i g).countP (·.stage.running)) (2 ^ 32) := by
  have hsplit : s.active - h.stage.running.toNat + g.stage.running.toNat =
      s.active + ((g.stage.running.toNat : ℤ) - h.stage.running.toNat) := by ring
  rw [hsplit, hs.active, Int.bmod_add_bmod, countP_set _ hi]
  congr 1
  ring

/-- whose session presence has, if it is this handler's -/
theorem Inv.own (hs : Inv s) (hi : s.handlers[i]? = some h) (hnamed : h.stage.named = true)
    (hk : Known s.presence h.connId) : h.stage.known = true ∨ h.lost = true := by
  obtain ⟨j, x, hj, hx, hid, hknown⟩ := hs.known _ hk
  obtain rfl := hs.apart j i x h hj hi hx hnamed hid
  obtain rfl := Option.some.inj (hj.symm.trans hi)
  exact hknown

/-- a handler goes on, and what it does concerns its own connection only -/
theorem Inv.moved (hs : Inv s) (hi : s.handlers[i]? = some h) (hhandlers : t.handlers = s.handlers.set i g)
    (hseq : t.seq = s.seq) (hid : g.connId = h.connId) (hnamed : g.stage.named = h.stage.named)
    (hactive : t.active = Int.bmod (s.active - h.stage.running.toNat + g.stage.running.toNat) (2 ^ 32))
    (hconns : ∀ k, t.conns k =
      if k = h.connId ∧ g.stage.tabled ≠ h.stage.tabled then if g.stage.tabled then some i else none else s.conns k)
    (hsubs : ∀ k, (t.subs k).isSome = (t.conns k).isSome)
    (hother : ∀ k, ¬ (k = h.connId ∧ h.stage.named = true) → Known t.presence k → Known s.presence k)
    (hown : h.stage.named = true → Known t.presence h.connId → g.stage.known = true ∨ g.lost = true)
    (hlate : g.late ≠ [] → g.stage.named = true ∧ g.lost = true) : Inv t where
  active := by
    rw [hactive, hhandlers, hs.active_moved hi]
  seq := by
    have hcount := countP_set (g := g) (fun x => x.stage.named) hi
    rw [hnamed, sub_add_cancel, Nat.cast_inj] at hcount
    rw [hseq, hhandlers, hcount]
    exact hs.seq
  small := by
    intro j x hj hx
    rw [hhandlers, get_set hi] at hj
    rw [hseq]
    rcases hj with ⟨-, rfl⟩ | ⟨-, hj⟩
    · rw [hid]
      exact hs.small i h hi (hnamed ▸ hx)
    · exact hs.small j x hj hx
  apart := by
    intro j k x y hj hk hx hy hxy
    rw [hhandlers, get_set hi] at hj hk
    rcases hj with ⟨rfl, rfl⟩ | ⟨-, hj⟩
    · rcases hk with ⟨rfl, -⟩ | ⟨-, hk⟩
      · rfl
      · exact hs.apart j k h y hi hk (hnamed ▸ hx) hy (hid ▸ hxy)
    · rcases hk with ⟨rfl, rfl⟩ | ⟨-, hk⟩
      · exact hs.apart j k x h hj hi hx (hnamed ▸ hy) (hid ▸ hxy)
      · exact hs.apart j k x y hj hk hx hy hxy
  conns := by
    intro k j
    rw [hconns k, hhandlers]
    simp only [get_set hi]
    split_ifs with hk htabled
    · obtain ⟨rfl, hchange⟩ := hk
      refine ⟨fun heq => ⟨g, .inl ⟨(Option.some.inj heq).symm, rfl⟩, htabled, hid⟩, ?_⟩
      rintro ⟨x, ⟨rfl, -⟩ | ⟨hne, hj⟩, hx, hxid⟩
      · rfl
      · exact absurd (hs.apart j i x h hj hi (tabled_named hx) (hnamed ▸ tabled_named htabled) hxid) hne
    · obtain ⟨rfl, hchange⟩ := hk
      have hwas : h.stage.tabled = true := by
        rw [Bool.not_eq_true] at htabled
        rw [htabled] at hchange
        exact Bool.eq_true_of_not_eq_false (Ne.symm hchange)
      refine ⟨fun heq => (by cases heq), ?_⟩
      rintro ⟨x, ⟨rfl, rfl⟩ | ⟨hne, hj⟩, hx, hxid⟩
      · exact absurd hx htabled
      · exact absurd (hs.apart j i x h hj hi (tabled_named hx) (tabled_named hwas) hxid) hne
    · rw [hs.conns k j]
      have hsame : k = h.connId → g.stage.tabled = h.stage.tabled := fun heq => by
        by_contra hne
        exact hk ⟨heq, hne⟩
      refine ⟨?_, ?_⟩
      · rintro ⟨x, hj, hx, hxid⟩
        rcases eq_or_ne j i with rfl | hne
        · obtain rfl := Option.some.inj (hj.symm.trans hi)
          exact ⟨g, .inl ⟨rfl, rfl⟩, (hsame hxid.symm).trans hx, hid.trans hxid⟩
        · exact ⟨x, .inr ⟨hne, hj⟩, hx, hxid⟩
      · rintro ⟨x, ⟨rfl, rfl⟩ | ⟨-, hj⟩, hx, hxid⟩
        · have hkid : k = h.connId := hxid.symm.trans hid
          exact ⟨h, hi, (hsame hkid).symm.trans hx, hkid.symm⟩
        · exact ⟨x, hj, hx, hxid⟩
  subs := hsubs
  known := by
    intro k hk
    rw [hhandlers]
    simp only [get_set hi]
    by_cases hmine : k = h.connId ∧ h.stage.named = true
    · obtain ⟨rfl, hn⟩ := hmine
      exact ⟨i, g, .inl ⟨rfl, rfl⟩, hnamed.trans hn, hid, hown hn hk⟩
    · obtain ⟨j, x, hj, hx, hxid, hknown⟩ := hs.known k (hother k hmine hk)
      refine ⟨j, x, .inr ⟨?_, hj⟩, hx, hxid, hknown⟩
      rintro rfl
      obtain rfl := Option.some.inj (hj.symm.trans hi)
      exact hmine ⟨hxid.symm, hx⟩
  late := by
    intro j x hj hx
    rw [hhandlers, get_set hi] at hj
    rcases hj with ⟨-, rfl⟩ | ⟨-, hj⟩
    · exact hlate hx
    · exact hs.late j x hj hx

end

/-! ## Presence -/

theorem known_registerSession {p : Presence.State} {userId : String} {k q : ConnId} {channels : List String} {call : Call}
    (hq : q ≠ k) : Known (registerSession p userId k channels call).1 q ↔ Known p q := by
  rw [Known, hgetall_registerSession, if_neg (by simp [hq])]
  exact Iff.rfl

theorem known_deregisterSession {p : Presence.State} {k q : ConnId} {call : Call} (hq : q ≠ k) :
    Known (deregisterSession p k call) q ↔ Known p q := by
  rw [Known, hgetall_deregisterSession p k q call hq]
  exact Iff.rfl

theorem not_known_served (p : Presence.State) (k : ConnId) : ¬ Known (deregisterSession p k .served) k := by
  simp [Known, deregisterSession, Presence.step, Redis.hgetall_deregister]

/-- a heartbeat makes no session -/
theorem known_heartbeat (p : Presence.State) (k q : ConnId) :
    Known (Presence.step p (.heartbeat k)) q ↔ Known p q := by
  simp [Known, Presence.step, Redis.hgetall_heartbeat]

theorem known_tick {p : Presence.State} {d : ℕ} {q : ConnId} (h : Known (Presence.step p (.tick d)) q) : Known p q := by
  rw [Known, Presence.step, Redis.hgetall_later] at h
  cases hx : p.redis.hgetall p.now q with
  | none => simp [hx] at h
  | some x => simp [Known, hx]

/-! ## One step -/

section

variable {s : St} {i : ℕ} {h : Handler}

/-- a handler that changes nothing but its stage -/
theorem Inv.stays (hs : Inv s) (hi : s.handlers[i]? = some h) (stage : Stage) (hrunning : stage.running = h.stage.running)
    (hnamed : stage.named = h.stage.named) (htabled : stage.tabled = h.stage.tabled)
    (hknown : h.stage.known = true → stage.known = true) : Inv (s.move i h stage) := by
  refine hs.moved hi (g := { h with stage }) rfl rfl rfl hnamed ?_ ?_ hs.subs (fun _ _ hk => hk) ?_ ?_
  · exact hs.active_same hrunning
  · intro k
    simp [St.move, htabled]
  · exact fun hn hk => (hs.own hi hn hk).imp_left hknown
  · intro hl
    rw [hnamed]
    exact hs.late i h hi hl

/-- a connection is entered into the tables, or taken out -/
theorem Inv.tabled (hs : Inv s) (hi : s.handlers[i]? = some h) (stage : Stage) (set : Option (List String))
    (hrunning : stage.running = h.stage.running) (hnamed : stage.named = true) (hwas : h.stage.named = true)
    (htabled : stage.tabled ≠ h.stage.tabled) (hset : set.isSome = stage.tabled) (hknown : h.stage.known = false) :
    Inv { s.move i h stage with
      conns := update s.conns h.connId (if stage.tabled then some i else none)
      subs := update s.subs h.connId set } := by
  refine hs.moved hi (g := { h with stage }) rfl rfl rfl (hnamed.trans hwas.symm) ?_ ?_ ?_ (fun _ _ hk => hk) ?_ ?_
  · exact hs.active_same hrunning
  · intro k
    rcases eq_or_ne k h.connId with rfl | hne
    · simp [htabled]
    · simp [hne]
  · intro k
    rcases eq_or_ne k h.connId with rfl | hne
    · cases htab : stage.tabled with
      | _ => simp [hset, htab]
    · simpa [hne] using hs.subs k
  · intro hn hk
    refine (hs.own hi hn hk).imp_left fun h' => ?_
    rw [hknown] at h'
    cases h'
  · exact fun hl => ⟨hnamed, (hs.late i h hi hl).2⟩

/-- a connection id is given, the next one -/
theorem Inv.numbered (hs : Inv s) (hfew : s.handlers.length < 2 ^ 64) (hi : s.handlers[i]? = some h)
    (hstage : h.stage = .counted) : Inv (s.advance i h) := by
  have hunnamed : h.stage.named ≠ true := by simp [hstage, Stage.named]
  -- as many ids are given as handlers have one, so the counter has not come round
  have hcount : (s.handlers.set i { h with connId := s.seq + 1, stage := .numbered }).countP (·.stage.named) = s.seq + 1 := by
    have hset := countP_set (g := { h with connId := s.seq + 1, stage := .numbered }) (·.stage.named) hi
    rw [hstage, ← hs.seq, show Stage.counted.named = false from rfl, show Stage.numbered.named = true from rfl,
      Bool.toNat_false, Bool.toNat_true] at hset
    omega
  have hroom : s.seq + 1 ≤ s.handlers.length := by
    rw [← hcount, ← List.length_set]
    exact List.countP_le_length
  have hnext : addUint64 s.seq 1 = s.seq + 1 := Nat.mod_eq_of_lt (hroom.trans_lt hfew)
  have hstep : s.advance i h = { s with
      handlers := s.handlers.set i { h with connId := s.seq + 1, stage := .numbered }, seq := s.seq + 1 } := by
    simp [St.advance, hstage, St.move, hnext]
  have hnew : ∀ (j : ℕ) x, s.handlers[j]? = some x → x.stage.named = true → x.connId ≠ s.seq + 1 := fun j x hj hx =>
    (Nat.lt_succ_of_le (hs.small j x hj hx)).ne
  have hnot : ∀ (j : ℕ) x, s.handlers[j]? = some x → x.stage.named = true → j ≠ i := by
    rintro j x hj hx rfl
    obtain rfl := Option.some.inj (hj.symm.trans hi)
    exact hunnamed hx
  rw [hstep]
  refine ⟨?_, hcount.symm, ?_, ?_, ?_, hs.subs, ?_, ?_⟩
  · show s.active = _
    rw [← hs.active_moved hi]
    exact hs.active_same (by rw [hstage]; rfl)
  · intro j x hj hx
    rcases (get_set hi j x).1 hj with ⟨-, rfl⟩ | ⟨-, hj⟩
    · exact le_rfl
    · exact (hs.small j x hj hx).trans (Nat.le_succ _)
  · intro j k x y hj hk hx hy hxy
    rcases (get_set hi j x).1 hj with ⟨rfl, rfl⟩ | ⟨-, hj⟩
    · rcases (get_set hi k y).1 hk with ⟨rfl, -⟩ | ⟨-, hk⟩
      · rfl
      · exact absurd hxy.symm (hnew k y hk hy)
    · rcases (get_set hi k y).1 hk with ⟨rfl, rfl⟩ | ⟨-, hk⟩
      · exact absurd hxy (hnew j x ‹_› hx)
      · exact hs.apart j k x y hj hk hx hy hxy
  · intro k j
    rw [hs.conns k j]
    refine exists_congr fun x => ?_
    rw [get_set hi]
    refine ⟨?_, ?_⟩
    · rintro ⟨hj, hx, hid⟩
      exact ⟨.inr ⟨hnot j x hj (tabled_named hx), hj⟩, hx, hid⟩
    · rintro ⟨⟨-, rfl⟩ | ⟨-, hj⟩, hx, hid⟩
      · cases hx
      · exact ⟨hj, hx, hid⟩
  · intro k hk
    obtain ⟨j, x, hj, hx, hid, hknown⟩ := hs.known k hk
    exact ⟨j, x, (get_set hi j x).2 (.inr ⟨hnot j x hj hx, hj⟩), hx, hid, hknown⟩
  · intro j x hj hx
    rcases (get_set hi j x).1 hj with ⟨-, rfl⟩ | ⟨-, hj⟩
    · exact absurd (hs.late i h hi hx).1 hunnamed
    · exact hs.late j x hj hx

theorem Inv.advance (hs : Inv s) (hfew : s.handlers.length < 2 ^ 64) (hi : s.handlers[i]? = some h) :
    Inv (s.advance i h) := by
  have hsame : ∀ k, ¬ (k = h.connId ∧ h.stage.named = true) → Known s.presence k → Known s.presence k := fun _ _ hk => hk
  cases hstage : h.stage with
  | counted => exact hs.numbered hfew hi hstage
  | upgraded =>
    simp only [St.advance, hstage]
    refine hs.moved hi (g := { h with stage := .counted }) rfl rfl rfl (by rw [hstage]; rfl) ?_ ?_ hs.subs hsame ?_ ?_
    · simp [hstage, Stage.running, addInt32]
    · simp [hstage, Stage.tabled, St.move]
    · intro hn
      rw [hstage] at hn
      cases hn
    · intro hl
      have hn := (hs.late i h hi hl).1
      rw [hstage] at hn
      cases hn
  | numbered =>
    simp only [St.advance, hstage]
    exact hs.tabled hi .entered (some []) (by rw [hstage]; rfl) rfl (by rw [hstage]; rfl) (by rw [hstage]; decide) rfl
      (by rw [hstage]; rfl)
  | deregistered =>
    simp only [St.advance, hstage]
    exact hs.tabled hi .removed none (by rw [hstage]; rfl) rfl (by rw [hstage]; rfl) (by rw [hstage]; decide) rfl
      (by rw [hstage]; rfl)
  | removed =>
    simp only [St.advance, hstage]
    refine hs.moved hi (g := { h with stage := .uncounted }) rfl rfl rfl (by rw [hstage]; rfl) ?_ ?_ hs.subs hsame ?_ ?_
    · simp [hstage, Stage.running, addInt32, sub_eq_add_neg]
    · simp [hstage, Stage.tabled, St.move]
    · intro hn hk
      exact (hs.own hi hn hk).imp_left fun hknown => by rw [hstage] at hknown; cases hknown
    · exact fun hl => ⟨rfl, (hs.late i h hi hl).2⟩
  | uncounted =>
    simp only [St.advance, hstage]
    refine hs.stays hi .closed (by rw [hstage]; rfl) (by rw [hstage]; rfl) (by rw [hstage]; rfl) fun hknown => ?_
    rw [hstage] at hknown
    cases hknown
  | entered | registered | reading | updating | leaving | closed =>
    simp only [St.advance, hstage]
    exact hs

/-- the session is registered: presence may know it from then on -/
theorem Inv.register (hs : Inv s) (hi : s.handlers[i]? = some h) (channels : List String) (stage : Stage) (call : Call)
    (hwas : h.stage.tabled = true) (hrun : h.stage.running = true) (hnow : stage.tabled = true)
    (hthen : stage.running = true) (hknown : stage.known = true) : Inv (s.register i h channels stage call) := by
  have hset : ∃ late lost, s.register i h channels stage call = { s with
        handlers := s.handlers.set i { h with stage, late, lost }
        presence := (registerSession s.presence h.userId h.connId channels call).1 } ∧ (late ≠ [] → lost = true) := by
    unfold St.register
    by_cases hc : call = .failed
    · exact ⟨channels :: h.late, true, by simp [hc, St.move], fun _ => rfl⟩
    · exact ⟨h.late, h.lost, by simp [hc, St.move], fun hl => (hs.late i h hi hl).2⟩
  obtain ⟨late, lost, hstep, hlate⟩ := hset
  rw [hstep]
  refine hs.moved hi (g := { h with stage, late, lost }) rfl rfl rfl ?_ ?_ ?_ hs.subs ?_ ?_ ?_
  · exact (tabled_named hnow).trans (tabled_named hwas).symm
  · exact hs.active_same (hthen.trans hrun.symm)
  · intro k
    simp [hwas, hnow]
  · intro k hk hkn
    exact (known_registerSession fun heq => hk ⟨heq, tabled_named hwas⟩).1 hkn
  · exact fun _ _ => .inl hknown
  · exact fun hl => ⟨tabled_named hnow, hlate hl⟩

theorem Inv.callPresence (hs : Inv s) (hi : s.handlers[i]? = some h) (call : Call) : Inv (s.callPresence i h call) := by
  cases hstage : h.stage with
  | entered =>
    simp only [St.callPresence, hstage]
    exact hs.register hi [] .registered call (by rw [hstage]; rfl) (by rw [hstage]; rfl) rfl rfl rfl
  | updating channels =>
    simp only [St.callPresence, hstage]
    exact hs.register hi channels .reading call (by rw [hstage]; rfl) (by rw [hstage]; rfl) rfl rfl rfl
  | leaving =>
    simp only [St.callPresence, hstage]
    refine hs.moved hi (g := { h with stage := .deregistered, lost := h.lost || decide (call ≠ .served) }) rfl rfl rfl
      (by rw [hstage]; rfl) ?_ ?_ hs.subs ?_ ?_ ?_
    · exact hs.active_same (by rw [hstage]; rfl)
    · simp [hstage, Stage.tabled, St.move]
    · intro k hk hkn
      exact (known_deregisterSession fun heq => hk ⟨heq, by rw [hstage]; rfl⟩).1 hkn
    · intro hn hk
      by_cases hc : call = .served
      · subst hc
        exact absurd hk (not_known_served _ _)
      · exact .inr (by simp [hc])
    · intro hl
      exact ⟨rfl, by simp [(hs.late i h hi hl).2]⟩
  | upgraded | counted | numbered | registered | reading | deregistered | removed | uncounted | closed =>
    simp only [St.callPresence, hstage]
    exact hs

theorem Inv.receive (hs : Inv s) (hi : s.handlers[i]? = some h) (hstage : h.stage = .reading) (inMsg : In) :
    Inv (s.receive i h inMsg) := by
  unfold St.receive
  split_ifs with hc
  · exact hs
  · cases hset : s.subs h.connId with
    | none => exact hs
    | some set =>
      refine hs.moved hi (g := { h with stage := .updating (change inMsg set) }) rfl rfl rfl (by rw [hstage]; rfl)
        ?_ ?_ ?_ (fun _ _ hk => hk) ?_ ?_
      · exact hs.active_same (by rw [hstage]; rfl)
      · simp [hstage, Stage.tabled, St.move]
      · intro k
        rcases eq_or_ne k h.connId with rfl | hne
        · simpa [hset, St.move] using hs.subs h.connId
        · simpa [hne, St.move] using hs.subs k
      · exact fun _ _ => .inl rfl
      · exact fun hl => ⟨rfl, (hs.late i h hi hl).2⟩

/-- a registration is applied after its caller gave it up -/
theorem Inv.apply_late (hs : Inv s) (hi : s.handlers[i]? = some h) {channels : List String} (hin : channels ∈ h.late) :
    Inv { s with
      handlers := s.handlers.set i { h with late := h.late.erase channels }
      presence := (registerSession s.presence h.userId h.connId channels .served).1 } := by
  obtain ⟨hnamed, hlost⟩ := hs.late i h hi (List.ne_nil_of_mem hin)
  refine hs.moved hi (g := { h with late := h.late.erase channels }) rfl rfl rfl rfl ?_ ?_ hs.subs ?_ ?_ ?_
  · exact hs.active_same rfl
  · intro k
    simp
  · intro k hk hkn
    exact (known_registerSession fun heq => hk ⟨heq, hnamed⟩).1 hkn
  · exact fun _ _ => .inr hlost
  · exact fun _ => ⟨hnamed, hlost⟩

/-- presence changes by itself -/
theorem Inv.presence (hs : Inv s) (p : Presence.State) (hp : ∀ k, Known p k → Known s.presence k) :
    Inv { s with presence := p } :=
  ⟨hs.active, hs.seq, hs.small, hs.apart, hs.conns, hs.subs, fun k hk => hs.known k (hp k hk), hs.late⟩

end

theorem Inv.accept {s : St} (hs : Inv s) (userId : String) : Inv (step s (.accept userId)) := by
  have hget : ∀ (j : ℕ) (x : Handler), (s.handlers ++ [⟨userId, 0, .upgraded, [], false⟩])[j]? = some x →
      s.handlers[j]? = some x ∨ x = ⟨userId, 0, .upgraded, [], false⟩ := by
    intro j x hj
    rw [List.getElem?_append] at hj
    split_ifs at hj with hlt
    · exact .inl hj
    · exact .inr (List.mem_singleton.1 (List.mem_of_getElem? hj))
  have hold : ∀ (j : ℕ) (x : Handler), s.handlers[j]? = some x →
      (s.handlers ++ [⟨userId, 0, .upgraded, [], false⟩])[j]? = some x := fun j x hj => by
    rw [List.getElem?_append_left (List.getElem?_eq_some_iff.1 hj).1, hj]
  refine ⟨?_, ?_, ?_, ?_, ?_, hs.subs, ?_, ?_⟩
  · show s.active = _
    rw [hs.active]
    simp [step, Stage.running]
  · show s.seq = _
    rw [hs.seq]
    simp [step, Stage.named]
  · intro j x hj hx
    rcases hget j x hj with hj | rfl
    · exact hs.small j x hj hx
    · cases hx
  · intro j k x y hj hk hx hy hxy
    rcases hget j x hj with hj | rfl
    · rcases hget k y hk with hk | rfl
      · exact hs.apart j k x y hj hk hx hy hxy
      · cases hy
    · cases hx
  · intro k j
    refine (hs.conns k j).trans ⟨fun ⟨x, hj, hx⟩ => ⟨x, hold j x hj, hx⟩, ?_⟩
    rintro ⟨x, hj, hx, hid⟩
    rcases hget j x hj with hj | rfl
    · exact ⟨x, hj, hx, hid⟩
    · cases hx
  · intro k hk
    obtain ⟨j, x, hj, hx⟩ := hs.known k hk
    exact ⟨j, x, hold j x hj, hx⟩
  · intro j x hj hx
    rcases hget j x hj with hj | rfl
    · exact hs.late j x hj hx
    · exact absurd rfl hx

theorem step_inv {s : St} (hs : Inv s) (hfew : s.handlers.length < 2 ^ 64) (o : Op) : Inv (step s o) := by
  cases o with
  | accept userId => exact hs.accept userId
  | run i =>
    cases hi : s.handlers[i]? with
    | none => simpa [step, hi] using hs
    | some h => simpa [step, hi] using hs.advance hfew hi
  | call i call =>
    cases hi : s.handlers[i]? with
    | none => simpa [step, hi] using hs
    | some h => simpa [step, hi] using hs.callPresence hi call
  | welcome i ok =>
    cases hi : s.handlers[i]? with
    | none => simpa [step, hi] using hs
    | some h =>
      simp only [step, hi]
      split_ifs with hstage hok
      · exact hs.stays hi .reading (by rw [hstage]; rfl) (by rw [hstage]; rfl) (by rw [hstage]; rfl) fun _ => rfl
      · exact hs.stays hi .leaving (by rw [hstage]; rfl) (by rw [hstage]; rfl) (by rw [hstage]; rfl) fun _ => rfl
      · exact hs
  | frame i inMsg =>
    cases hi : s.handlers[i]? with
    | none => simpa [step, hi] using hs
    | some h =>
      simp only [step, hi]
      split_ifs with hstage
      · exact hs.receive hi hstage inMsg
      · exact hs
  | fail i =>
    cases hi : s.handlers[i]? with
    | none => simpa [step, hi] using hs
    | some h =>
      simp only [step, hi]
      split_ifs with hstage
      · exact hs.stays hi .leaving (by rw [hstage]; rfl) (by rw [hstage]; rfl) (by rw [hstage]; rfl) fun _ => rfl
      · exact hs
  | late i channels =>
    cases hi : s.handlers[i]? with
    | none => simpa [step, hi] using hs
    | some h =>
      simp only [step, hi]
      split_ifs with hin
      · exact hs.apply_late hi hin
      · exact hs
  | heartbeat k => exact hs.presence _ fun q => (known_heartbeat s.presence k q).1
  | tick d => exact hs.presence _ fun q => known_tick

/-! ## Every run -/

/-- handlers are added only -/
theorem length_step (s : St) (o : Op) : s.handlers.length ≤ (step s o).handlers.length := by
  cases o with
  | accept userId => simp [step]
  | run i =>
    simp only [step]
    split
    · next h _ =>
      unfold St.advance
      cases h.stage <;> simp [St.move]
    · exact le_rfl
  | call i call =>
    simp only [step]
    split
    · next h _ =>
      unfold St.callPresence
      cases h.stage <;> simp [St.move, St.register]
    · exact le_rfl
  | welcome i ok =>
    simp only [step]
    split
    · split_ifs <;> simp [St.move]
    · exact le_rfl
  | frame i inMsg =>
    simp only [step]
    split
    · unfold St.receive
      split_ifs
      · exact le_rfl
      · split <;> simp [St.move]
      · exact le_rfl
    · exact le_rfl
  | fail i =>
    simp only [step]
    split
    · split_ifs <;> simp [St.move]
    · exact le_rfl
  | late i channels =>
    simp only [step]
    split
    · split_ifs <;> simp
    · exact le_rfl
  | heartbeat k => exact le_rfl
  | tick d => exact le_rfl

theorem reached_inv {ops : List Op} (hfew : (reached ops).handlers.length < 2 ^ 64) : Inv (reached ops) := by
  refine run_inv' (I := fun s => s.handlers.length < 2 ^ 64 → Inv s) (fun s o hs hlater => ?_) (fun _ => inv_init) ops hfew
  have hbefore := (length_step s o).trans_lt hlater
  exact step_inv (hs hbefore) hbefore o

/-- what the counter, the tables and presence have, whatever the handlers are doing, as long as no connection id has been
given twice -/
theorem accounted (ops : List Op) (hfew : (reached ops).handlers.length < 2 ^ 64) :
    ((reached ops).handlers.countP (·.stage.running) < 2 ^ 31 →
        (reached ops).active = (reached ops).handlers.countP (·.stage.running)) ∧
      (∀ k, (∃ i, (reached ops).conns k = some i) ↔
        ∃ h ∈ (reached ops).handlers, h.stage.tabled = true ∧ h.connId = k) ∧
      (∀ k, ((reached ops).subs k).isSome = ((reached ops).conns k).isSome) ∧
      ∀ k, Known (reached ops).presence k →
        ∃ h ∈ (reached ops).handlers, h.connId = k ∧ (h.stage.known = true ∨ h.lost = true) := by
  have hs := reached_inv hfew
  refine ⟨fun hrunning => ?_, fun k => ⟨?_, ?_⟩, hs.subs, fun k hk => ?_⟩
  · rw [hs.active]
    apply Int.bmod_eq_of_le <;> omega
  · rintro ⟨i, hi⟩
    obtain ⟨h, hget, hh⟩ := (hs.conns k i).1 hi
    exact ⟨h, List.mem_of_getElem? hget, hh⟩
  · rintro ⟨h, hmem, hh⟩
    obtain ⟨i, hi⟩ := List.mem_iff_getElem?.1 hmem
    exact ⟨i, (hs.conns k i).2 ⟨h, hi, hh⟩⟩
  · obtain ⟨i, h, hi, -, hid, hknown⟩ := hs.known k hk
    exact ⟨h, List.mem_of_getElem? hi, hid, hknown⟩

/-- however its connections ended, a gateway whose handlers have all returned is as at its start, lost calls apart -/
theorem nothing_left {ops : List Op} (hfew : (reached ops).handlers.length < 2 ^ 64)
    (hdone : ∀ h ∈ (reached ops).handlers, h.stage = .closed) :
    (reached ops).active = 0 ∧ (∀ k, (reached ops).conns k = none ∧ (reached ops).subs k = none) ∧
      ∀ k, Known (reached ops).presence k → ∃ h ∈ (reached ops).handlers, h.connId = k ∧ h.lost = true := by
  obtain ⟨hactive, hconns, hsubs, hknown⟩ := accounted ops hfew
  have hnone : ∀ k, (reached ops).conns k = none := by
    intro k
    refine Option.eq_none_iff_forall_ne_some.2 fun i hi => ?_
    obtain ⟨h, hmem, htabled, -⟩ := (hconns k).1 ⟨i, hi⟩
    rw [hdone h hmem] at htabled
    cases htabled
  have hstill : (reached ops).handlers.countP (·.stage.running) = 0 :=
    List.countP_eq_zero.2 fun h hmem => by simp [hdone h hmem, Stage.running]
  refine ⟨?_, fun k => ⟨hnone k, ?_⟩, fun k hk => ?_⟩
  · rw [hactive (by rw [hstill]; exact Nat.two_pow_pos 31), hstill]
    rfl
  · simpa [hnone k] using hsubs k
  · obtain ⟨h, hmem, hid, hkn | hlost⟩ := hknown k hk
    · rw [hdone h hmem] at hkn
      cases hkn
    · exact ⟨h, hmem, hid, hlost⟩

/-- a connection that subscribes and is then cut; the last argument is what its deregistration meets -/
def oneConnection (call : Call) : List Op :=
  [.accept "ana", .run 0, .run 0, .run 0, .call 0 .served, .welcome 0 true, .frame 0 (.subscribe "c1"), .call 0 .served,
    .fail 0, .call 0 call, .run 0, .run 0, .run 0]

theorem oneConnection_accounted : (reached (oneConnection .served)).active = 0 ∧
    ∀ k, ((reached (oneConnection .served)).subs k).isSome = ((reached (oneConnection .served)).conns k).isSome := by
  obtain ⟨hactive, -, hsubs, -⟩ := accounted (oneConnection .served) (by decide)
  exact ⟨hactive (by decide), hsubs⟩

-- presence keeps the session of a connection that is gone
example : (reached (oneConnection .failed)).active = 0 ∧
    ((reached (oneConnection .failed)).presence.redis.hgetall 0 1).isSome = true := by decide

end Concordia.Gateway.Lifecycle
