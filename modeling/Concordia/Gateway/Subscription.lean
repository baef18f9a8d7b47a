/-
A connection's channel set at the gateway (`updateSubscription`, `registerSession` in `services/gateway/ws/handler.go`)
and the set presence has recorded for it.

Each frame makes one registration call, and the call is part of the frame: presence serves it, or answers an error status
without applying it, or there is no answer. Connections come and go and their frames interleave. Sessions do not expire
here (the gateway renews them every 2 minutes), and sets are lists compared as sets.

- `subscription_agreed_iff`: the client is told what both sides hold, after every frame of a run, iff every frame that
  changes the connection's set has its registration applied.
- `refused_yet_acked`: presence answers 500, the client is told it is subscribed, and presence has not heard of it.
-/
import Concordia.Push.System
import Concordia.Presence.Sessions

namespace Concordia.Gateway

open Concordia.Lib Concordia.Presence
open Concordia.Push (In Out)
open Function (update update_self update_of_ne)

/-! ## The code -/

/-- an HTTP error status -/
abbrev ErrorStatus := {n : ℕ // 400 ≤ n ∧ n < 600}

/-- what becomes of a request to presence -/
inductive Call where
  | served
  /-- answered, but not applied -/
  | refused (status : ErrorStatus)
  /-- no answer: a connection error -/
  | failed
deriving DecidableEq

structure State where
  /-- the number in the latest connection id -/
  seq : ℕ
  user : ConnId → String
  subs : ConnId → Option (List String)
  presence : Presence.State

def init : State := ⟨0, fun _ => "", fun _ => none, Presence.init⟩

/-- presence after the call, and whether the call returns an error; the status of the answer is not looked at -/
def registerSession (p : Presence.State) (userId : String) (k : ConnId) (channels : List String) :
    Call → Presence.State × Bool
  | .served => (Presence.step p (.register (some ⟨some k, userId, channels⟩)), false)
  | .refused _ => (p, false)
  | .failed => (p, true)

def deregisterSession (p : Presence.State) (k : ConnId) : Call → Presence.State
  | .served => Presence.step p (.deregister k)
  | _ => p

def inChannel : In → String
  | .subscribe channelId | .unsubscribe channelId => channelId

/-- the channel set after a frame -/
def change : In → List String → List String
  | .subscribe channelId, set => addRow channelId set
  | .unsubscribe channelId, set => set.filter (· ≠ channelId)

def ackOf : In → Out
  | .subscribe channelId => .ack (.subscribed channelId)
  | .unsubscribe channelId => .ack (.unsubscribed channelId)

/-- the set is changed first, then registered; the error is reported, the change is not taken back -/
def updateSubscription (s : State) (k : ConnId) (inMsg : In) (call : Call) : State × Option Out :=
  match s.subs k with
  | none => (s, none)
  | some set =>
    let channels := change inMsg set
    let (presence, err) := registerSession s.presence (s.user k) k channels call
    ({ s with subs := update s.subs k (some channels), presence },
      some (if err then .error "subscribe failed" else ackOf inMsg))

def dispatch (s : State) (k : ConnId) (inMsg : In) (call : Call) : State × Option Out :=
  if inChannel inMsg = "" then (s, some (.error "channel_id required")) else updateSubscription s k inMsg call

inductive Op where
  /-- a new connection; that its registration failed is only logged -/
  | open (userId : String) (call : Call)
  | frame (k : ConnId) (inMsg : In) (call : Call)
  | close (k : ConnId) (call : Call)
deriving DecidableEq

def step (s : State) : Op → State
  | .open userId call =>
    let k := s.seq + 1
    { seq := k
      user := update s.user k userId
      subs := update s.subs k (some [])
      presence := (registerSession s.presence userId k [] call).1 }
  | .frame k inMsg call => (dispatch s k inMsg call).1
  | .close k call =>
    { s with subs := update s.subs k none, presence := deregisterSession s.presence k call }

/-! ## What the client may conclude -/

def SameSet (a b : List String) : Prop := ∀ c, c ∈ a ↔ c ∈ b

/-- the channels presence has recorded for a connection -/
def recorded (p : Presence.State) (k : ConnId) : List String :=
  ((p.redis.hgetall p.now k).map Session.subscribedChannels).getD []

/-- the frame was acknowledged and both sides made its change to the set, or an error was sent and neither did -/
def Agreed (s : State) (k : ConnId) (inMsg : In) (call : Call) (set : List String) : Prop :=
  ∃ set', (dispatch s k inMsg call).1.subs k = some set' ∧
    (((dispatch s k inMsg call).2 = some (ackOf inMsg) ∧ SameSet set' (change inMsg set) ∧
        SameSet (recorded (dispatch s k inMsg call).1.presence k) (change inMsg set)) ∨
      ((∃ e, (dispatch s k inMsg call).2 = some (.error e)) ∧ SameSet set' set ∧
        SameSet (recorded (dispatch s k inMsg call).1.presence k) (recorded s.presence k)))

/-- the operation, if it is a frame of an open connection, leaves the client in agreement with both sides -/
def AgreedAt (s : State) (o : Op) : Prop :=
  ∀ k inMsg call set, o = .frame k inMsg call → s.subs k = some set → Agreed s k inMsg call set

/-- the registration the frame makes is applied, or the frame changes nothing -/
def Applied (s : State) (o : Op) : Prop :=
  ∀ k inMsg call set, o = .frame k inMsg call → s.subs k = some set → inChannel inMsg ≠ "" →
    (call = .served ∧ s.user k ≠ "") ∨ SameSet (change inMsg set) set

/-! ## Both sides of a registration -/

theorem hgetall_registerSession (p : Presence.State) (userId : String) (k q : ConnId) (channels : List String)
    (call : Call) :
    (registerSession p userId k channels call).1.redis.hgetall (registerSession p userId k channels call).1.now q =
      if (call = .served ∧ userId ≠ "") ∧ q = k then some ⟨userId, channels, p.now + sessionTtl⟩
      else p.redis.hgetall p.now q := by
  cases call with
  | served =>
    by_cases hu : userId = ""
    · simp [registerSession, Presence.step, accepted, hu]
    · simp [registerSession, Presence.step, accepted, hu, Redis.hgetall_register]
  | refused status => simp [registerSession]
  | failed => simp [registerSession]

theorem recorded_other {p : Presence.State} {userId : String} {k q : ConnId} {channels : List String} {call : Call}
    (hq : q ≠ k) : recorded (registerSession p userId k channels call).1 q = recorded p q := by
  unfold recorded
  rw [hgetall_registerSession, if_neg fun h => hq h.2]

theorem recorded_applied {p : Presence.State} {userId : String} {k : ConnId} {channels : List String} {call : Call}
    (hc : call = .served ∧ userId ≠ "") : recorded (registerSession p userId k channels call).1 k = channels := by
  unfold recorded
  rw [hgetall_registerSession, if_pos ⟨hc, rfl⟩]
  rfl

theorem recorded_not_applied {p : Presence.State} {userId : String} {k : ConnId} {channels : List String} {call : Call}
    (hc : ¬ (call = .served ∧ userId ≠ "")) :
    recorded (registerSession p userId k channels call).1 k = recorded p k := by
  unfold recorded
  rw [hgetall_registerSession, if_neg fun h => hc h.1]

theorem hgetall_deregisterSession (p : Presence.State) (k q : ConnId) (call : Call) (hq : q ≠ k) :
    (deregisterSession p k call).redis.hgetall (deregisterSession p k call).now q = p.redis.hgetall p.now q := by
  cases call with
  | served => simp [deregisterSession, Presence.step, Redis.hgetall_deregister, hq]
  | refused status => rfl
  | failed => rfl

/-! ## The two sets agree -/

structure Inv (s : State) : Prop where
  same : ∀ k set, s.subs k = some set → SameSet set (recorded s.presence k)
  fresh : ∀ k, s.seq < k → s.subs k = none ∧ s.presence.redis.hgetall s.presence.now k = none

theorem inv_init : Inv init where
  same := by
    intro k set h
    cases h
  fresh := by
    intro k _
    exact ⟨rfl, rfl⟩

/-- what a frame with a channel id does to an open connection -/
theorem dispatch_eq {s : State} {k : ConnId} {inMsg : In} {call : Call} {set : List String}
    (hset : s.subs k = some set) (hc : inChannel inMsg ≠ "") :
    dispatch s k inMsg call =
      ({ s with
          subs := update s.subs k (some (change inMsg set))
          presence := (registerSession s.presence (s.user k) k (change inMsg set) call).1 },
        some (if call = .failed then .error "subscribe failed" else ackOf inMsg)) := by
  unfold dispatch updateSubscription
  rw [if_neg hc, hset]
  cases call <;> simp [registerSession]

theorem agreed_iff {s : State} (h : Inv s) {k : ConnId} {inMsg : In} {call : Call} {set : List String}
    (hset : s.subs k = some set) :
    Agreed s k inMsg call set ↔
      (inChannel inMsg ≠ "" → (call = .served ∧ s.user k ≠ "") ∨ SameSet (change inMsg set) set) := by
  unfold Agreed
  by_cases hc : inChannel inMsg = ""
  · -- the frame is refused before anything is touched
    have hd : dispatch s k inMsg call = (s, some (.error "channel_id required")) := if_pos hc
    rw [hd]
    refine ⟨fun _ hne => absurd hc hne, fun _ => ⟨set, hset, .inr ⟨⟨_, rfl⟩, fun c => Iff.rfl, fun c => Iff.rfl⟩⟩⟩
  · rw [dispatch_eq hset hc]
    simp only [update_self, Option.some.injEq, exists_eq_left']
    by_cases ha : call = .served ∧ s.user k ≠ ""
    · rw [recorded_applied ha]
      refine ⟨fun _ _ => .inl ha, fun _ => .inl ⟨by simp [ha.1], fun c => Iff.rfl, fun c => Iff.rfl⟩⟩
    · rw [recorded_not_applied ha]
      have hsame := h.same k set hset
      refine ⟨?_, ?_⟩
      · intro hagreed _
        right
        rcases hagreed with ⟨-, -, hrec⟩ | ⟨-, hlocal, -⟩
        · intro c
          rw [← hrec c, hsame c]
        · exact hlocal
      · intro happlied
        have hset' : SameSet (change inMsg set) set := (happlied hc).resolve_left ha
        by_cases hf : call = .failed
        · exact .inr ⟨⟨_, by simp [hf]; rfl⟩, hset', fun c => Iff.rfl⟩
        · refine .inl ⟨by simp [hf], fun c => Iff.rfl, ?_⟩
          intro c
          rw [hset' c, hsame c]

/-- a connection's set is registered: applied, or the same as what was recorded -/
theorem Inv.registered {s t : State} (h : Inv s) {k : ConnId} {userId : String} {channels : List String} {call : Call}
    (hsubs : t.subs = update s.subs k (some channels))
    (hpresence : t.presence = (registerSession s.presence userId k channels call).1) (hseq : s.seq ≤ t.seq)
    (hk : k ≤ t.seq) (hnot : ¬ (call = .served ∧ userId ≠ "") → SameSet channels (recorded s.presence k)) : Inv t := by
  refine ⟨?_, ?_⟩
  · intro q set hset
    rw [hsubs] at hset
    rw [hpresence]
    by_cases hq : q = k
    · subst hq
      rw [update_self] at hset
      obtain rfl := Option.some.inj hset
      by_cases ha : call = .served ∧ userId ≠ ""
      · rw [recorded_applied ha]
        exact fun c => Iff.rfl
      · rw [recorded_not_applied ha]
        exact hnot ha
    · rw [update_of_ne hq] at hset
      rw [recorded_other hq]
      exact h.same q set hset
  · intro q hq
    have hne : q ≠ k := (hk.trans_lt hq).ne'
    rw [hsubs, hpresence, update_of_ne hne, hgetall_registerSession, if_neg fun hc => hne hc.2]
    exact h.fresh q (hseq.trans_lt hq)

theorem step_inv (s : State) (o : Op) (h : Inv s) (ho : Applied s o) : Inv (step s o) := by
  cases o with
  | «open» userId call =>
    refine h.registered rfl rfl (Nat.le_succ _) le_rfl ?_
    intro _
    simp [SameSet, recorded, (h.fresh (s.seq + 1) (Nat.lt_succ_self _)).2]
  | frame q inMsg call =>
    simp only [step]
    by_cases hc : inChannel inMsg = ""
    · have hd : dispatch s q inMsg call = (s, some (.error "channel_id required")) := if_pos hc
      rw [hd]
      exact h
    · cases hset : s.subs q with
      | none =>
        have hd : dispatch s q inMsg call = (s, none) := by
          unfold dispatch updateSubscription
          rw [if_neg hc, hset]
        rw [hd]
        exact h
      | some set =>
        have hq : q ≤ s.seq := by
          by_contra hlt
          rw [(h.fresh q (not_le.1 hlt)).1] at hset
          cases hset
        rw [dispatch_eq hset hc]
        refine h.registered rfl rfl le_rfl hq ?_
        intro ha c
        have hchange : SameSet (change inMsg set) set := (ho q inMsg call set rfl hset hc).resolve_left ha
        rw [hchange c, h.same q set hset c]
  | close q call =>
    refine ⟨?_, ?_⟩
    · intro k set hset
      by_cases hk : k = q
      · subst hk
        simp [step] at hset
      · simp only [step, update_of_ne hk] at hset ⊢
        unfold recorded
        rw [hgetall_deregisterSession _ _ _ _ hk]
        exact h.same k set hset
    · intro k hk
      obtain ⟨hsubs, hgone⟩ := h.fresh k hk
      simp only [step]
      by_cases hq : k = q
      · subst hq
        refine ⟨update_self _ _ _, ?_⟩
        cases call with
        | served => simp [deregisterSession, Presence.step, Redis.hgetall_deregister]
        | refused status => exact hgone
        | failed => exact hgone
      · rw [update_of_ne hq, hgetall_deregisterSession _ _ _ _ hq]
        exact ⟨hsubs, hgone⟩

/-- **When the client is told the truth.** After every frame of a run the client has been told what both sides hold, iff
every frame that changes the connection's set has its registration applied. -/
theorem subscription_agreed_iff (ops : List Op) : Along step AgreedAt init ops ↔ Along step Applied init ops := by
  refine along_congr (I := Inv) ?_ step_inv inv_init ops
  intro s o h
  refine ⟨?_, ?_⟩
  · intro hall k inMsg call set ho hset
    exact (agreed_iff h hset).1 (hall k inMsg call set ho hset)
  · intro hall k inMsg call set ho hset
    exact (agreed_iff h hset).2 (hall k inMsg call set ho hset)

/-- alice connects and subscribes to channel "a"; presence answers the second registration with 500 -/
def refusedSubscribe : List Op :=
  [.open "alice" .served, .frame 1 (.subscribe "a") (.refused ⟨500, by decide⟩)]

/-- she is told she is subscribed, and presence has not heard of it -/
theorem refused_yet_acked : ¬ Along step AgreedAt init refusedSubscribe := by
  intro h
  obtain ⟨-, h, -⟩ := h
  obtain ⟨set, -, ⟨-, -, hrec⟩ | ⟨⟨e, he⟩, -⟩⟩ := h 1 (.subscribe "a") _ [] rfl rfl
  · exact absurd ((hrec "a").2 (by decide)) (by decide)
  · have hack : (dispatch (step init (.open "alice" .served)) 1 (.subscribe "a") (.refused ⟨500, by decide⟩)).2 =
        some (.ack (.subscribed "a")) := by decide
    rw [hack] at he
    cases he

end Concordia.Gateway
