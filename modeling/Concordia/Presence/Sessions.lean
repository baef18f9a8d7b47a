/-
The presence service's requests (`services/presence/handler.go`), each executed at once with Redis available, and what
the service is for: to know, of every connection, its latest registration and whether that is still alive.

`State`, `step`: the clock and Redis; `register`, `deregister`, `heartbeat` are the handlers, `tick` the passage of time.
`queryByChannel`, `queryByUser` read the two indexes and drop the members whose hash is gone.
`Registry`: the abstract service. It has no index and no hash: a connection's latest registration, kept until it is
deregistered, and alive for 30 minutes after the latest register or successful heartbeat.

- `run_refines`: after every run Redis has a hash for exactly the connections alive in the registry, with the user and
  the channels of their latest registration.
- `heartbeat_succeeds`: a heartbeat is answered 200 for exactly the connections alive in the registry.

A connection id is a natural number here: only equality is ever asked of it. `none` in a body stands for the empty id.
-/
import Concordia.Lib.Run
import Concordia.Presence.Redis

namespace Concordia.Presence

open Concordia.Lib

/-! ## Requests -/

/-- the body of `POST /sessions` -/
structure RegisterBody where
  connectionId : Option ConnId
  userId : String
  subscribedChannels : List String
deriving DecidableEq, Repr

namespace Redis

/-- `register`, after its checks -/
def register (r : Redis) (now : ℕ) (k : ConnId) (userId : String) (channels : List String) : Redis :=
  match r.hgetall now k with
  | some prev => (r.cleanPipe k prev.subscribedChannels).writePipe now k userId channels
  | none => r.writePipe now k userId channels

def deregister (r : Redis) (now : ℕ) (k : ConnId) : Redis :=
  match r.hgetall now k with
  | some data => r.deletePipe k data
  | none => r

variable {r : Redis} {now : ℕ} {k q : ConnId} {u : String} {channels : List String} {c : String}

theorem sessionTtl_pos : 0 < sessionTtl := by norm_num [sessionTtl]

/-- what is alive later is alive now -/
theorem filter_later {α : Type*} (o : Option α) (deadline : α → ℕ) (now d : ℕ) :
    (o.filter fun x => now < deadline x).filter (fun x => now + d < deadline x) =
      o.filter fun x => now + d < deadline x := by
  rw [Option.filter_filter]
  congr 1
  funext x
  rw [← Bool.decide_and]
  congr 1
  apply propext
  omega

theorem hgetall_later (r : Redis) (now d : ℕ) (k : ConnId) :
    r.hgetall (now + d) k = (r.hgetall now k).filter fun x => now + d < x.expiresAt :=
  (filter_later (r.session k) Session.expiresAt now d).symm

theorem hgetall_register :
    (r.register now k u channels).hgetall now q =
      if q = k then some ⟨u, channels, now + sessionTtl⟩ else r.hgetall now q := by
  have httl : now < now + sessionTtl := Nat.lt_add_of_pos_right sessionTtl_pos
  unfold register hgetall
  split <;> by_cases hq : q = k <;> simp [writePipe, cleanPipe, hq, Option.filter, httl]

theorem hgetall_deregister :
    (r.deregister now k).hgetall now q = if q = k then none else r.hgetall now q := by
  unfold deregister
  split
  · by_cases hq : q = k <;> simp [hgetall, deletePipe, hq]
  · rename_i h
    split_ifs with hq
    · rw [hq, h]
    · rfl

theorem hgetall_heartbeat :
    (r.heartbeat now k).hgetall now q =
      (r.hgetall now q).map fun x => if q = k then { x with expiresAt := now + sessionTtl } else x := by
  have httl : now < now + sessionTtl := Nat.lt_add_of_pos_right sessionTtl_pos
  simp only [hgetall, heartbeat_session]
  cases r.session q with
  | none => rfl
  | some x => by_cases hx : now < x.expiresAt <;> by_cases hq : q = k <;> simp [Option.filter, hx, hq, httl]

theorem mem_user_register {u' : String} :
    q ∈ (r.register now k u channels).user u' ↔ q ∈ r.user u' ∨ (q = k ∧ u' = u) := by
  have hwrite : ∀ r : Redis, q ∈ (r.writePipe now k u channels).user u' ↔ q ∈ r.user u' ∨ (q = k ∧ u' = u) := by
    intro r
    by_cases hu : u' = u
    · subst hu; simp [writePipe]
    · simp [writePipe, hu]
  unfold register
  split
  · exact hwrite _
  · exact hwrite _

/-- a registration takes the connection out of the channels of the session it replaces, if that is still there -/
theorem mem_channel_register :
    q ∈ (r.register now k u channels).channel c ↔
      (q ∈ r.channel c ∧ (q = k → ∀ x, r.hgetall now k = some x → c ∉ x.subscribedChannels)) ∨
        (q = k ∧ c ∈ channels) := by
  unfold register
  split
  · rename_i x hx
    simp [writePipe, cleanPipe, hx]
  · rename_i hx
    simp [writePipe, hx]

theorem mem_user_deregister :
    q ∈ (r.deregister now k).user u ↔ q ∈ r.user u ∧ (q = k → ∀ x, r.hgetall now k = some x → u ≠ x.userId) := by
  unfold deregister
  split
  · rename_i x hx
    by_cases hu : u = x.userId
    · subst hu; simp [deletePipe, hx]
    · simp [deletePipe, hx, hu]
  · rename_i hx
    simp [hx]

theorem mem_channel_deregister :
    q ∈ (r.deregister now k).channel c ↔
      q ∈ r.channel c ∧ (q = k → ∀ x, r.hgetall now k = some x → c ∉ x.subscribedChannels) := by
  unfold deregister
  split
  · rename_i x hx
    simp [deletePipe, hx]
  · rename_i hx
    simp [hx]

theorem heartbeat_user (r : Redis) (now : ℕ) (k : ConnId) : (r.heartbeat now k).user = r.user := by
  unfold heartbeat
  split <;> rfl

end Redis

structure State where
  now : ℕ
  redis : Redis

def init : State := ⟨0, .empty⟩

inductive Op where
  /-- `none`: a body that does not decode -/
  | register (body : Option RegisterBody)
  | deregister (k : ConnId)
  | heartbeat (k : ConnId)
  /-- nanoseconds pass -/
  | tick (d : ℕ)
deriving DecidableEq, Repr

/-- the checks of `register`: it goes on with a connection id and a user id that are not empty -/
def accepted : Option RegisterBody → Option (ConnId × String × List String)
  | some ⟨some k, userId, channels⟩ => if userId = "" then none else some (k, userId, channels)
  | _ => none

def step (s : State) : Op → State
  | .register body =>
    match accepted body with
    | some (k, userId, channels) => { s with redis := s.redis.register s.now k userId channels }
    | none => s
  | .deregister k => { s with redis := s.redis.deregister s.now k }
  | .heartbeat k => { s with redis := s.redis.heartbeat s.now k }
  | .tick d => { s with now := s.now + d }

/-- the HTTP status of the answer -/
def status (s : State) : Op → ℕ
  | .register body => if (accepted body).isSome then 200 else 400
  | .deregister _ => 204
  | .heartbeat k => if (s.redis.hgetall s.now k).isSome then 200 else 404
  | .tick _ => 200

/-! ## Queries -/

structure SessionEntry where
  connectionId : ConnId
  userId : String
deriving DecidableEq, Repr

structure UserEntry where
  userId : String
  online : Bool
  sessions : List ConnId
deriving DecidableEq, Repr

/-- SMEMBERS of the channel's set, then one HGETALL for each member; a member without a hash is skipped -/
def queryByChannel (s : State) (channelId : String) : List SessionEntry :=
  (s.redis.smembers channelId).filterMap fun id => (s.redis.hgetall s.now id).map fun data => ⟨id, data.userId⟩

/-- SMEMBERS of the user's set, then one EXISTS for each member -/
def queryByUser (s : State) (userId : String) : UserEntry :=
  let sessions := (s.redis.user userId).filter fun id => (s.redis.hgetall s.now id).isSome
  ⟨userId, !sessions.isEmpty, sessions⟩

inductive Answer where
  | channel (sessions : List SessionEntry)
  | user (entry : UserEntry)
  /-- 400, channel_id or user_id required -/
  | required
deriving DecidableEq, Repr

/-- `query`: `channel_id` goes first -/
def query (s : State) (channelId userId : String) : Answer :=
  if channelId ≠ "" then .channel (queryByChannel s channelId)
  else if userId ≠ "" then .user (queryByUser s userId)
  else .required

theorem mem_queryByChannel {s : State} {c : String} {e : SessionEntry} :
    e ∈ queryByChannel s c ↔
      e.connectionId ∈ s.redis.channel c ∧
        (s.redis.hgetall s.now e.connectionId).map Session.userId = some e.userId := by
  simp only [queryByChannel, Redis.smembers, List.mem_filterMap, Option.map_eq_some_iff]
  refine ⟨?_, ?_⟩
  · rintro ⟨k, hk, x, hx, rfl⟩
    exact ⟨hk, x, hx, rfl⟩
  · intro h
    obtain ⟨hk, x, hx, hu⟩ := h
    refine ⟨e.connectionId, hk, x, hx, ?_⟩
    rw [hu]

theorem mem_queryByUser {s : State} {u : String} {k : ConnId} :
    k ∈ (queryByUser s u).sessions ↔ k ∈ s.redis.user u ∧ (s.redis.hgetall s.now k).isSome := by
  simp [queryByUser]

theorem online_iff {s : State} {u : String} : (queryByUser s u).online = true ↔ ∃ k, k ∈ (queryByUser s u).sessions := by
  simp only [queryByUser, Bool.not_eq_true', List.isEmpty_eq_false_iff_exists_mem]

/-- no connection is listed twice -/
theorem nodup_queryByChannel (s : State) (c : String) :
    ((queryByChannel s c).map SessionEntry.connectionId).Nodup := by
  have hmap : (queryByChannel s c).map SessionEntry.connectionId =
      (s.redis.channel c).filter fun id => (s.redis.hgetall s.now id).isSome := by
    unfold queryByChannel Redis.smembers
    induction s.redis.channel c with
    | nil => rfl
    | cons id l ih => cases h : s.redis.hgetall s.now id <;> simp [h, ih]
  rw [hmap]
  exact (s.redis.channel_nodup c).filter _

/-! ## The abstract service -/

/-- a registration and when it was last made or renewed -/
structure Registration where
  userId : String
  channels : List String
  renewedAt : ℕ
deriving DecidableEq, Repr

structure Registry where
  now : ℕ
  latest : ConnId → Option Registration

namespace Registry

def init : Registry := ⟨0, fun _ => none⟩

/-- less than 30 minutes since the latest register or successful heartbeat -/
def live (g : Registry) (k : ConnId) : Option Registration :=
  (g.latest k).filter fun x => g.now < x.renewedAt + sessionTtl

def step (g : Registry) : Op → Registry
  | .register body =>
    match accepted body with
    | some (k, userId, channels) => { g with latest := Function.update g.latest k (some ⟨userId, channels, g.now⟩) }
    | none => g
  | .deregister k => { g with latest := Function.update g.latest k none }
  | .heartbeat k =>
    match g.live k with
    | some x => { g with latest := Function.update g.latest k (some { x with renewedAt := g.now }) }
    | none => g
  | .tick d => { g with now := g.now + d }

/-- the registry after a history of requests -/
def after (ops : List Op) : Registry := run step init ops

theorem live_eq_some {g : Registry} {k : ConnId} {x : Registration} :
    g.live k = some x ↔ g.latest k = some x ∧ g.now < x.renewedAt + sessionTtl := by
  simp [live, Option.filter_eq_some_iff]

end Registry

/-- the hash of a registration -/
def Registration.session (x : Registration) : Session := ⟨x.userId, x.channels, x.renewedAt + sessionTtl⟩

/-! ## Redis refines the registry -/

structure Refines (s : State) (g : Registry) : Prop where
  now : s.now = g.now
  live : ∀ k, s.redis.hgetall s.now k = (g.live k).map Registration.session

theorem refines_init : Refines init .init := ⟨rfl, fun _ => rfl⟩

namespace Registry

open Redis (sessionTtl_pos)

variable {g : Registry} {k q : ConnId}

theorem live_later (g : Registry) (d : ℕ) (k : ConnId) :
    (g.step (.tick d)).live k = (g.live k).filter fun x => g.now + d < x.renewedAt + sessionTtl :=
  (Redis.filter_later (g.latest k) (fun x => x.renewedAt + sessionTtl) g.now d).symm

theorem live_congr {g' : Registry} (hnow : g'.now = g.now) (hlatest : g'.latest q = g.latest q) :
    g'.live q = g.live q := by
  unfold live
  rw [hnow, hlatest]

theorem live_renewed {x : Registration} (h : g.latest k = some x) (hx : x.renewedAt = g.now) : g.live k = some x :=
  live_eq_some.2 ⟨h, by rw [hx]; exact Nat.lt_add_of_pos_right sessionTtl_pos⟩

theorem live_register {body : Option RegisterBody} {u : String} {channels : List String}
    (hb : accepted body = some (k, u, channels)) :
    (g.step (.register body)).live q = if q = k then some ⟨u, channels, g.now⟩ else g.live q := by
  simp only [step, hb]
  split_ifs with hq
  · exact live_renewed (by simp [hq]) rfl
  · exact live_congr rfl (by simp [hq])

theorem live_deregister : (g.step (.deregister k)).live q = if q = k then none else g.live q := by
  simp only [step]
  split_ifs with hq
  · simp [live, hq]
  · exact live_congr rfl (by simp [hq])

theorem live_heartbeat :
    (g.step (.heartbeat k)).live q = (g.live q).map fun x => if q = k then { x with renewedAt := g.now } else x := by
  simp only [step]
  by_cases hq : q = k
  · subst hq
    cases hl : g.live q with
    | none => simpa using hl
    | some x => exact live_renewed (by simp) (by simp)
  · have hself : (g.live q).map (fun x => if q = k then { x with renewedAt := g.now } else x) = g.live q := by
      simp [hq]
    rw [hself]
    split
    · exact live_congr rfl (by simp [hq])
    · rfl

end Registry

theorem step_refines {s : State} {g : Registry} (h : Refines s g) (o : Op) : Refines (step s o) (g.step o) := by
  obtain ⟨hnow, hlive⟩ := h
  cases o with
  | register body =>
    cases hb : accepted body with
    | none => simpa [step, Registry.step, hb] using ⟨hnow, hlive⟩
    | some p =>
      obtain ⟨k, u, channels⟩ := p
      refine ⟨by simp [step, Registry.step, hb, hnow], ?_⟩
      intro q
      rw [Registry.live_register hb]
      simp only [step, hb]
      rw [Redis.hgetall_register, hlive q, hnow]
      by_cases hq : q = k <;> simp [hq, Registration.session]
  | deregister k =>
    refine ⟨hnow, ?_⟩
    intro q
    rw [Registry.live_deregister]
    simp only [step]
    rw [Redis.hgetall_deregister, hlive q]
    by_cases hq : q = k <;> simp [hq]
  | heartbeat k =>
    refine ⟨by simp only [step, Registry.step]; split <;> exact hnow, ?_⟩
    intro q
    rw [Registry.live_heartbeat]
    simp only [step]
    rw [Redis.hgetall_heartbeat, hlive q, Option.map_map, Option.map_map, hnow]
    congr 1
    funext x
    by_cases hq : q = k <;> simp [hq, Registration.session]
  | tick d =>
    refine ⟨by simp [step, Registry.step, hnow], ?_⟩
    intro q
    rw [Registry.live_later]
    simp only [step]
    rw [Redis.hgetall_later, hlive q, hnow]
    cases g.live q with
    | none => rfl
    | some x => by_cases hx : g.now + d < x.renewedAt + sessionTtl <;> simp [Option.filter, hx, Registration.session]

/-- **Redis knows the living.** After every run there is a hash for exactly the connections alive in the registry, with
the user and the channels of their latest registration. -/
theorem run_refines (ops : List Op) : Refines (run step init ops) (.after ops) := by
  induction ops using List.reverseRecOn with
  | nil => exact refines_init
  | append_singleton ops o ih =>
    rw [Registry.after, run_snoc, run_snoc]
    exact step_refines ih o

theorem heartbeat_succeeds (ops : List Op) (k : ConnId) :
    status (run step init ops) (.heartbeat k) = 200 ↔ ((Registry.after ops).live k).isSome := by
  simp only [status, (run_refines ops).live k, Option.isSome_map]
  split_ifs with h
  · simp [h]
  · simp [h]

end Concordia.Presence
