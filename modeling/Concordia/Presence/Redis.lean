/-
The presence service's data in Redis (`services/presence/handler.go`): a hash for each session, with a time to live, and
two indexes, the sets of connections of a user and of a channel.

Each definition is one command or one pipeline of a handler, and takes effect at once. `register` is `hgetall`, then
`cleanPipe` over the old channels if there was a session, then `writePipe`; `deregister` is `hgetall`, then `deletePipe`;
`queryByChannel` is `smembers`, then one `hgetall` for each member.

A set is a list without repetition; `Redis` carries that. The JSON in the hash is read back as it was written.
-/
import Concordia.Lib.Rows

namespace Concordia.Presence

open Concordia.Lib

abbrev ConnId := ℕ

/-- a session's hash; the field `connected_at` is never read -/
structure Session where
  userId : String
  subscribedChannels : List String
  /-- in nanoseconds -/
  expiresAt : ℕ
deriving DecidableEq, Repr

/-- 30 minutes -/
def sessionTtl : ℕ := 30 * 60 * 10 ^ 9

structure Redis where
  session : ConnId → Option Session
  user : String → List ConnId
  channel : String → List ConnId
  user_nodup : ∀ u, (user u).Nodup
  channel_nodup : ∀ c, (channel c).Nodup

namespace Redis

def empty : Redis where
  session _ := none
  user _ := []
  channel _ := []
  user_nodup _ := List.nodup_nil
  channel_nodup _ := List.nodup_nil

/-- HGETALL of a session: nothing once it has expired, which Redis does to the millisecond and the model at once -/
def hgetall (r : Redis) (now : ℕ) (k : ConnId) : Option Session := (r.session k).filter fun x => now < x.expiresAt

/-- SMEMBERS of a channel's set -/
def smembers (r : Redis) (c : String) : List ConnId := r.channel c

/-- SREM of the connection from the sets of some channels -/
def sremChannels (f : String → List ConnId) (k : ConnId) (channels : List String) (c : String) : List ConnId :=
  if c ∈ channels then (f c).filter (· ≠ k) else f c

/-- SADD of the connection to the sets of some channels -/
def saddChannels (f : String → List ConnId) (k : ConnId) (channels : List String) (c : String) : List ConnId :=
  if c ∈ channels then addRow k (f c) else f c

theorem nodup_addRow {k : ConnId} {l : List ConnId} (h : l.Nodup) : (addRow k l).Nodup := by
  unfold addRow
  split_ifs with hk
  · exact h
  · exact List.nodup_append.2 ⟨h, by simp, by simpa using fun x hx => ne_of_mem_of_not_mem hx hk⟩

theorem nodup_srem {f : String → List ConnId} (h : ∀ c, (f c).Nodup) (k : ConnId) (channels : List String) (c : String) :
    (sremChannels f k channels c).Nodup := by
  unfold sremChannels
  split_ifs
  · exact (h c).filter _
  · exact h c

theorem nodup_sadd {f : String → List ConnId} (h : ∀ c, (f c).Nodup) (k : ConnId) (channels : List String) (c : String) :
    (saddChannels f k channels c).Nodup := by
  unfold saddChannels
  split_ifs
  · exact nodup_addRow (h c)
  · exact h c

theorem nodup_update {f : String → List ConnId} (h : ∀ c, (f c).Nodup) {u : String} {l : List ConnId} (hl : l.Nodup)
    (c : String) : (Function.update f u l c).Nodup := by
  by_cases hc : c = u
  · rw [hc, Function.update_self]; exact hl
  · rw [Function.update_of_ne hc]; exact h c

/-- `register`, first pipeline: SREM from the channels of the previous registration -/
def cleanPipe (r : Redis) (k : ConnId) (oldChannels : List String) : Redis where
  session := r.session
  user := r.user
  channel := sremChannels r.channel k oldChannels
  user_nodup := r.user_nodup
  channel_nodup := nodup_srem r.channel_nodup k oldChannels

/-- `register`, second pipeline: HSET, EXPIRE, SADD to the user's set and to the channels' sets -/
def writePipe (r : Redis) (now : ℕ) (k : ConnId) (userId : String) (channels : List String) : Redis where
  session := Function.update r.session k (some ⟨userId, channels, now + sessionTtl⟩)
  user := Function.update r.user userId (addRow k (r.user userId))
  channel := saddChannels r.channel k channels
  user_nodup := nodup_update r.user_nodup (nodup_addRow (r.user_nodup userId))
  channel_nodup := nodup_sadd r.channel_nodup k channels

/-- `deregister`'s pipeline: DEL, SREM from the user's set and from the channels' sets -/
def deletePipe (r : Redis) (k : ConnId) (x : Session) : Redis where
  session := Function.update r.session k none
  user := Function.update r.user x.userId ((r.user x.userId).filter (· ≠ k))
  channel := sremChannels r.channel k x.subscribedChannels
  user_nodup := nodup_update r.user_nodup ((r.user_nodup x.userId).filter _)
  channel_nodup := nodup_srem r.channel_nodup k x.subscribedChannels

/-- `heartbeat`: EXISTS and EXPIRE -/
def heartbeat (r : Redis) (now : ℕ) (k : ConnId) : Redis :=
  match r.hgetall now k with
  | some x => { r with session := Function.update r.session k (some { x with expiresAt := now + sessionTtl }) }
  | none => r

/-! ## Reading back -/

@[simp] theorem mem_sremChannels {f : String → List ConnId} {k q : ConnId} {channels : List String} {c : String} :
    q ∈ sremChannels f k channels c ↔ q ∈ f c ∧ (q = k → c ∉ channels) := by
  unfold sremChannels
  split_ifs with hc
  · simp only [List.mem_filter, decide_eq_true_iff]
    exact and_congr_right fun _ => ⟨fun h e => absurd e h, fun h e => h e hc⟩
  · exact ⟨fun h => ⟨h, fun _ => hc⟩, fun h => h.1⟩

@[simp] theorem mem_saddChannels {f : String → List ConnId} {k q : ConnId} {channels : List String} {c : String} :
    q ∈ saddChannels f k channels c ↔ q ∈ f c ∨ (q = k ∧ c ∈ channels) := by
  unfold saddChannels
  split_ifs with hc
  · simp [hc]
  · simp [hc]

theorem hgetall_eq_some {r : Redis} {now : ℕ} {k : ConnId} {x : Session} :
    r.hgetall now k = some x ↔ r.session k = some x ∧ now < x.expiresAt := by
  simp [hgetall, Option.filter_eq_some_iff]

theorem heartbeat_channel (r : Redis) (now : ℕ) (k : ConnId) : (r.heartbeat now k).channel = r.channel := by
  unfold heartbeat
  split <;> rfl

/-- a heartbeat renews its own session, if that has not expired, and changes no other -/
theorem heartbeat_session (r : Redis) (now : ℕ) (k q : ConnId) :
    (r.heartbeat now k).session q = (r.session q).map fun x =>
      if q = k ∧ now < x.expiresAt then { x with expiresAt := now + sessionTtl } else x := by
  unfold heartbeat
  split
  · rename_i x hx
    obtain ⟨hs, hlt⟩ := hgetall_eq_some.1 hx
    by_cases hq : q = k
    · subst hq
      simp [hs, hlt]
    · simp [hq]
  · rename_i hx
    cases hs : r.session q with
    | none => rfl
    | some x =>
      have hnot : ¬ (q = k ∧ now < x.expiresAt) := by
        rintro ⟨rfl, hlt⟩
        rw [hgetall_eq_some.2 ⟨hs, hlt⟩] at hx
        cases hx
      simp [hnot]

@[simp] theorem writePipe_session (r : Redis) (now : ℕ) (k : ConnId) (u : String) (channels : List String) :
    (r.writePipe now k u channels).session k = some ⟨u, channels, now + sessionTtl⟩ :=
  Function.update_self _ _ _

@[simp] theorem deletePipe_session (r : Redis) (k : ConnId) (x : Session) : (r.deletePipe k x).session k = none :=
  Function.update_self _ _ _

/-- the channels a session was last registered with -/
def registered (r : Redis) (k : ConnId) : Option (List String) := (r.session k).map Session.subscribedChannels

@[simp] theorem registered_writePipe (r : Redis) (now : ℕ) (k : ConnId) (u : String) (channels : List String) :
    (r.writePipe now k u channels).registered k = some channels := by
  simp [registered]

@[simp] theorem registered_heartbeat (r : Redis) (now : ℕ) (k q : ConnId) :
    (r.heartbeat now k).registered q = r.registered q := by
  unfold registered
  rw [heartbeat_session, Option.map_map]
  congr 1
  funext x
  simp only [Function.comp]
  split_ifs <;> rfl

end Redis

end Concordia.Presence
