/-
Chat's channel_server_cache (`resolve_server_id` in `services/chat/src/handlers/messages.rs`) against the servers service.

A cached server id is passed to CheckPerm; without an entry the channel is looked up first
(`InternalChannelController`), and if that gives nothing, CheckPerm is asked with a blank server id and looks the channel
up itself. Entries are never removed. The servers service writes in any order, and lookups of any requests, which may
fail, fill the cache at any time.

- `cached_server`: an entry is the server of a channel row, deleted or not.
- `cache_transparent_iff`: the entry decides as a fresh lookup does iff the channel is not deleted, or the user has no such
  permission on its server anyway.
- `deleted_channel_open`: a deleted channel, still writable through its entry.

UUIDs have 128 bits; the model's are numbers, drawn in order.
-/
import Concordia.Servers.UuidText

namespace Concordia.Chat.ServerCache

open Concordia.Lib
open Concordia.Servers (Db Tables Uuid Channel Membership Permission Request Action CheckPermRequest checkPerm)
open Function (update update_self update_of_ne)

/-! ## The code -/

abbrev Cache := Uuid → Option Uuid

/-- `resolve_server_id`; `answered` is false when the request fails or its answer cannot be read -/
def resolveServerId (db : Db) (cache : Cache) (channelId : Uuid) (answered : Bool) : Cache × Option Uuid :=
  match cache channelId with
  | some sid => (cache, some sid)
  | none =>
    if answered then
      match db.findChannel channelId with
      | some channel => (update cache channelId (some channel.serverId), some channel.serverId)
      | none => (cache, none)
    else (cache, none)

/-- the requests that resolve the server of their channel -/
inductive Endpoint where
  | createMessage
  | listMessages
  /-- by another user than the author -/
  | deleteMessage
deriving DecidableEq, Repr

def Endpoint.action : Endpoint → Action
  | .createMessage => .write
  | .listMessages => .read
  | .deleteMessage => .manage

def Endpoint.permission : Endpoint → Permission
  | .createMessage => .write
  | .listMessages => .read
  | .deleteMessage => .manage

/-- the request an endpoint sends to the servers service -/
def checkRequest (userId channelId : Uuid) (serverId : Option Uuid) (e : Endpoint) : CheckPermRequest :=
  ⟨Servers.Uuid.toString userId, (serverId.map Servers.Uuid.toString).getD "", Servers.Uuid.toString channelId, e.action⟩

/-- whether a request is authorized with this cache; `permissionsForUser` is what the servers service's role lookup
answers -/
def authorized (db : Db) (permissionsForUser : Uuid → String → Finset Permission) (cache : Cache) (answered : Bool)
    (userId channelId : Uuid) (e : Endpoint) : Bool :=
  (checkPerm db permissionsForUser
    (checkRequest userId channelId (resolveServerId db cache channelId answered).2 e)).allowed

/-! ## Both services -/

structure St where
  db : Db
  channelServerCache : Cache

def init : St := ⟨.empty, fun _ => none⟩

inductive Op where
  | servers (q : Request)
  /-- some request resolves the server of its channel -/
  | resolve (channelId : Uuid) (answered : Bool)
deriving DecidableEq

def step (s : St) : Op → St
  | .servers q => { s with db := Servers.step s.db q }
  | .resolve channelId answered =>
    { s with channelServerCache := (resolveServerId s.db s.channelServerCache channelId answered).1 }

abbrev reached (ops : List Op) : St := run step init ops

/-! ## Channels are never forgotten -/

/-- there is a row of channel `c`, on server `sid` -/
def HasChannel (t : Tables) (c sid : Uuid) : Prop := ∃ x ∈ t.channels, x.id = c ∧ x.serverId = sid

theorem effect_hasChannel {t t' : Tables} {q : Request} {c sid : Uuid} (h : HasChannel t c sid)
    (he : Servers.Effect t q t') : HasChannel t' c sid := by
  obtain ⟨x, hx, hid, hsid⟩ := h
  cases he with
  | createChannel => exact ⟨x, List.mem_append_left _ hx, hid, hsid⟩
  | updateChannel =>
    exact ⟨_, List.mem_map_of_mem hx, (Db.rewriteChannel_id _ _).trans hid, (Db.rewriteChannel_serverId _ _).trans hsid⟩
  | deleteChannel =>
    exact ⟨_, List.mem_map_of_mem hx, (Db.softDeleteChannel_id _ _).trans hid,
      (Db.softDeleteChannel_serverId _ _).trans hsid⟩
  | _ => exact ⟨x, hx, hid, hsid⟩

theorem step_hasChannel {db : Db} {c sid : Uuid} (q : Request) (h : HasChannel db.toTables c sid) :
    HasChannel (Servers.step db q).toTables c sid := by
  rcases Servers.step_cases db q with ⟨-, he⟩ | ⟨-, he⟩
  · rwa [he]
  · exact effect_hasChannel h he

/-- the cache holds servers of channels -/
def Inv (s : St) : Prop := ∀ c sid, s.channelServerCache c = some sid → HasChannel s.db.toTables c sid

theorem resolveServerId_inv {s : St} (h : Inv s) (channelId : Uuid) (answered : Bool) :
    Inv { s with channelServerCache := (resolveServerId s.db s.channelServerCache channelId answered).1 } := by
  unfold resolveServerId
  split
  · exact h
  · split_ifs
    · split
      · next channel hfind =>
        intro c sid hc
        rcases eq_or_ne c channelId with rfl | hne
        · obtain rfl : channel.serverId = sid := by simpa using hc
          obtain ⟨hmem, hid, -⟩ := Tables.findChannel_some hfind
          exact ⟨channel, hmem, hid, rfl⟩
        · exact h c sid (by simpa [update_of_ne hne] using hc)
      · exact h
    · exact h

theorem step_inv {s : St} (o : Op) (h : Inv s) : Inv (step s o) := by
  cases o with
  | servers q => exact fun c sid hc => step_hasChannel q (h c sid hc)
  | resolve channelId answered => exact resolveServerId_inv h channelId answered

theorem cached_server (ops : List Op) : Inv (reached ops) :=
  run_inv' (fun _ o => step_inv o) (fun _ _ hc => (by cases hc)) ops

/-! ## What the answers mean -/

/-- the user is a member of the server and the role lookup grants the endpoint's permission -/
def Granted (db : Db) (permissionsForUser : Uuid → String → Finset Permission) (sid userId : Uuid) (e : Endpoint) :
    Prop :=
  (⟨sid, Servers.Uuid.toString userId⟩ : Membership) ∈ db.memberships ∧
    e.permission ∈ permissionsForUser sid (Servers.Uuid.toString userId)

theorem valueOf_action (e : Endpoint) : Servers.Permission.valueOf e.action.name = .ok e.permission := by
  cases e <;> rfl

/-- CheckPerm on a named server looks at that server alone -/
theorem checkPerm_named {db : Db} {f : Uuid → String → Finset Permission} {u c sid : Uuid} {e : Endpoint}
    (hc : c < 2 ^ 128) (hsid : sid < 2 ^ 128) :
    (checkPerm db f (checkRequest u c (some sid) e)).allowed = true ↔ Granted db f sid u e := by
  have hserver : ∀ c', Servers.resolveServer db (Servers.Uuid.toString sid) c' = .ok sid := by
    intro c'
    rw [Servers.resolveServer_named (Servers.toString_not_blank sid), Servers.fromString_toString hsid]
  rw [Servers.checkPerm_allowed]
  refine ⟨?_, ?_⟩
  · rintro ⟨c', sid', p, ⟨-, hp, hs⟩, hgranted⟩
    obtain rfl : p = e.permission := Except.ok.inj (hp.symm.trans (valueOf_action e))
    obtain rfl : sid' = sid := Except.ok.inj (hs.symm.trans (hserver c'))
    exact hgranted
  · intro h
    exact ⟨c, sid, e.permission, ⟨Servers.fromString_toString hc, valueOf_action e, hserver c⟩, h⟩

/-- CheckPerm without a server takes that of the channel, if it is not deleted -/
theorem checkPerm_blank {db : Db} {f : Uuid → String → Finset Permission} {u c : Uuid} {e : Endpoint}
    (hc : c < 2 ^ 128) : (checkPerm db f (checkRequest u c none e)).allowed = true ↔
      ∃ x ∈ db.channels, x.id = c ∧ x.deleted = false ∧ Granted db f x.serverId u e := by
  have hblank : Servers.isBlank "" = true := rfl
  rw [Servers.checkPerm_allowed]
  refine ⟨?_, ?_⟩
  · rintro ⟨c', sid, p, ⟨hc', hp, hs⟩, hgranted⟩
    obtain rfl : p = e.permission := Except.ok.inj (hp.symm.trans (valueOf_action e))
    obtain rfl : c' = c := Except.ok.inj (hc'.symm.trans (Servers.fromString_toString hc))
    obtain ⟨x, hx, hid, hdeleted, rfl⟩ := (Servers.resolveServer_blank hblank).1 hs
    exact ⟨x, hx, hid, hdeleted, hgranted⟩
  · rintro ⟨x, hx, hid, hdeleted, hgranted⟩
    have hs := (Servers.resolveServer_blank hblank).2 ⟨x, hx, hid, hdeleted, rfl⟩
    exact ⟨c, x.serverId, e.permission, ⟨Servers.fromString_toString hc, valueOf_action e, hs⟩, hgranted⟩

/-- the server of a channel has a 128-bit id -/
theorem server_drawn {db : Db} (hdrawn : db.drawn ≤ 2 ^ 128) {x : Channel} (hx : x ∈ db.channels) :
    x.serverId < 2 ^ 128 := by
  obtain ⟨server, hserver, hid⟩ := List.mem_map.1 (db.schema.channelsFk x hx)
  rw [← hid]
  exact lt_of_lt_of_le (db.schema.serversDrawn server hserver) hdrawn

/-- with the entry -/
theorem authorized_warm {db : Db} {f : Uuid → String → Finset Permission} {cache : Cache} {u c sid : Uuid} {e : Endpoint}
    (hc : c < 2 ^ 128) (hsid : sid < 2 ^ 128) (hentry : cache c = some sid) (answered : Bool) :
    authorized db f cache answered u c e = true ↔ Granted db f sid u e := by
  rw [authorized, resolveServerId, hentry]
  exact checkPerm_named hc hsid

/-- without the entry, whether the lookup fails or not -/
theorem authorized_cold {db : Db} {f : Uuid → String → Finset Permission} {cache : Cache} {u c : Uuid} {e : Endpoint}
    (hdrawn : db.drawn ≤ 2 ^ 128) (hc : c < 2 ^ 128) (hentry : cache c = none) (answered : Bool) :
    authorized db f cache answered u c e = true ↔
      ∃ x ∈ db.channels, x.id = c ∧ x.deleted = false ∧ Granted db f x.serverId u e := by
  rw [authorized, resolveServerId, hentry]
  cases answered with
  | false => exact checkPerm_blank hc
  | true =>
    cases hfind : db.findChannel c with
    | none =>
      simp only [if_true]
      exact checkPerm_blank hc
    | some x =>
      simp only [if_true]
      obtain ⟨hx, hid, hdeleted⟩ := Tables.findChannel_some hfind
      rw [checkPerm_named hc (server_drawn hdrawn hx)]
      refine ⟨?_, ?_⟩
      · intro h
        exact ⟨x, hx, hid, hdeleted, h⟩
      · rintro ⟨y, hy, hid', -, h⟩
        obtain rfl : y = x := eq_of_key db.schema.channelsPk hy hx (hid'.trans hid.symm)
        exact h

/-! ## The cache against a fresh lookup -/

/-- **Transparency.** On every reached state, a request on a channel in the cache is authorized as it would be with a
fresh lookup, whatever becomes of the lookup, iff the channel is not deleted or the permission is not granted. -/
theorem cache_transparent_iff (ops : List Op) (hdrawn : (reached ops).db.drawn ≤ 2 ^ 128)
    (f : Uuid → String → Finset Permission) (u c sid : Uuid) (e : Endpoint)
    (hentry : (reached ops).channelServerCache c = some sid) :
    (∀ answered answered', authorized (reached ops).db f (reached ops).channelServerCache answered u c e =
      authorized (reached ops).db f (update (reached ops).channelServerCache c none) answered' u c e) ↔
    (∃ x ∈ (reached ops).db.channels, x.id = c ∧ x.deleted = false) ∨ ¬ Granted (reached ops).db f sid u e := by
  obtain ⟨row, hrow, hid, hsid⟩ := cached_server ops c sid hentry
  have hc : c < 2 ^ 128 := by
    rw [← hid]
    exact lt_of_lt_of_le ((reached ops).db.schema.channelsDrawn row hrow) hdrawn
  have hserver : sid < 2 ^ 128 := hsid ▸ server_drawn hdrawn hrow
  have hwarm : ∀ answered, authorized (reached ops).db f (reached ops).channelServerCache answered u c e = true ↔
      Granted (reached ops).db f sid u e := authorized_warm hc hserver hentry
  have hcold := authorized_cold (f := f) (u := u) (e := e) hdrawn hc
    (update_self c none (reached ops).channelServerCache)
  have hsame : (∀ answered answered', authorized (reached ops).db f (reached ops).channelServerCache answered u c e =
      authorized (reached ops).db f (update (reached ops).channelServerCache c none) answered' u c e) ↔
      (Granted (reached ops).db f sid u e ↔
        ∃ x ∈ (reached ops).db.channels, x.id = c ∧ x.deleted = false ∧ Granted (reached ops).db f x.serverId u e) := by
    refine ⟨?_, ?_⟩
    · intro h
      rw [← hwarm true, ← hcold true, h true true]
    · intro h answered answered'
      rw [Bool.eq_iff_iff, hwarm, hcold, h]
  rw [hsame]
  refine ⟨?_, ?_⟩
  · intro hiff
    by_cases hgranted : Granted (reached ops).db f sid u e
    · obtain ⟨x, hx, hid', hdeleted, -⟩ := hiff.1 hgranted
      exact .inl ⟨x, hx, hid', hdeleted⟩
    · exact .inr hgranted
  · rintro (⟨x, hx, hid', hdeleted⟩ | hnot)
    · -- the row of the entry is the undeleted one
      obtain rfl : x = row := eq_of_key (reached ops).db.schema.channelsPk hx hrow (hid'.trans hid.symm)
      refine ⟨fun h => ⟨x, hx, hid', hdeleted, hsid ▸ h⟩, ?_⟩
      rintro ⟨y, hy, hidy, -, h⟩
      obtain rfl : y = x := eq_of_key (reached ops).db.schema.channelsPk hy hx (hidy.trans hid'.symm)
      exact hsid ▸ h
    · refine ⟨fun h => absurd h hnot, ?_⟩
      rintro ⟨y, hy, hidy, -, h⟩
      obtain rfl : y = row := eq_of_key (reached ops).db.schema.channelsPk hy hrow (hidy.trans hid.symm)
      exact absurd (hsid ▸ h) hnot

/-! ## A deleted channel -/

/-- user 7 makes a server (0) and a channel (3), which some request looks up -/
def general : List Op := [.servers (.createServer (some "concordia") (Servers.Uuid.toString 7)),
  .servers (.createChannel 0 (some "general") (some "TEXT") (Servers.Uuid.toString 7)), .resolve 3 true]

theorem general_transparent :
    authorized (reached general).db (reached general).db.effective (reached general).channelServerCache true 7 3
        .createMessage =
      authorized (reached general).db (reached general).db.effective
        (update (reached general).channelServerCache 3 none) false 7 3 .createMessage := by
  have h := cache_transparent_iff general (by decide) (reached general).db.effective 7 3 0 .createMessage (by decide)
  exact h.2 (.inl ⟨⟨3, 0, "general", .text, false⟩, by decide, rfl, rfl⟩) true false

/-- the owner deletes the channel, and goes on writing to it -/
def deleted : List Op := general ++ [.servers (.deleteChannel 0 3 (Servers.Uuid.toString 7))]

theorem deleted_channel_open :
    authorized (reached deleted).db (reached deleted).db.effective (reached deleted).channelServerCache true 7 3
        .createMessage = true ∧
      authorized (reached deleted).db (reached deleted).db.effective
        (update (reached deleted).channelServerCache 3 none) true 7 3 .createMessage = false := by
  refine ⟨?_, ?_⟩
  · decide
  · decide

end Concordia.Chat.ServerCache
