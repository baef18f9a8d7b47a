/-
The write operations of the servers service (`service/ServerService.java`, `ChannelService.java`, `RoleService.java`,
`MembershipService.java`), each one a `@Transactional` method: checks, then statements, in the source's order. A thrown
exception or a refused statement is a `Fault`; `step` then leaves the database as it was (rollback).

- `createServer` .. `leaveServer`: the ten operations.
- `Request`, `handle`, `step`: any one of them, as a transaction.

Audit events are emitted to Kafka, outside the database, and are not part of this state.
-/
import Concordia.Servers.Db

namespace Concordia.Servers

open Concordia.Lib

/-- `s.trim().isEmpty()`: every character is at most U+0020 -/
def trimIsEmpty (s : String) : Bool := s.toList.all (· ≤ ' ')

/-- `name == null || name.trim().isEmpty()` -/
def missing : Option String → Bool
  | none => true
  | some s => trimIsEmpty s

/-- `Character.toUpperCase` on the letters that can spell a channel type; of the letters that upper-case to one of
T E X V O I C only the dotless i is not ASCII -/
def upperChar (c : Char) : Char := if c = 'ı' then 'I' else c.toUpper

/-- `ChannelType.valueOf(type.toUpperCase())` -/
def ChannelType.valueOf (type : String) : Option ChannelType :=
  let upper := type.toList.map upperChar
  if upper = "TEXT".toList then some .text else if upper = "VOICE".toList then some .voice else none

def everyonePermissions : Finset Permission := {.read, .write, .voiceJoin}

def ownerPermissions : Finset Permission := {.read, .write, .voiceJoin, .manage}

/-- the union of the permissions of some roles -/
def flatPermissions (roles : List Role) : Finset Permission := roles.foldr (fun r acc => r.permissions ∪ acc) ∅

theorem mem_flatPermissions {roles : List Role} {p : Permission} :
    p ∈ flatPermissions roles ↔ ∃ r ∈ roles, p ∈ r.permissions := by
  induction roles with
  | nil => simp [flatPermissions]
  | cons r roles ih =>
    have : flatPermissions (r :: roles) = r.permissions ∪ flatPermissions roles := rfl
    simp [this, ih]

/-- the effective permissions of a user on a server: the union over the roles assigned to the membership -/
def Tables.effective (t : Tables) (serverId : Uuid) (userId : String) : Finset Permission :=
  flatPermissions (t.findRolesByUserAndServer serverId userId)

theorem mem_effective {t : Tables} {s : Uuid} {u : String} {p : Permission} :
    p ∈ t.effective s u ↔ ∃ r ∈ t.roles, (⟨s, u, r.id⟩ : MembershipRole) ∈ t.membershipRoles ∧ p ∈ r.permissions := by
  simp [Tables.effective, mem_flatPermissions, and_assoc]

/-! ## The operations -/

/-- `optional.orElseThrow(..)` -/
def orElseThrow {α : Type} (o : Option α) (code : ℕ) (reason : String) : Tx α :=
  match o with
  | some a => .ok a
  | none => .error (.status code reason)

/-- throw unless the check holds -/
def guardStatus (ok : Bool) (code : ℕ) (reason : String) : Tx Unit :=
  if ok then .ok () else .error (.status code reason)

/-- `ServerService.createServer` -/
def createServer (db : Db) (name : Option String) (ownerId : String) : Tx (Db × Server) := do
  guardStatus (!missing name) 400 "Server name cannot be empty"
  let (id, db) := db.randomUUID
  let savedServer : Server := ⟨id, name.getD "", ownerId, false⟩
  let db ← db.insertServer savedServer
  let (everyoneId, db) := db.randomUUID
  let db ← db.insertRole ⟨everyoneId, id, "@everyone", everyonePermissions⟩
  let (ownerRoleId, db) := db.randomUUID
  let db ← db.insertRole ⟨ownerRoleId, id, "@owner", ownerPermissions⟩
  let db ← db.saveMembership ⟨id, ownerId⟩
  let db ← db.assignRoleToMember ⟨id, ownerId, ownerRoleId⟩
  return (db, savedServer)

/-- `ServerService.updateServer` -/
def updateServer (db : Db) (id : Uuid) (newName : Option String) (requesterId : String) : Tx (Db × Server) := do
  guardStatus (!missing newName) 400 "Server name cannot be empty"
  let server ← orElseThrow (db.findServer id) 404 "Server not found"
  guardStatus (server.ownerId = requesterId) 403 "Only the owner can edit this server"
  let db ← db.saveServerName id (newName.getD "")
  return (db, { server with name := newName.getD "" })

/-- `ServerService.deleteServer` -/
def deleteServer (db : Db) (id : Uuid) (requesterId : String) : Tx Db := do
  let server ← orElseThrow (db.findServer id) 404 "Server not found"
  guardStatus (server.ownerId = requesterId) 403 "Only the owner can delete this server"
  return db.deleteServer id

/-- `ChannelService.createChannel` -/
def createChannel (db : Db) (serverId : Uuid) (name type : Option String) (userId : String) : Tx (Db × Channel) := do
  guardStatus (!missing name) 400 "Channel name cannot be empty"
  guardStatus (db.existsServer serverId) 404 "Server not found"
  guardStatus (db.existsMembership serverId userId) 403 "Only members can create channels"
  let type ← orElseThrow (type.bind ChannelType.valueOf) 400 "Invalid channel type. Must be TEXT or VOICE"
  let (id, db) := db.randomUUID
  let channel : Channel := ⟨id, serverId, name.getD "", type, false⟩
  let db ← db.insertChannel channel
  return (db, channel)

/-- `ChannelService.getServerAndVerifyManagePermission` -/
def getServerAndVerifyManagePermission (db : Db) (serverId : Uuid) (userId : String) : Tx Server := do
  let server ← orElseThrow (db.findServer serverId) 404 "Server not found"
  guardStatus (server.ownerId = userId) 403 "Requires MANAGE permission"
  return server

/-- the new type of a channel: unchanged when absent or blank -/
def newChannelType (type : ChannelType) (newType : Option String) : Tx ChannelType :=
  if missing newType then .ok type
  else orElseThrow (newType.bind ChannelType.valueOf) 400 "Invalid channel type"

/-- `ChannelService.updateChannel` -/
def updateChannel (db : Db) (serverId channelId : Uuid) (newName newType : Option String) (userId : String) :
    Tx (Db × Channel) := do
  let _ ← getServerAndVerifyManagePermission db serverId userId
  let channel ← orElseThrow (db.findChannel channelId) 404 "Channel not found"
  guardStatus (channel.serverId = serverId) 400 "Channel does not belong to this server"
  let type ← newChannelType channel.type newType
  let channel := { channel with name := if missing newName then channel.name else newName.getD "", type := type }
  let db ← db.saveChannel channel
  return (db, channel)

/-- `ChannelService.deleteChannel` -/
def deleteChannel (db : Db) (serverId channelId : Uuid) (userId : String) : Tx Db := do
  let _ ← getServerAndVerifyManagePermission db serverId userId
  let channel ← orElseThrow (db.findChannel channelId) 404 "Channel not found"
  guardStatus (channel.serverId = serverId) 400 "Channel does not belong to this server"
  return db.deleteChannel channelId

/-- `RoleService.createRole` -/
def createRole (db : Db) (serverId : Uuid) (name : Option String) (permissions : Option (Finset Permission)) :
    Tx (Db × Role) := do
  guardStatus (!missing name) 400 "Role name cannot be empty"
  guardStatus (permissions.any (· ≠ ∅)) 400 "Role permissions cannot be empty"
  guardStatus (db.existsServer serverId) 404 "Server not found"
  let (id, db) := db.randomUUID
  let role : Role := ⟨id, serverId, name.getD "", permissions.getD ∅⟩
  let db ← db.insertRole role
  return (db, role)

/-- `RoleService.assignRole` -/
def assignRole (db : Db) (serverId : Uuid) (targetUserId : String) (roleId : Uuid) (requesterId : String) : Tx Db := do
  let server ← orElseThrow (db.findServer serverId) 404 "Server not found"
  guardStatus (db.existsMembership serverId targetUserId) 404 "User is not a member of this server"
  let role ← orElseThrow (db.findRole roleId) 404 "Role not found"
  guardStatus (role.serverId = serverId) 400 "Role does not belong to this server"
  let isOwner : Bool := server.ownerId = requesterId
  let hasManagePermission := isOwner || decide (Permission.manage ∈ db.effective serverId requesterId)
  guardStatus hasManagePermission 403 "You need MANAGE permissions to assign roles"
  db.assignRoleToMember ⟨serverId, targetUserId, roleId⟩

/-- `MembershipService.joinServer` -/
def joinServer (db : Db) (serverId : Uuid) (userId : String) : Tx Db := do
  guardStatus (db.existsServer serverId) 404 "Server not found"
  guardStatus (!db.existsMembership serverId userId) 409 "already a member"
  let db ← db.saveMembership ⟨serverId, userId⟩
  match db.findRoleByName serverId "@everyone" with
  | some everyone => db.assignRoleToMember ⟨serverId, userId, everyone.id⟩
  | none => return db

/-- `MembershipService.leaveServer` -/
def leaveServer (db : Db) (serverId : Uuid) (userId : String) : Tx Db := do
  let server ← orElseThrow (db.findServer serverId) 404 "Server not found"
  guardStatus (server.ownerId ≠ userId) 400 "Owner cannot leave the server"
  guardStatus (db.existsMembership serverId userId) 404 "You are not a member of this server"
  return db.deleteMembership ⟨serverId, userId⟩

/-! ## Requests as transactions -/

inductive Request where
  | createServer (name : Option String) (ownerId : String)
  | updateServer (id : Uuid) (newName : Option String) (requesterId : String)
  | deleteServer (id : Uuid) (requesterId : String)
  | createChannel (serverId : Uuid) (name type : Option String) (userId : String)
  | updateChannel (serverId channelId : Uuid) (newName newType : Option String) (userId : String)
  | deleteChannel (serverId channelId : Uuid) (userId : String)
  | createRole (serverId : Uuid) (name : Option String) (permissions : Option (Finset Permission))
  | assignRole (serverId : Uuid) (targetUserId : String) (roleId : Uuid) (requesterId : String)
  | joinServer (serverId : Uuid) (userId : String)
  | leaveServer (serverId : Uuid) (userId : String)
deriving DecidableEq

/-- the database a request leaves when it commits -/
def handle (db : Db) : Request → Tx Db
  | .createServer name ownerId => Prod.fst <$> createServer db name ownerId
  | .updateServer id newName requesterId => Prod.fst <$> updateServer db id newName requesterId
  | .deleteServer id requesterId => deleteServer db id requesterId
  | .createChannel serverId name type userId => Prod.fst <$> createChannel db serverId name type userId
  | .updateChannel serverId channelId newName newType userId =>
    Prod.fst <$> updateChannel db serverId channelId newName newType userId
  | .deleteChannel serverId channelId userId => deleteChannel db serverId channelId userId
  | .createRole serverId name permissions => Prod.fst <$> createRole db serverId name permissions
  | .assignRole serverId targetUserId roleId requesterId => assignRole db serverId targetUserId roleId requesterId
  | .joinServer serverId userId => joinServer db serverId userId
  | .leaveServer serverId userId => leaveServer db serverId userId

/-- the request's transaction commits -/
def Succeeds (db : Db) (q : Request) : Prop := (handle db q).isOk = true

instance (db : Db) (q : Request) : Decidable (Succeeds db q) := inferInstanceAs (Decidable (_ = _))

/-- commit, or roll back -/
def step (db : Db) (q : Request) : Db :=
  match handle db q with
  | .ok db' => db'
  | .error _ => db

end Concordia.Servers
