/-
The servers service's database (`services/servers/src/main/resources/db/migration`, `model/*.java`,
`repository/*.java`): four tables, the constraints the migrations declare, and the statements the repositories issue.

- A table is a list of rows. `role_permissions` is folded into `Role.permissions`, as the entity reads it. Columns that
  no modelled function reads (`created_at`, the `users_cache` table) are left out.
- `Schema` states every PRIMARY KEY, UNIQUE and FOREIGN KEY of V1..V4. A `Db` carries it, so a database that violates a
  constraint cannot be built. A statement that would violate one fails with `Fault.constraintViolation`.
- `ON DELETE CASCADE` from `memberships` to `membership_roles` is part of `deleteMembership`. Servers and channels are
  never removed: `@SQLDelete` turns their deletion into an update, so the cascades from `servers` never fire.
- `findServer`, `existsServer`, `findChannel` carry the entities' `@SQLRestriction("deleted=false")`.
- A UUID is a number; only equality matters. `randomUUID` draws the next unused one.
-/
import Concordia.Lib.Run
import Concordia.Lib.Rows

namespace Concordia.Servers

open Concordia.Lib

/-! ## Rows -/

abbrev Uuid := ℕ

inductive Permission where
  | read
  | write
  | voiceJoin
  | manage
deriving DecidableEq, Repr

instance : Fintype Permission := ⟨{.read, .write, .voiceJoin, .manage}, fun p => by cases p <;> decide⟩

inductive ChannelType where
  | text
  | voice
deriving DecidableEq, Repr

structure Server where
  id : Uuid
  name : String
  ownerId : String
  deleted : Bool
deriving DecidableEq, Repr

structure Channel where
  id : Uuid
  serverId : Uuid
  name : String
  type : ChannelType
  deleted : Bool
deriving DecidableEq, Repr

structure Membership where
  serverId : Uuid
  userId : String
deriving DecidableEq, Repr

structure Role where
  id : Uuid
  serverId : Uuid
  name : String
  permissions : Finset Permission
deriving DecidableEq

/-- a row of `membership_roles` -/
structure MembershipRole where
  serverId : Uuid
  userId : String
  roleId : Uuid
deriving DecidableEq, Repr

def MembershipRole.membership (m : MembershipRole) : Membership := ⟨m.serverId, m.userId⟩

structure Tables where
  servers : List Server
  channels : List Channel
  memberships : List Membership
  roles : List Role
  membershipRoles : List MembershipRole
  /-- how many UUIDs have been drawn -/
  drawn : ℕ
deriving DecidableEq

/-! ## Constraints -/

/-- the constraints of migrations V1..V4, and that every stored UUID was drawn -/
structure Schema (t : Tables) : Prop where
  serversPk : (t.servers.map Server.id).Nodup
  channelsPk : (t.channels.map Channel.id).Nodup
  channelsFk : ∀ c ∈ t.channels, c.serverId ∈ t.servers.map Server.id
  membershipsPk : t.memberships.Nodup
  membershipsFk : ∀ m ∈ t.memberships, m.serverId ∈ t.servers.map Server.id
  rolesPk : (t.roles.map Role.id).Nodup
  rolesFk : ∀ r ∈ t.roles, r.serverId ∈ t.servers.map Server.id
  /-- `uq_roles_server_name` -/
  rolesUq : (t.roles.map fun r => (r.serverId, r.name)).Nodup
  membershipRolesPk : t.membershipRoles.Nodup
  membershipRolesRoleFk : ∀ m ∈ t.membershipRoles, m.roleId ∈ t.roles.map Role.id
  membershipRolesMemberFk : ∀ m ∈ t.membershipRoles, m.membership ∈ t.memberships
  serversDrawn : ∀ s ∈ t.servers, s.id < t.drawn
  channelsDrawn : ∀ c ∈ t.channels, c.id < t.drawn
  rolesDrawn : ∀ r ∈ t.roles, r.id < t.drawn

/-- a database: tables that satisfy the declared constraints -/
structure Db extends Tables where
  schema : Schema toTables

instance : DecidableEq Db := fun a b =>
  decidable_of_iff (a.toTables = b.toTables) ⟨fun h => by cases a; cases b; cases h; rfl, fun h => by rw [h]⟩

def Db.empty : Db where
  servers := []
  channels := []
  memberships := []
  roles := []
  membershipRoles := []
  drawn := 0
  schema := by constructor <;> simp

/-- why a request fails -/
inductive Fault where
  /-- a `ResponseStatusException` of the service -/
  | status (code : ℕ) (reason : String)
  /-- the database refuses a statement -/
  | constraintViolation
deriving DecidableEq, Repr

abbrev Tx := Except Fault

/-- `VARCHAR(255)` counts characters, and PostgreSQL refuses a NUL in a text. That it cuts off surplus spaces at the end
instead of refusing a text is left out. -/
def varchar255 (s : String) : Prop := s.length ≤ 255 ∧ '\x00' ∉ s.toList

instance (s : String) : Decidable (varchar255 s) := inferInstanceAs (Decidable (_ ∧ _))

/-! ## Queries -/

namespace Tables

/-- `serverRepository.findById` -/
def findServer (t : Tables) (id : Uuid) : Option Server :=
  t.servers.find? fun s => s.id = id ∧ s.deleted = false

/-- `serverRepository.existsById` -/
def existsServer (t : Tables) (id : Uuid) : Bool := (t.findServer id).isSome

/-- `channelRepository.findById` -/
def findChannel (t : Tables) (id : Uuid) : Option Channel :=
  t.channels.find? fun c => c.id = id ∧ c.deleted = false

/-- `membershipRepository.existsByServerIdAndUserId` -/
def existsMembership (t : Tables) (serverId : Uuid) (userId : String) : Bool :=
  (⟨serverId, userId⟩ : Membership) ∈ t.memberships

/-- `roleRepository.findById` -/
def findRole (t : Tables) (id : Uuid) : Option Role := t.roles.find? fun r => r.id = id

def findRoleByName (t : Tables) (serverId : Uuid) (name : String) : Option Role :=
  t.roles.find? fun r => r.serverId = serverId ∧ r.name = name

/-- `roles r INNER JOIN membership_roles mr ON r.id = mr.role_id WHERE mr.server_id = ? AND mr.user_id = ?` -/
def findRolesByUserAndServer (t : Tables) (serverId : Uuid) (userId : String) : List Role :=
  t.roles.filter fun r => (⟨serverId, userId, r.id⟩ : MembershipRole) ∈ t.membershipRoles

theorem findServer_some {t : Tables} {id : Uuid} {s : Server} (h : t.findServer id = some s) :
    s ∈ t.servers ∧ s.id = id ∧ s.deleted = false := by
  obtain ⟨hm, hp⟩ := find?_some_iff_mem h
  exact ⟨hm, by simpa using hp⟩

theorem existsServer_iff {t : Tables} {id : Uuid} :
    t.existsServer id = true ↔ ∃ s ∈ t.servers, s.id = id ∧ s.deleted = false := by
  simp [existsServer, findServer, List.find?_isSome]

theorem findChannel_some {t : Tables} {id : Uuid} {c : Channel} (h : t.findChannel id = some c) :
    c ∈ t.channels ∧ c.id = id ∧ c.deleted = false := by
  obtain ⟨hm, hp⟩ := find?_some_iff_mem h
  exact ⟨hm, by simpa using hp⟩

theorem findRole_some {t : Tables} {id : Uuid} {r : Role} (h : t.findRole id = some r) : r ∈ t.roles ∧ r.id = id := by
  obtain ⟨hm, hp⟩ := find?_some_iff_mem h
  exact ⟨hm, by simpa using hp⟩

theorem findRoleByName_some {t : Tables} {s : Uuid} {n : String} {r : Role} (h : t.findRoleByName s n = some r) :
    r ∈ t.roles ∧ r.serverId = s ∧ r.name = n := by
  obtain ⟨hm, hp⟩ := find?_some_iff_mem h
  exact ⟨hm, by simpa using hp⟩

@[simp] theorem existsMembership_iff {t : Tables} {s : Uuid} {u : String} :
    t.existsMembership s u = true ↔ (⟨s, u⟩ : Membership) ∈ t.memberships := by
  simp [existsMembership]

@[simp] theorem mem_findRolesByUserAndServer {t : Tables} {s : Uuid} {u : String} {r : Role} :
    r ∈ t.findRolesByUserAndServer s u ↔ r ∈ t.roles ∧ (⟨s, u, r.id⟩ : MembershipRole) ∈ t.membershipRoles := by
  simp [findRolesByUserAndServer]

end Tables

namespace Db

/-- the row a unique id finds is the stored one -/
theorem findChannel_eq (db : Db) {c : Channel} (hc : c ∈ db.channels) (hd : c.deleted = false) :
    db.findChannel c.id = some c := by
  refine find?_eq_of_unique hc (by simp [hd]) fun y hy hp => eq_of_key db.schema.channelsPk hy hc ?_
  exact (of_decide_eq_true hp).1

theorem findRoleByName_eq (db : Db) {r : Role} (hr : r ∈ db.roles) : db.findRoleByName r.serverId r.name = some r :=
  find?_eq_of_unique hr (by simp) fun y hy hp => eq_of_key db.schema.rolesUq hy hr (by simpa using hp)

/-! ## Statements -/

/-- `UUID.randomUUID()` -/
def randomUUID (db : Db) : Uuid × Db :=
  (db.drawn, { db with
    drawn := db.drawn + 1
    schema := { db.schema with
      serversDrawn := fun s hs => Nat.lt_succ_of_lt (db.schema.serversDrawn s hs)
      channelsDrawn := fun c hc => Nat.lt_succ_of_lt (db.schema.channelsDrawn c hc)
      rolesDrawn := fun r hr => Nat.lt_succ_of_lt (db.schema.rolesDrawn r hr) } })

/-- INSERT INTO servers -/
def insertServer (db : Db) (x : Server) : Tx Db :=
  if h : varchar255 x.name ∧ varchar255 x.ownerId ∧ x.id ∉ db.servers.map Server.id ∧ x.id < db.drawn then
    .ok { db with
      servers := db.servers ++ [x]
      schema := { db.schema with
        serversPk := nodup_keys_snoc db.schema.serversPk h.2.2.1
        channelsFk := fun c hc => by simpa using Or.inl (by simpa using db.schema.channelsFk c hc)
        membershipsFk := fun m hm => by simpa using Or.inl (by simpa using db.schema.membershipsFk m hm)
        rolesFk := fun r hr => by simpa using Or.inl (by simpa using db.schema.rolesFk r hr)
        serversDrawn := fun s hs => (mem_snoc.1 hs).elim (db.schema.serversDrawn s) fun e => e ▸ h.2.2.2 } }
  else .error .constraintViolation

/-- an UPDATE of server rows that keeps their ids -/
def updateServers (db : Db) (f : Server → Server) (hf : ∀ x, (f x).id = x.id) : Db :=
  { db with
    servers := db.servers.map f
    schema := { db.schema with
      serversPk := by rw [map_update_keys hf]; exact db.schema.serversPk
      channelsFk := by rw [map_update_keys hf]; exact db.schema.channelsFk
      membershipsFk := by rw [map_update_keys hf]; exact db.schema.membershipsFk
      rolesFk := by rw [map_update_keys hf]; exact db.schema.rolesFk
      serversDrawn := fun s hs => by
        obtain ⟨x, hx, rfl⟩ := List.mem_map.1 hs
        rw [hf]; exact db.schema.serversDrawn x hx } }

/-- the new name of a server, written to its row -/
def rename (id : Uuid) (name : String) (x : Server) : Server := if x.id = id then { x with name := name } else x

/-- `UPDATE servers SET deleted = true WHERE id=?` -/
def softDelete (id : Uuid) (x : Server) : Server := if x.id = id then { x with deleted := true } else x

@[simp] theorem rename_id (id : Uuid) (n : String) (x : Server) : (rename id n x).id = x.id := by
  unfold rename; split <;> rfl

@[simp] theorem rename_ownerId (id : Uuid) (n : String) (x : Server) : (rename id n x).ownerId = x.ownerId := by
  unfold rename; split <;> rfl

@[simp] theorem softDelete_id (id : Uuid) (x : Server) : (softDelete id x).id = x.id := by
  unfold softDelete; split <;> rfl

@[simp] theorem softDelete_ownerId (id : Uuid) (x : Server) : (softDelete id x).ownerId = x.ownerId := by
  unfold softDelete; split <;> rfl

/-- `serverRepository.save` of a loaded server whose name changed -/
def saveServerName (db : Db) (id : Uuid) (name : String) : Tx Db :=
  if varchar255 name then .ok (db.updateServers (rename id name) (rename_id id name)) else .error .constraintViolation

/-- `serverRepository.delete` -/
def deleteServer (db : Db) (id : Uuid) : Db := db.updateServers (softDelete id) (softDelete_id id)

/-- INSERT INTO channels -/
def insertChannel (db : Db) (x : Channel) : Tx Db :=
  if h : varchar255 x.name ∧ x.serverId ∈ db.servers.map Server.id ∧ x.id ∉ db.channels.map Channel.id ∧
      x.id < db.drawn then
    .ok { db with
      channels := db.channels ++ [x]
      schema := { db.schema with
        channelsPk := nodup_keys_snoc db.schema.channelsPk h.2.2.1
        channelsFk := fun c hc => (mem_snoc.1 hc).elim (db.schema.channelsFk c) fun e => e ▸ h.2.1
        channelsDrawn := fun c hc => (mem_snoc.1 hc).elim (db.schema.channelsDrawn c) fun e => e ▸ h.2.2.2 } }
  else .error .constraintViolation

/-- an UPDATE of channel rows that keeps their ids and servers -/
def updateChannels (db : Db) (f : Channel → Channel) (hf : ∀ x, (f x).id = x.id)
    (hs : ∀ x, (f x).serverId = x.serverId) : Db :=
  { db with
    channels := db.channels.map f
    schema := { db.schema with
      channelsPk := by rw [map_update_keys hf]; exact db.schema.channelsPk
      channelsFk := fun c hc => by
        obtain ⟨x, hx, rfl⟩ := List.mem_map.1 hc
        rw [hs]; exact db.schema.channelsFk x hx
      channelsDrawn := fun c hc => by
        obtain ⟨x, hx, rfl⟩ := List.mem_map.1 hc
        rw [hf]; exact db.schema.channelsDrawn x hx } }

/-- the loaded channel `c`, written back to its row -/
def rewriteChannel (c : Channel) (x : Channel) : Channel :=
  if x.id = c.id then { x with name := c.name, type := c.type } else x

/-- `UPDATE channels SET deleted = true WHERE id=?` -/
def softDeleteChannel (id : Uuid) (x : Channel) : Channel := if x.id = id then { x with deleted := true } else x

@[simp] theorem rewriteChannel_id (c x : Channel) : (rewriteChannel c x).id = x.id := by
  unfold rewriteChannel; split <;> rfl

@[simp] theorem rewriteChannel_serverId (c x : Channel) : (rewriteChannel c x).serverId = x.serverId := by
  unfold rewriteChannel; split <;> rfl

@[simp] theorem softDeleteChannel_id (id : Uuid) (x : Channel) : (softDeleteChannel id x).id = x.id := by
  unfold softDeleteChannel; split <;> rfl

@[simp] theorem softDeleteChannel_serverId (id : Uuid) (x : Channel) :
    (softDeleteChannel id x).serverId = x.serverId := by
  unfold softDeleteChannel; split <;> rfl

/-- `channelRepository.save` of a loaded channel whose name or type changed -/
def saveChannel (db : Db) (c : Channel) : Tx Db :=
  if varchar255 c.name then
    .ok (db.updateChannels (rewriteChannel c) (rewriteChannel_id c) (rewriteChannel_serverId c))
  else .error .constraintViolation

/-- `channelRepository.delete` -/
def deleteChannel (db : Db) (id : Uuid) : Db :=
  db.updateChannels (softDeleteChannel id) (softDeleteChannel_id id) (softDeleteChannel_serverId id)

/-- INSERT INTO roles, with the role's permissions -/
def insertRole (db : Db) (x : Role) : Tx Db :=
  if h : varchar255 x.name ∧ x.serverId ∈ db.servers.map Server.id ∧ x.id ∉ db.roles.map Role.id ∧
      (x.serverId, x.name) ∉ db.roles.map (fun r => (r.serverId, r.name)) ∧ x.id < db.drawn then
    .ok { db with
      roles := db.roles ++ [x]
      schema := { db.schema with
        rolesPk := nodup_keys_snoc db.schema.rolesPk h.2.2.1
        rolesUq := nodup_keys_snoc (k := fun r : Role => (r.serverId, r.name)) db.schema.rolesUq h.2.2.2.1
        rolesFk := fun r hr => (mem_snoc.1 hr).elim (db.schema.rolesFk r) fun e => e ▸ h.2.1
        membershipRolesRoleFk := fun m hm => by simpa using Or.inl (by simpa using db.schema.membershipRolesRoleFk m hm)
        rolesDrawn := fun r hr => (mem_snoc.1 hr).elim (db.schema.rolesDrawn r) fun e => e ▸ h.2.2.2.2 } }
  else .error .constraintViolation

/-- `membershipRepository.save`: the id is assigned, so it merges and inserts only a missing row -/
def saveMembership (db : Db) (x : Membership) : Tx Db :=
  if hx : x ∈ db.memberships then .ok db
  else if h : varchar255 x.userId ∧ x.serverId ∈ db.servers.map Server.id then
    .ok { db with
      memberships := db.memberships ++ [x]
      schema := { db.schema with
        membershipsPk := by
          simpa using nodup_keys_snoc (k := id) (by simpa using db.schema.membershipsPk) (by simpa using hx)
        membershipsFk := fun m hm => (mem_snoc.1 hm).elim (db.schema.membershipsFk m) fun e => e ▸ h.2
        membershipRolesMemberFk := fun m hm => List.mem_append_left _ (db.schema.membershipRolesMemberFk m hm) } }
  else .error .constraintViolation

/-- `deleteByServerIdAndUserId`, cascading to `membership_roles` -/
def deleteMembership (db : Db) (x : Membership) : Db :=
  { db with
    memberships := db.memberships.filter (· ≠ x)
    membershipRoles := db.membershipRoles.filter (·.membership ≠ x)
    schema := { db.schema with
      membershipsPk := db.schema.membershipsPk.filter _
      membershipsFk := fun m hm => db.schema.membershipsFk m (List.mem_filter.1 hm).1
      membershipRolesPk := db.schema.membershipRolesPk.filter _
      membershipRolesRoleFk := fun m hm => db.schema.membershipRolesRoleFk m (List.mem_filter.1 hm).1
      membershipRolesMemberFk := fun m hm => by
        obtain ⟨h1, h2⟩ := List.mem_filter.1 hm
        exact List.mem_filter.2 ⟨db.schema.membershipRolesMemberFk m h1, h2⟩ } }

/-- `assignRoleToMember`: INSERT INTO membership_roles .. ON CONFLICT DO NOTHING -/
def assignRoleToMember (db : Db) (x : MembershipRole) : Tx Db :=
  if hx : x ∈ db.membershipRoles then .ok db
  else if h : x.roleId ∈ db.roles.map Role.id ∧ x.membership ∈ db.memberships then
    .ok { db with
      membershipRoles := db.membershipRoles ++ [x]
      schema := { db.schema with
        membershipRolesPk := by
          simpa using nodup_keys_snoc (k := id) (by simpa using db.schema.membershipRolesPk) (by simpa using hx)
        membershipRolesRoleFk := fun m hm => (mem_snoc.1 hm).elim (db.schema.membershipRolesRoleFk m) fun e => e ▸ h.1
        membershipRolesMemberFk := fun m hm =>
          (mem_snoc.1 hm).elim (db.schema.membershipRolesMemberFk m) fun e => e ▸ h.2 } }
  else .error .constraintViolation

end Db

end Concordia.Servers
