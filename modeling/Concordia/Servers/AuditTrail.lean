/-
The audit events of `ServerService` against the outcome of its transactions. Each method emits its success event as its
last statement, inside the transaction. The entity manager flushes late: `createServer`'s inserts go out with the native
INSERT INTO membership_roles, before the event; the UPDATE of `updateServer` and of `deleteServer` goes out at commit,
after it.

- `method`: what a method leaves when it returns (what is flushed, what is pending, the event); `transact`: the
  transaction around it. `transact_eq_step`: without failures of the database it is `step`.
- `Truthful`: a success event exactly if the transaction committed, and the event describes what was committed.
- `truthful_iff`: so it is exactly if the method fails, or what is pending is accepted and the commit goes through.
- `long_name_announced`: a name longer than its column is announced and then refused.

`emit` publishes to Kafka and never throws; what is handed to it is what is emitted.
-/
import Concordia.Servers.CheckPerm

namespace Concordia.Servers

open Concordia.Lib

/-! ## The methods and their transactions -/

inductive ServerRequest where
  | createServer (name : Option String) (ownerId : String)
  | updateServer (id : Uuid) (newName : Option String) (requesterId : String)
  | deleteServer (id : Uuid) (requesterId : String)
deriving DecidableEq, Repr

/-- the same request, without its audit event -/
def ServerRequest.request : ServerRequest → Request
  | .createServer name ownerId => .createServer name ownerId
  | .updateServer id newName requesterId => .updateServer id newName requesterId
  | .deleteServer id requesterId => .deleteServer id requesterId

/-- what is handed to `AuditEmitter.emit` -/
structure AuditEvent where
  eventType : String
  actorUserId : String
  resourceType : String
  resourceId : String
  outcome : String
  /-- `metadata.name` -/
  name : String
deriving DecidableEq, Repr

/-- the change of a managed entity that is not yet flushed -/
inductive Pending where
  | none
  | rename (id : Uuid) (name : String)
  | softDelete (id : Uuid)
deriving DecidableEq, Repr

def Db.flush (db : Db) : Pending → Tx Db
  | .none => .ok db
  | .rename id name => db.saveServerName id name
  | .softDelete id => .ok (db.deleteServer id)

/-- what the database does beyond its constraints: whether it carries out the flush before the event, and the commit -/
structure Outcomes where
  flush : Bool
  commit : Bool
deriving DecidableEq, Repr

/-- what a method leaves when it returns -/
structure Returned where
  db : Db
  pending : Pending
  event : AuditEvent

/-- a statement or a commit that the database may refuse for reasons of its own -/
def carriedOut (ok : Bool) : Tx Unit := if ok then .ok () else .error .constraintViolation

/-- `createServer`, `updateServer` and `deleteServer` up to their return -/
def method (db : Db) (o : Outcomes) : ServerRequest → Tx Returned
  | .createServer name ownerId => do
    let (db, savedServer) ← createServer db name ownerId
    carriedOut o.flush
    return ⟨db, .none, ⟨"servers.server.create", ownerId, "server", savedServer.id.toString, "success", name.getD ""⟩⟩
  | .updateServer id newName requesterId => do
    guardStatus (!missing newName) 400 "Server name cannot be empty"
    let server ← orElseThrow (db.findServer id) 404 "Server not found"
    guardStatus (server.ownerId = requesterId) 403 "Only the owner can edit this server"
    return ⟨db, .rename id (newName.getD ""),
      ⟨"servers.server.update", requesterId, "server", id.toString, "success", newName.getD ""⟩⟩
  | .deleteServer id requesterId => do
    let server ← orElseThrow (db.findServer id) 404 "Server not found"
    guardStatus (server.ownerId = requesterId) 403 "Only the owner can delete this server"
    return ⟨db, .softDelete id, ⟨"servers.server.delete", requesterId, "server", id.toString, "success", server.name⟩⟩

def commit (o : Outcomes) (r : Returned) : Tx Db := do
  let db ← r.db.flush r.pending
  carriedOut o.commit
  return db

/-- the end of a request -/
structure Ended where
  db : Db
  committed : Bool
  emitted : List AuditEvent

/-- `@Transactional`: a method that throws is rolled back, one that returns is committed -/
def transact (db : Db) (o : Outcomes) (q : ServerRequest) : Ended :=
  match method db o q with
  | .error _ => ⟨db, false, []⟩
  | .ok r =>
    match commit o r with
    | .error _ => ⟨db, false, [r.event]⟩
    | .ok db' => ⟨db', true, [r.event]⟩

/-- a method and its commit, by a database that refuses nothing but what its constraints forbid, are the operation -/
theorem method_commit (db : Db) (q : ServerRequest) :
    (method db ⟨true, true⟩ q >>= commit ⟨true, true⟩) = handle db q.request := by
  cases q with
  | createServer name ownerId =>
    simp only [method, handle, ServerRequest.request]
    cases createServer db name ownerId <;> rfl
  | updateServer id newName requesterId =>
    simp only [method, handle, ServerRequest.request, updateServer]
    cases guardStatus (!missing newName) 400 "Server name cannot be empty" with
    | error => rfl
    | ok =>
      cases orElseThrow (db.findServer id) 404 "Server not found" with
      | error => rfl
      | ok server =>
        simp only [bind, Except.bind]
        cases guardStatus (server.ownerId = requesterId) 403 "Only the owner can edit this server" with
        | error => rfl
        | ok =>
          simp only [commit, Db.flush, pure, Except.pure, bind, Except.bind]
          cases db.saveServerName id (newName.getD "") <;> rfl
  | deleteServer id requesterId =>
    simp only [method, handle, ServerRequest.request, deleteServer]
    cases orElseThrow (db.findServer id) 404 "Server not found" with
    | error => rfl
    | ok server =>
      simp only [bind, Except.bind]
      cases guardStatus (server.ownerId = requesterId) 403 "Only the owner can delete this server" <;> rfl

theorem transact_eq_step (db : Db) (q : ServerRequest) : (transact db ⟨true, true⟩ q).db = step db q.request := by
  rw [step, ← method_commit]
  unfold transact
  cases method db ⟨true, true⟩ q with
  | error => rfl
  | ok r =>
    simp only [bind, Except.bind]
    cases commit ⟨true, true⟩ r <;> rfl

/-! ## Truthfulness -/

/-- the event says who changed which server, and the name in it is the server's name after the change -/
def Describes (db db' : Db) (e : AuditEvent) : ServerRequest → Prop
  | .createServer _ ownerId => e.eventType = "servers.server.create" ∧ e.actorUserId = ownerId ∧
    ∃ x ∈ db'.servers, x.id ∉ db.servers.map Server.id ∧ x.id.toString = e.resourceId ∧ x.name = e.name ∧
      x.ownerId = ownerId ∧ x.deleted = false
  | .updateServer id _ requesterId => e.eventType = "servers.server.update" ∧ e.actorUserId = requesterId ∧
    ∃ x ∈ db'.servers, x.id = id ∧ id.toString = e.resourceId ∧ x.name = e.name ∧ x.deleted = false
  | .deleteServer id requesterId => e.eventType = "servers.server.delete" ∧ e.actorUserId = requesterId ∧
    ∃ x ∈ db'.servers, x.id = id ∧ id.toString = e.resourceId ∧ x.name = e.name ∧ x.deleted = true

/-- a success event is emitted exactly if the transaction committed, and describes what was committed -/
structure Truthful (db : Db) (o : Outcomes) (q : ServerRequest) : Prop where
  announced : (∃ e ∈ (transact db o q).emitted, e.outcome = "success") ↔ (transact db o q).committed = true
  described : (transact db o q).committed = true → ∀ e ∈ (transact db o q).emitted, Describes db (transact db o q).db e q

/-- the request passes the checks of its method, and the database carries out what is flushed before the event -/
def Returns (db : Db) (o : Outcomes) : ServerRequest → Prop
  | .createServer name ownerId =>
    missing name = false ∧ varchar255 (name.getD "") ∧ varchar255 ownerId ∧ o.flush = true
  | .updateServer id newName requesterId =>
    missing newName = false ∧ ∃ x, db.findServer id = some x ∧ x.ownerId = requesterId
  | .deleteServer id requesterId => ∃ x, db.findServer id = some x ∧ x.ownerId = requesterId

/-- what is flushed at commit fits its columns -/
def Fits : ServerRequest → Prop
  | .updateServer _ newName _ => varchar255 (newName.getD "")
  | _ => True

/-! ## When a method returns -/

theorem Tx.ok_of_isOk {α : Type} {x : Tx α} (h : x.isOk = true) : ∃ a, x = .ok a := by
  cases x with
  | error e => cases h
  | ok a => exact ⟨a, rfl⟩

theorem insertServer_fresh {db : Db} {name ownerId : String} (hname : varchar255 name) (howner : varchar255 ownerId) :
    ∃ db', db.randomUUID.2.insertServer ⟨db.drawn, name, ownerId, false⟩ = .ok db' := by
  refine ⟨_, dif_pos ⟨hname, howner, ?_, Nat.lt_succ_self _⟩⟩
  intro hmem
  obtain ⟨x, hx, hid⟩ := List.mem_map.1 hmem
  exact absurd hid (Nat.ne_of_lt (db.schema.serversDrawn x hx))

/-- a role whose id has just been drawn and whose name its server does not have yet -/
theorem insertRole_fresh {db : Db} {serverId : Uuid} {name : String} {permissions : Finset Permission}
    (hname : varchar255 name) (hserver : serverId ∈ db.servers.map Server.id)
    (hnew : ∀ r ∈ db.roles, r.serverId = serverId → r.name ≠ name) :
    ∃ db', db.randomUUID.2.insertRole ⟨db.drawn, serverId, name, permissions⟩ = .ok db' := by
  refine ⟨_, dif_pos ⟨hname, hserver, ?_, ?_, Nat.lt_succ_self _⟩⟩
  · intro hmem
    obtain ⟨r, hr, hid⟩ := List.mem_map.1 hmem
    exact absurd hid (Nat.ne_of_lt (db.schema.rolesDrawn r hr))
  · intro hmem
    obtain ⟨r, hr, heq⟩ := List.mem_map.1 hmem
    simp only [Prod.mk.injEq] at heq
    exact hnew r hr heq.1 heq.2

theorem saveMembership_known {db : Db} {x : Membership} (huser : varchar255 x.userId)
    (hserver : x.serverId ∈ db.servers.map Server.id) : ∃ db', db.saveMembership x = .ok db' := by
  unfold Db.saveMembership
  split_ifs with hx hfits
  · exact ⟨_, rfl⟩
  · exact ⟨_, rfl⟩
  · exact absurd ⟨huser, hserver⟩ hfits

theorem assignRoleToMember_known {db : Db} {x : MembershipRole} (hrole : x.roleId ∈ db.roles.map Role.id)
    (hmember : x.membership ∈ db.memberships) : ∃ db', db.assignRoleToMember x = .ok db' := by
  unfold Db.assignRoleToMember
  split_ifs with hx hknown
  · exact ⟨_, rfl⟩
  · exact ⟨_, rfl⟩
  · exact absurd ⟨hrole, hmember⟩ hknown

/-- **createServer** fails only on a missing name and on texts that do not fit their columns. -/
theorem createServer_isOk {db : Db} {name : Option String} {ownerId : String} :
    (createServer db name ownerId).isOk = true ↔
      missing name = false ∧ varchar255 (name.getD "") ∧ varchar255 ownerId := by
  refine ⟨?_, ?_⟩
  · intro h
    obtain ⟨_, h⟩ := Tx.ok_of_isOk h
    obtain ⟨_, hn, h⟩ := Tx.bind_ok h
    obtain ⟨db1, h1, -⟩ := Tx.bind_ok h
    unfold Db.insertServer at h1
    split_ifs at h1 with hfits
    exact ⟨by simpa using guardStatus_ok hn, hfits.1, hfits.2.1⟩
  · rintro ⟨hn, hname, howner⟩
    obtain ⟨db1, h1⟩ := @insertServer_fresh db _ _ hname howner
    have t1 := Db.insertServer_ok h1
    have hserver : db.drawn ∈ db1.servers.map Server.id := by
      rw [t1]
      simp
    -- no role of the new server is stored yet
    have hnone : ∀ r ∈ db1.roles, r.serverId ≠ db.drawn := by
      rw [t1]
      intro r hr heq
      obtain ⟨x, hx, hid⟩ := List.mem_map.1 (db.schema.rolesFk r hr)
      exact absurd (hid.trans heq) (Nat.ne_of_lt (db.schema.serversDrawn x hx))
    obtain ⟨db2, h2⟩ := @insertRole_fresh db1 db.drawn "@everyone" everyonePermissions
      (by decide) hserver fun r hr heq => absurd heq (hnone r hr)
    have t2 := Db.insertRole_ok h2
    have hserver2 : db.drawn ∈ db2.servers.map Server.id := by rw [t2]; exact hserver
    obtain ⟨db3, h3⟩ := @insertRole_fresh db2 db.drawn "@owner" ownerPermissions (by decide) hserver2 (by
        rw [t2]
        intro r hr heq
        rcases mem_snoc.1 hr with hr | rfl
        · exact absurd heq (hnone r hr)
        · simp)
    have t3 := Db.insertRole_ok h3
    obtain ⟨db4, h4⟩ := @saveMembership_known db3 ⟨db.drawn, ownerId⟩ howner (by rw [t3]; exact hserver2)
    have t4 := Db.saveMembership_ok h4
    obtain ⟨db5, h5⟩ := @assignRoleToMember_known db4 ⟨db.drawn, ownerId, db2.drawn⟩
      (by rw [t4, t3]; simp) (by rw [t4]; exact mem_addRow.2 (Or.inr rfl))
    have hok : createServer db name ownerId = .ok (db5, ⟨db.drawn, name.getD "", ownerId, false⟩) := by
      simp only [createServer, guardStatus, hn, Bool.not_false, if_true, bind, Except.bind]
      rw [show db.randomUUID = (db.drawn, db.randomUUID.2) from rfl]
      simp only [h1]
      rw [show db1.randomUUID = (db1.drawn, db1.randomUUID.2) from rfl]
      simp only [h2]
      rw [show db2.randomUUID = (db2.drawn, db2.randomUUID.2) from rfl]
      simp only [h3, h4, h5]
      rfl
    rw [hok]
    rfl

theorem carriedOut_ok {ok : Bool} {u : Unit} (h : carriedOut ok = .ok u) : ok = true := by
  unfold carriedOut at h
  split_ifs at h with hok
  exact hok

/-- **A method returns** exactly if the request passes its checks and the database carries out what is flushed before. -/
theorem method_ok_iff {db : Db} {o : Outcomes} {q : ServerRequest} : (∃ r, method db o q = .ok r) ↔ Returns db o q := by
  cases q with
  | createServer name ownerId =>
    refine ⟨?_, ?_⟩
    · rintro ⟨r, h⟩
      obtain ⟨x, hx, h⟩ := Tx.bind_ok h
      obtain ⟨_, hflush, -⟩ := Tx.bind_ok h
      have hok : (createServer db name ownerId).isOk = true := by rw [hx]; rfl
      obtain ⟨hn, hname, howner⟩ := createServer_isOk.1 hok
      exact ⟨hn, hname, howner, carriedOut_ok hflush⟩
    · rintro ⟨hn, hname, howner, hflush⟩
      obtain ⟨⟨db', x⟩, hx⟩ := Tx.ok_of_isOk ((@createServer_isOk db _ _).2 ⟨hn, hname, howner⟩)
      simp [method, hx, carriedOut, hflush, bind, Except.bind, pure, Except.pure]
  | updateServer id newName requesterId =>
    refine ⟨?_, ?_⟩
    · rintro ⟨r, h⟩
      obtain ⟨_, hn, h⟩ := Tx.bind_ok h
      obtain ⟨x, hx, h⟩ := Tx.bind_ok h
      obtain ⟨_, ho, -⟩ := Tx.bind_ok h
      exact ⟨by simpa using guardStatus_ok hn, x, orElseThrow_ok hx, by simpa using guardStatus_ok ho⟩
    · rintro ⟨hn, x, hx, rfl⟩
      simp [method, guardStatus, hn, hx, orElseThrow, bind, Except.bind, pure, Except.pure]
  | deleteServer id requesterId =>
    refine ⟨?_, ?_⟩
    · rintro ⟨r, h⟩
      obtain ⟨x, hx, h⟩ := Tx.bind_ok h
      obtain ⟨_, ho, -⟩ := Tx.bind_ok h
      exact ⟨x, orElseThrow_ok hx, by simpa using guardStatus_ok ho⟩
    · rintro ⟨x, hx, rfl⟩
      simp [method, guardStatus, hx, orElseThrow, bind, Except.bind, pure, Except.pure]

/-! ## What is announced -/

theorem rename_self {id : Uuid} {name : String} {x : Server} (h : x.id = id) : Db.rename id name x = { x with name } :=
  if_pos h

theorem softDelete_self {id : Uuid} {x : Server} (h : x.id = id) : Db.softDelete id x = { x with deleted := true } :=
  if_pos h

/-- the new server's row, after everything else has been stored as well -/
theorem createServer_row {db db' : Db} {name : Option String} {ownerId : String} {x : Server}
    (h : createServer db name ownerId = .ok (db', x)) : x = ⟨db.drawn, name.getD "", ownerId, false⟩ ∧ x ∈ db'.servers := by
  obtain ⟨_, _, h⟩ := Tx.bind_ok h
  obtain ⟨db1, h1, h⟩ := Tx.bind_ok h
  obtain ⟨db2, h2, h⟩ := Tx.bind_ok h
  obtain ⟨db3, h3, h⟩ := Tx.bind_ok h
  obtain ⟨db4, h4, h⟩ := Tx.bind_ok h
  obtain ⟨db5, h5, h⟩ := Tx.bind_ok h
  cases h
  have s1 : db1.servers = db.servers ++ [⟨db.drawn, name.getD "", ownerId, false⟩] :=
    congrArg Tables.servers (Db.insertServer_ok h1)
  have s2 : db2.servers = db1.servers := by rw [Db.insertRole_ok h2]
  have s3 : db3.servers = db2.servers := by rw [Db.insertRole_ok h3]
  have s4 : db4.servers = db3.servers := by rw [Db.saveMembership_ok h4]
  have s5 : db'.servers = db4.servers := by rw [Db.assignRoleToMember_ok h5]
  refine ⟨rfl, ?_⟩
  rw [s5, s4, s3, s2, s1]
  exact mem_snoc.2 (Or.inr rfl)

/-- **A committed event describes the change**, and is a success event. -/
theorem event_describes {db db' : Db} {o : Outcomes} {q : ServerRequest} {r : Returned} (hr : method db o q = .ok r)
    (hc : commit o r = .ok db') : Describes db db' r.event q := by
  obtain ⟨db1, hflush, hc⟩ := Tx.bind_ok hc
  obtain ⟨_, -, hc⟩ := Tx.bind_ok hc
  cases hc
  cases q with
  | createServer name ownerId =>
    obtain ⟨⟨db2, x⟩, hx, hr⟩ := Tx.bind_ok hr
    obtain ⟨_, -, hr⟩ := Tx.bind_ok hr
    cases hr
    cases hflush
    obtain ⟨rfl, hmem⟩ := createServer_row hx
    refine ⟨rfl, rfl, _, hmem, ?_, rfl, rfl, rfl, rfl⟩
    · intro hmem
      obtain ⟨y, hy, hid⟩ := List.mem_map.1 hmem
      exact absurd hid (Nat.ne_of_lt (db.schema.serversDrawn y hy))
  | updateServer id newName requesterId =>
    obtain ⟨_, _, hr⟩ := Tx.bind_ok hr
    obtain ⟨x, hx, hr⟩ := Tx.bind_ok hr
    obtain ⟨_, _, hr⟩ := Tx.bind_ok hr
    cases hr
    obtain ⟨hm, hid, hd⟩ := Tables.findServer_some (orElseThrow_ok hx)
    refine ⟨rfl, rfl, { x with name := newName.getD "" }, ?_, hid, rfl, rfl, hd⟩
    rw [Db.saveServerName_ok hflush]
    exact List.mem_map.2 ⟨x, hm, rename_self hid⟩
  | deleteServer id requesterId =>
    obtain ⟨x, hx, hr⟩ := Tx.bind_ok hr
    obtain ⟨_, _, hr⟩ := Tx.bind_ok hr
    cases hr
    cases hflush
    obtain ⟨hm, hid, -⟩ := Tables.findServer_some (orElseThrow_ok hx)
    exact ⟨rfl, rfl, { x with deleted := true }, List.mem_map.2 ⟨x, hm, softDelete_self hid⟩, hid, rfl, rfl, rfl⟩

theorem event_success {db : Db} {o : Outcomes} {q : ServerRequest} {r : Returned} (hr : method db o q = .ok r) :
    r.event.outcome = "success" := by
  cases q with
  | createServer =>
    obtain ⟨_, _, hr⟩ := Tx.bind_ok hr
    obtain ⟨_, _, hr⟩ := Tx.bind_ok hr
    cases hr
    rfl
  | updateServer =>
    obtain ⟨_, _, hr⟩ := Tx.bind_ok hr
    obtain ⟨_, _, hr⟩ := Tx.bind_ok hr
    obtain ⟨_, _, hr⟩ := Tx.bind_ok hr
    cases hr
    rfl
  | deleteServer =>
    obtain ⟨_, _, hr⟩ := Tx.bind_ok hr
    obtain ⟨_, _, hr⟩ := Tx.bind_ok hr
    cases hr
    rfl

/-- after a method has returned, the commit goes through exactly if what is pending fits and the database commits -/
theorem commit_ok_iff {db : Db} {o : Outcomes} {q : ServerRequest} {r : Returned} (hr : method db o q = .ok r) :
    (∃ db', commit o r = .ok db') ↔ Fits q ∧ o.commit = true := by
  have hiff : (∃ db', commit o r = .ok db') ↔ (∃ db', r.db.flush r.pending = .ok db') ∧ o.commit = true := by
    refine ⟨?_, ?_⟩
    · rintro ⟨db', hc⟩
      obtain ⟨db1, hflush, hc⟩ := Tx.bind_ok hc
      obtain ⟨_, hok, -⟩ := Tx.bind_ok hc
      exact ⟨⟨db1, hflush⟩, carriedOut_ok hok⟩
    · rintro ⟨⟨db1, hflush⟩, hok⟩
      exact ⟨db1, by simp [commit, hflush, carriedOut, hok, bind, Except.bind, pure, Except.pure]⟩
  rw [hiff]
  refine and_congr_left fun _ => ?_
  cases q with
  | createServer =>
    obtain ⟨_, _, hr⟩ := Tx.bind_ok hr
    obtain ⟨_, _, hr⟩ := Tx.bind_ok hr
    cases hr
    exact iff_of_true ⟨_, rfl⟩ trivial
  | updateServer =>
    obtain ⟨_, _, hr⟩ := Tx.bind_ok hr
    obtain ⟨_, _, hr⟩ := Tx.bind_ok hr
    obtain ⟨_, _, hr⟩ := Tx.bind_ok hr
    cases hr
    simp only [Db.flush, Db.saveServerName, Fits]
    split_ifs with hfits
    · exact iff_of_true ⟨_, rfl⟩ hfits
    · exact iff_of_false (by rintro ⟨_, h⟩; cases h) hfits
  | deleteServer =>
    obtain ⟨_, _, hr⟩ := Tx.bind_ok hr
    obtain ⟨_, _, hr⟩ := Tx.bind_ok hr
    cases hr
    exact iff_of_true ⟨_, rfl⟩ trivial

/-- once the method has returned, what is flushed at commit decides -/
theorem truthful_of_returned {db : Db} {o : Outcomes} {q : ServerRequest} {r : Returned} (hm : method db o q = .ok r) :
    Truthful db o q ↔ Fits q ∧ o.commit = true := by
  rw [← commit_ok_iff hm]
  cases hc : commit o r with
  | error e =>
    have hend : transact db o q = ⟨db, false, [r.event]⟩ := by simp only [transact, hm, hc]
    refine iff_of_false ?_ ?_
    · intro h
      have := h.announced
      simp [hend, event_success hm] at this
    · rintro ⟨_, h⟩
      cases h
  | ok db' =>
    have hend : transact db o q = ⟨db', true, [r.event]⟩ := by simp only [transact, hm, hc]
    refine iff_of_true ⟨by simp [hend, event_success hm], ?_⟩ ⟨db', rfl⟩
    intro _ e he
    rw [hend] at he ⊢
    obtain rfl := List.mem_singleton.1 he
    exact event_describes hm hc

/-- **Truthfulness.** For every request, database and behaviour of the database: a success event is emitted exactly if
the transaction commits, and describes what is committed, exactly if the method fails or what is flushed at commit fits
its columns and is committed. -/
theorem truthful_iff (db : Db) (o : Outcomes) (q : ServerRequest) :
    Truthful db o q ↔ (Returns db o q → Fits q ∧ o.commit = true) := by
  cases hm : method db o q with
  | error e =>
    have hnot : ¬ Returns db o q := by
      rw [← method_ok_iff, hm]
      rintro ⟨_, h⟩
      cases h
    have hend : transact db o q = ⟨db, false, []⟩ := by simp only [transact, hm]
    exact iff_of_true ⟨by simp [hend], by simp [hend]⟩ fun h => absurd h hnot
  | ok r =>
    have hreturns : Returns db o q := method_ok_iff.1 ⟨r, hm⟩
    rw [truthful_of_returned hm]
    exact ⟨fun h _ => h, fun h => h hreturns⟩

/-- the owner renames the guild to a name of 256 characters: announced at once, refused by the commit -/
theorem long_name_announced :
    ¬ ∀ db q, Truthful db ⟨true, true⟩ q := by
  intro h
  have htruthful := h (reached [.createServer (some "guild") "alice"])
    (.updateServer 0 (some (String.ofList (List.replicate 256 'x'))) "alice")
  have hlong : ¬ varchar255 (String.ofList (List.replicate 256 'x')) := by
    rw [varchar255, String.length_ofList, List.length_replicate]
    exact fun hfits => absurd hfits.1 (by omega)
  have hnamed : missing (some (String.ofList (List.replicate 256 'x'))) = false := by
    rw [missing, trimIsEmpty, String.toList_ofList]
    decide
  have hguild : (reached [.createServer (some "guild") "alice"]).findServer 0 = some ⟨0, "guild", "alice", false⟩ := by
    decide +kernel
  have hreturns : Returns (reached [.createServer (some "guild") "alice"]) ⟨true, true⟩
      (.updateServer 0 (some (String.ofList (List.replicate 256 'x'))) "alice") := ⟨hnamed, _, hguild, rfl⟩
  obtain ⟨r, hm⟩ := method_ok_iff.2 hreturns
  exact hlong ((truthful_of_returned hm).1 htruthful).1

end Concordia.Servers
