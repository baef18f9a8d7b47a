/-
The three tests of MANAGE in the servers service, against each other.

- `getServerAndVerifyManagePermission`, which guards `updateChannel` and `deleteChannel`: the user owns the server.
- `PermissionService.checkPerm`, which answers CheckPerm: a member's roles on the server contain MANAGE.
- the requester test of `assignRole`: the requester owns the server, or its roles contain MANAGE.

A test lets a user through when the operation does not fail with that test's own 403.

- `updateChannel_passes`, `deleteChannel_passes`, `assignRole_passes`, `manage_allowed`: what each test asks.
- `checkPerm_manage`: the second is CheckPerm's answer to any request that reads as (user, server, MANAGE).
- `one_manage_iff`: they agree about a user exactly when it owns the server or no role assigned to it has MANAGE.
- `manager_refused`: a member with a MANAGE role may assign roles but not rename a channel.
-/
import Concordia.Servers.CheckPerm
import Concordia.Servers.Effective

namespace Concordia.Servers

open Concordia.Lib

/-! ## Why a transaction fails -/

theorem Tx.bind_error {α β : Type} {x : Tx α} {f : α → Tx β} {e : Fault} (h : x >>= f = .error e) :
    x = .error e ∨ ∃ a, x = .ok a ∧ f a = .error e := by
  cases x with
  | error e' => exact Or.inl (by cases h; rfl)
  | ok a => exact Or.inr ⟨a, rfl, h⟩

theorem orElseThrow_error {α : Type} {o : Option α} {code : ℕ} {reason : String} {e : Fault}
    (h : orElseThrow o code reason = .error e) : e = .status code reason := by
  cases o with
  | none => cases h; rfl
  | some a => cases h

theorem guardStatus_error {ok : Bool} {code : ℕ} {reason : String} {e : Fault}
    (h : guardStatus ok code reason = .error e) : e = .status code reason := by
  unfold guardStatus at h
  split_ifs at h
  cases h
  rfl

theorem newChannelType_error {type : ChannelType} {newType : Option String} {e : Fault}
    (h : newChannelType type newType = .error e) : e = .status 400 "Invalid channel type" := by
  unfold newChannelType at h
  split_ifs at h
  exact orElseThrow_error h

theorem saveChannel_error {db : Db} {c : Channel} {e : Fault} (h : db.saveChannel c = .error e) :
    e = .constraintViolation := by
  unfold Db.saveChannel at h
  split_ifs at h
  cases h
  rfl

theorem assignRoleToMember_error {db : Db} {x : MembershipRole} {e : Fault} (h : db.assignRoleToMember x = .error e) :
    e = .constraintViolation := by
  unfold Db.assignRoleToMember at h
  split_ifs at h
  cases h
  rfl

/-! ## What each test asks -/

/-- the 403 of `getServerAndVerifyManagePermission` -/
def manageRequired : Fault := .status 403 "Requires MANAGE permission"

/-- the 403 of `assignRole` -/
def manageNeeded : Fault := .status 403 "You need MANAGE permissions to assign roles"

/-- CheckPerm's answer for (user, server, MANAGE), with a fresh role cache -/
def manageAllowed (db : Db) (serverId : Uuid) (userId : String) : Bool :=
  (permissionCheck db db.effective userId serverId .manage).allowed

theorem verify_of_owner {db : Db} {s : Server} (hs : db.findServer s.id = some s) :
    getServerAndVerifyManagePermission db s.id s.ownerId = .ok s := by
  simp [getServerAndVerifyManagePermission, hs, orElseThrow, guardStatus, bind, Except.bind, pure, Except.pure]

theorem verify_of_other {db : Db} {s : Server} (hs : db.findServer s.id = some s) {u : String} (hu : s.ownerId ≠ u) :
    getServerAndVerifyManagePermission db s.id u = .error manageRequired := by
  simp [getServerAndVerifyManagePermission, hs, orElseThrow, guardStatus, bind, Except.bind, hu, manageRequired]

/-- an operation that begins with the owner's test -/
theorem verify_passes {db : Db} {s : Server} (hs : db.findServer s.id = some s) {α : Type} {rest : Server → Tx α}
    (hrest : rest s ≠ .error manageRequired) (u : String) :
    (getServerAndVerifyManagePermission db s.id u >>= rest) ≠ .error manageRequired ↔ s.ownerId = u := by
  by_cases hu : s.ownerId = u
  · subst hu
    rw [verify_of_owner hs]
    exact iff_of_true hrest rfl
  · rw [verify_of_other hs hu]
    exact iff_of_false (fun h => h rfl) hu

theorem updateChannel_passes {db : Db} {s : Server} (hs : db.findServer s.id = some s) (channelId : Uuid)
    (newName newType : Option String) (u : String) :
    updateChannel db s.id channelId newName newType u ≠ .error manageRequired ↔ s.ownerId = u := by
  refine verify_passes hs ?_ u
  intro herr
  -- every later failure has another code
  rcases Tx.bind_error herr with he | ⟨_, _, herr⟩
  · cases orElseThrow_error he
  rcases Tx.bind_error herr with he | ⟨_, _, herr⟩
  · cases guardStatus_error he
  rcases Tx.bind_error herr with he | ⟨_, _, herr⟩
  · cases newChannelType_error he
  rcases Tx.bind_error herr with he | ⟨_, _, herr⟩
  · cases saveChannel_error he
  · cases herr

theorem deleteChannel_passes {db : Db} {s : Server} (hs : db.findServer s.id = some s) (channelId : Uuid) (u : String) :
    deleteChannel db s.id channelId u ≠ .error manageRequired ↔ s.ownerId = u := by
  refine verify_passes hs ?_ u
  intro herr
  rcases Tx.bind_error herr with he | ⟨_, _, herr⟩
  · cases orElseThrow_error he
  rcases Tx.bind_error herr with he | ⟨_, _, herr⟩
  · cases guardStatus_error he
  · cases herr

/-- the requester test is reached for a member and a role of the server -/
theorem assignRole_passes {db : Db} {s : Server} (hs : db.findServer s.id = some s) {target : String}
    (htarget : (⟨s.id, target⟩ : Membership) ∈ db.memberships) {role : Role} (hrole : db.findRole role.id = some role)
    (hserver : role.serverId = s.id) (u : String) :
    assignRole db s.id target role.id u ≠ .error manageNeeded ↔
      s.ownerId = u ∨ Permission.manage ∈ db.effective s.id u := by
  have hmember : db.existsMembership s.id target = true := Tables.existsMembership_iff.2 htarget
  have heq : assignRole db s.id target role.id u =
      guardStatus (s.ownerId = u || decide (Permission.manage ∈ db.effective s.id u)) 403
        "You need MANAGE permissions to assign roles" >>= fun _ =>
          db.assignRoleToMember ⟨s.id, target, role.id⟩ := by
    simp [assignRole, hs, hmember, hrole, hserver, orElseThrow, guardStatus, bind, Except.bind]
  rw [heq]
  by_cases hu : s.ownerId = u ∨ Permission.manage ∈ db.effective s.id u
  · refine iff_of_true ?_ hu
    intro herr
    rcases Tx.bind_error herr with he | ⟨_, _, herr⟩
    · simp [guardStatus, hu] at he
    · cases assignRoleToMember_error herr
  · refine iff_of_false ?_ hu
    rw [not_not]
    simp [guardStatus, hu, bind, Except.bind, manageNeeded]

/-- on a database whose assigned roles belong to their servers, CheckPerm asks for a MANAGE role -/
theorem manage_allowed {db : Db} (hinv : Inv db.toTables) {s : Uuid} {u : String} :
    manageAllowed db s u = true ↔ RoleGrants db.toTables s u .manage := by
  rw [manageAllowed, permissionCheck_allowed, mem_effective_iff_roleGrants hinv]
  refine ⟨And.right, ?_⟩
  intro h
  exact ⟨membership_of_effective db.schema ((mem_effective_iff_roleGrants hinv).2 h), h⟩

/-- a CheckPerm request that reads as (user, server, MANAGE) is answered so -/
theorem checkPerm_manage {db : Db} {request : CheckPermRequest} {c s : Uuid} (h : Reads db request c s .manage) :
    (checkPerm db db.effective request).allowed = manageAllowed db s request.userId := by
  have hread := (readRequest_ok (x := (s, request.userId, .manage))).2 ⟨c, h, rfl⟩
  simp only [checkPerm, hread, manageAllowed]

/-! ## One meaning -/

/-- the three tests give `u` one answer on the server `s` -/
structure OneManage (db : Db) (s : Server) (u : String) : Prop where
  update : ∀ channelId newName newType,
    updateChannel db s.id channelId newName newType u ≠ .error manageRequired ↔ manageAllowed db s.id u = true
  delete : ∀ channelId, deleteChannel db s.id channelId u ≠ .error manageRequired ↔ manageAllowed db s.id u = true
  assign : ∀ target role, (⟨s.id, target⟩ : Membership) ∈ db.memberships → db.findRole role.id = some role →
    role.serverId = s.id →
    (assignRole db s.id target role.id u ≠ .error manageNeeded ↔ manageAllowed db s.id u = true)

/-- **One meaning of MANAGE.** On every reachable database and every server that exists there, the channel operations,
CheckPerm and `assignRole` give a user one answer exactly if it owns the server or no role assigned to it there has
MANAGE. -/
theorem one_manage_iff (ops : List Request) (s : Server) (hs : (reached ops).findServer s.id = some s) (u : String) :
    OneManage (reached ops) s u ↔ (s.ownerId = u ∨ ¬ RoleGrants (reached ops).toTables s.id u .manage) := by
  have hinv := reached_inv ops
  have hallowed := manage_allowed hinv (s := s.id) (u := u)
  -- the owner holds MANAGE as well
  have howner : s.ownerId = u → RoleGrants (reached ops).toTables s.id u .manage := by
    rintro rfl
    rw [← mem_effective_iff_roleGrants hinv, owner_effective hinv (Tables.findServer_some hs).1]
    exact Finset.mem_univ _
  have hchannel : (s.ownerId = u ↔ manageAllowed (reached ops) s.id u = true) ↔
      (s.ownerId = u ∨ ¬ RoleGrants (reached ops).toTables s.id u .manage) := by
    rw [hallowed]
    tauto
  refine ⟨?_, ?_⟩
  · intro h
    rw [← hchannel, ← updateChannel_passes hs 0 none none]
    exact h.update 0 none none
  · intro h
    refine ⟨?_, ?_, ?_⟩
    · intro channelId newName newType
      rw [updateChannel_passes hs]
      exact hchannel.2 h
    · intro channelId
      rw [deleteChannel_passes hs]
      exact hchannel.2 h
    · intro target role htarget hrole hserver
      rw [assignRole_passes hs htarget hrole hserver, mem_effective_iff_roleGrants hinv, hallowed]
      exact or_iff_right_of_imp howner

/-- a guild of alice's in which bob has a role with MANAGE and carol has not -/
def guildOps : List Request := [.createServer (some "guild") "alice", .joinServer 0 "bob", .joinServer 0 "carol",
  .createRole 0 (some "mod") (some {.manage}), .assignRole 0 "bob" 3 "alice"]

theorem one_manage_carol : OneManage (reached guildOps) ⟨0, "guild", "alice", false⟩ "carol" := by
  refine (one_manage_iff guildOps ⟨0, "guild", "alice", false⟩ (by decide) "carol").2 (Or.inr ?_)
  rw [← mem_effective_iff_roleGrants (reached_inv guildOps)]
  decide

/-- CheckPerm lets bob manage, and he may assign roles, but the channel operations refuse him -/
theorem manager_refused :
    ¬ ∀ ops s, (reached ops).findServer s.id = some s → ∀ u, OneManage (reached ops) s u := by
  intro h
  have hbob := (h guildOps ⟨0, "guild", "alice", false⟩ (by decide) "bob").update 0 (some "news") none
  exact absurd (hbob.2 (by decide)) (by decide)

end Concordia.Servers
