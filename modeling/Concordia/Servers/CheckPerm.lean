/-
CheckPerm (`grpc/PermServiceImpl.java`, `service/PermissionService.java`), the one question every other service asks
before it acts for a user.

The server a request is about is the one it names; only when `server_id` is blank is the channel looked up and its
server taken. `PermissionService` then asks for a membership and for the union of the member's roles on that server, and
never looks at the channel. An `IllegalArgumentException` on the way is answered, not raised.

- `checkPerm_allowed`: what an allowed answer means, exactly.
- `checkPerm_sound_complete`: the specification, on every reachable database.
- `allowed_for_missing_channel`: a channel that exists nowhere, with a server named.

The permissions of a user are passed in: `db.effective` when the `roleLookup` cache is fresh, else what it holds.
-/
import Concordia.Servers.Invariant

namespace Concordia.Servers

open Concordia.Lib

/-! ## Reading the request -/

/-- the length of a string in UTF-16 units -/
def utf16Length (s : String) : ℕ := (s.toList.map fun c => if c.toNat < 0x10000 then 1 else 2).sum

/-- `Character.digit(c, 16)`, without the digits beyond ASCII that it takes too -/
def hexDigit (c : Char) : Option ℕ :=
  if '0' ≤ c ∧ c ≤ '9' then some (c.toNat - '0'.toNat)
  else if 'a' ≤ c ∧ c ≤ 'f' then some (c.toNat - 'a'.toNat + 10)
  else if 'A' ≤ c ∧ c ≤ 'F' then some (c.toNat - 'A'.toNat + 10)
  else none

/-- the digits of `part` from index `i` on, after `value` -/
def parseDigits (part : List Char) : ℕ → ℕ → List Char → Except String ℕ
  | _, value, [] => .ok value
  | i, value, c :: cs =>
    match hexDigit c with
    | some d =>
      if value * 16 + d < 2 ^ 63 then parseDigits part (i + 1) (value * 16 + d) cs
      else .error s!"Error at index {i} in: \"{String.ofList part}\""
    | none => .error s!"Error at index {i} in: \"{String.ofList part}\""

/-- `Long.parseLong(part, 16)` of a part without `-` -/
def parseLong (part : List Char) : Except String ℕ :=
  match part with
  | [] => .error ""
  | ['+'] => .error s!"Error at index 1 in: \"+\""
  | '+' :: cs => parseDigits part 1 0 cs
  | cs => parseDigits part 0 0 cs

/-- `UUID.fromString`; an error is the message of its IllegalArgumentException -/
def Uuid.fromString (name : String) : Except String Uuid :=
  if 36 < utf16Length name then .error "UUID string too large"
  else match name.toList.splitOn '-' with
    | [a, b, c, d, e] => do
      let a ← parseLong a
      let b ← parseLong b
      let c ← parseLong c
      let d ← parseLong d
      let e ← parseLong e
      return (((a % 2 ^ 32 * 2 ^ 16 + b % 2 ^ 16) * 2 ^ 16 + c % 2 ^ 16) * 2 ^ 16 + d % 2 ^ 16) * 2 ^ 48 + e % 2 ^ 48
    | _ => .error s!"Invalid UUID string: {name}"

/-- the low `w` hexadecimal digits -/
def hexDigits : ℕ → ℕ → List Char
  | 0, _ => []
  | w + 1, n => hexDigits w (n / 16) ++ [Nat.digitChar (n % 16)]

/-- `UUID.toString` -/
def Uuid.toString (id : Uuid) : String :=
  String.ofList (hexDigits 8 (id / 2 ^ 96) ++ '-' :: hexDigits 4 (id / 2 ^ 80) ++ '-' :: hexDigits 4 (id / 2 ^ 64) ++
    '-' :: hexDigits 4 (id / 2 ^ 48) ++ '-' :: hexDigits 12 id)

/-- `Character.isWhitespace` -/
def isWhitespace (c : Char) : Bool :=
  let n := c.toNat
  (0x9 ≤ n ∧ n ≤ 0xD) ∨ (0x1C ≤ n ∧ n ≤ 0x20) ∨ n = 0x1680 ∨ (0x2000 ≤ n ∧ n ≤ 0x200A ∧ n ≠ 0x2007) ∨
    n = 0x2028 ∨ n = 0x2029 ∨ n = 0x205F ∨ n = 0x3000

def isBlank (s : String) : Bool := s.toList.all isWhitespace

/-- the enum of the contract; a number outside it is read as `unrecognized` -/
inductive Action where
  | read
  | write
  | voiceJoin
  | manage
  | unrecognized
deriving DecidableEq, Repr

def Action.name : Action → String
  | .read => "READ"
  | .write => "WRITE"
  | .voiceJoin => "VOICE_JOIN"
  | .manage => "MANAGE"
  | .unrecognized => "UNRECOGNIZED"

def Permission.name : Permission → String
  | .read => "READ"
  | .write => "WRITE"
  | .voiceJoin => "VOICE_JOIN"
  | .manage => "MANAGE"

/-- `Permission.valueOf` -/
def Permission.valueOf (name : String) : Except String Permission :=
  match [Permission.read, .write, .voiceJoin, .manage].find? fun p => p.name = name with
  | some p => .ok p
  | none => .error s!"No enum constant com.concordia.servers.model.Permission.{name}"

structure CheckPermRequest where
  userId : String
  serverId : String
  channelId : String
  action : Action
deriving DecidableEq, Repr

structure CheckPermResponse where
  allowed : Bool
  reason : String
deriving DecidableEq, Repr

/-! ## The answer -/

/-- `PermissionService.checkPerm` -/
def permissionCheck (db : Db) (permissionsForUser : Uuid → String → Finset Permission) (userId : String)
    (serverId : Uuid) (permission : Permission) : CheckPermResponse :=
  if db.existsMembership serverId userId = false then ⟨false, "not a member"⟩
  else if permission ∈ permissionsForUser serverId userId then ⟨true, ""⟩
  else ⟨false, "insufficient permissions"⟩

/-- the server a request is about: named, or that of the channel -/
def resolveServer (db : Db) (rawServerId : String) (channelId : Uuid) : Except String Uuid :=
  if isBlank rawServerId then
    match db.findChannel channelId with
    | some channel => .ok channel.serverId
    | none => .error s!"channel not found: {channelId.toString}"
  else Uuid.fromString rawServerId

/-- what `checkPerm` reads from a request: the server, the user and the permission it asks about -/
def readRequest (db : Db) (request : CheckPermRequest) : Except String (Uuid × String × Permission) := do
  let channelId ← Uuid.fromString request.channelId
  let permission ← Permission.valueOf request.action.name
  let serverId ← resolveServer db request.serverId channelId
  return (serverId, request.userId, permission)

/-- `PermServiceImpl.checkPerm` -/
def checkPerm (db : Db) (permissionsForUser : Uuid → String → Finset Permission) (request : CheckPermRequest) :
    CheckPermResponse :=
  match readRequest db request with
  | .ok (serverId, userId, permission) => permissionCheck db permissionsForUser userId serverId permission
  | .error message => ⟨false, s!"invalid request: {message}"⟩

/-! ## What an answer means -/

theorem permissionCheck_allowed {db : Db} {f : Uuid → String → Finset Permission} {u : String} {s : Uuid}
    {p : Permission} :
    (permissionCheck db f u s p).allowed = true ↔ (⟨s, u⟩ : Membership) ∈ db.memberships ∧ p ∈ f s u := by
  unfold permissionCheck
  by_cases hm : db.existsMembership s u = true
  · have := Tables.existsMembership_iff.1 hm
    by_cases hp : p ∈ f s u <;> simp [hm, hp, this]
  · have hnot := mt Tables.existsMembership_iff.2 hm
    simp [hm, hnot]

@[simp] theorem valueOf_name (p : Permission) : Permission.valueOf p.name = .ok p := by
  cases p <;> rfl

/-- the request reads as: `userId` asks for `p` on `serverId` -/
def Reads (db : Db) (request : CheckPermRequest) (channelId serverId : Uuid) (p : Permission) : Prop :=
  Uuid.fromString request.channelId = .ok channelId ∧ Permission.valueOf request.action.name = .ok p ∧
    resolveServer db request.serverId channelId = .ok serverId

theorem readRequest_ok {db : Db} {request : CheckPermRequest} {x : Uuid × String × Permission} :
    readRequest db request = .ok x ↔ ∃ c, Reads db request c x.1 x.2.2 ∧ x.2.1 = request.userId := by
  obtain ⟨s, u, p⟩ := x
  unfold readRequest Reads
  cases hc : Uuid.fromString request.channelId with
  | error => simp [bind, Except.bind]
  | ok c =>
    cases hp : Permission.valueOf request.action.name with
    | error => simp [bind, Except.bind]
    | ok p' =>
      cases hs : resolveServer db request.serverId c with
      | error e => simp [bind, Except.bind, hs]
      | ok s' =>
        simp only [bind, Except.bind, pure, Except.pure, Except.ok.injEq, Prod.mk.injEq, hs]
        grind

/-- **What allowed means.** The user is a member of the server the request resolves to and holds the permission. -/
theorem checkPerm_allowed {db : Db} {f : Uuid → String → Finset Permission} {request : CheckPermRequest} :
    (checkPerm db f request).allowed = true ↔ ∃ c s p, Reads db request c s p ∧
      (⟨s, request.userId⟩ : Membership) ∈ db.memberships ∧ p ∈ f s request.userId := by
  unfold checkPerm
  cases h : readRequest db request with
  | error e =>
    refine ⟨fun h => absurd h (by simp), ?_⟩
    rintro ⟨c, s, p, hr, -⟩
    rw [readRequest_ok (x := (s, request.userId, p)) |>.2 ⟨c, hr, rfl⟩] at h
    cases h
  | ok x =>
    obtain ⟨s, u, p⟩ := x
    obtain ⟨c, hr, rfl⟩ := readRequest_ok.1 h
    refine permissionCheck_allowed.trans ⟨fun ha => ⟨c, s, p, hr, ha⟩, ?_⟩
    rintro ⟨c', s', p', hr', ha⟩
    rw [readRequest_ok (x := (s', request.userId, p')) |>.2 ⟨c', hr', rfl⟩] at h
    cases h
    exact ha

theorem resolveServer_blank {db : Db} {raw : String} {c s : Uuid} (h : isBlank raw = true) :
    resolveServer db raw c = .ok s ↔ ∃ x ∈ db.channels, x.id = c ∧ x.deleted = false ∧ x.serverId = s := by
  unfold resolveServer
  rw [if_pos h]
  refine ⟨?_, ?_⟩
  · intro hres
    cases hf : db.findChannel c with
    | none => rw [hf] at hres; cases hres
    | some x =>
      rw [hf] at hres
      cases hres
      obtain ⟨hx, hid, hd⟩ := Tables.findChannel_some hf
      exact ⟨x, hx, hid, hd, rfl⟩
  · rintro ⟨x, hx, rfl, hd, rfl⟩
    rw [db.findChannel_eq hx hd]

theorem resolveServer_named {db : Db} {raw : String} {c : Uuid} (h : isBlank raw = false) :
    resolveServer db raw c = Uuid.fromString raw := by
  simp [resolveServer, h]

/-! ## The specification -/

/-- some role of `s` assigned to the member `u` grants `p` -/
def RoleGrants (t : Tables) (s : Uuid) (u : String) (p : Permission) : Prop :=
  ∃ r ∈ t.roles, r.serverId = s ∧ (⟨s, u, r.id⟩ : MembershipRole) ∈ t.membershipRoles ∧ p ∈ r.permissions

theorem mem_effective_iff_roleGrants {db : Db} (hinv : Inv db.toTables) {s : Uuid} {u : String} {p : Permission} :
    p ∈ db.effective s u ↔ RoleGrants db.toTables s u p := by
  refine mem_effective.trans ⟨?_, fun ⟨r, hr, _, hm, hp⟩ => ⟨r, hr, hm, hp⟩⟩
  rintro ⟨r, hr, hm, hp⟩
  obtain ⟨r', hr', hid, hsrv⟩ := hinv.roleServer _ hm
  have : r' = r := eq_of_key db.schema.rolesPk hr' hr hid
  exact ⟨r, hr, this ▸ hsrv, hm, hp⟩

/-- the request resolves to a server on which its user is a member and holds the permission through a role -/
def Entitled (db : Db) (request : CheckPermRequest) (channelId serverId : Uuid) (p : Permission) : Prop :=
  Uuid.fromString request.channelId = .ok channelId ∧ Permission.valueOf request.action.name = .ok p ∧
    (isBlank request.serverId = false → Uuid.fromString request.serverId = .ok serverId) ∧
    (isBlank request.serverId = true →
      ∃ c ∈ db.channels, c.id = channelId ∧ c.deleted = false ∧ c.serverId = serverId) ∧
    (∃ s ∈ db.servers, s.id = serverId) ∧ (⟨serverId, request.userId⟩ : Membership) ∈ db.memberships ∧
    RoleGrants db.toTables serverId request.userId p

/-- an allowed answer is an entitlement, on any database whose assigned roles belong to their servers -/
theorem checkPerm_iff_entitled {db : Db} (hinv : Inv db.toTables) (request : CheckPermRequest) :
    (checkPerm db db.effective request).allowed = true ↔ ∃ c s p, Entitled db request c s p := by
  rw [checkPerm_allowed]
  refine exists_congr fun c => exists_congr fun s => exists_congr fun p => ?_
  rw [mem_effective_iff_roleGrants hinv]
  unfold Reads Entitled
  refine ⟨?_, ?_⟩
  · rintro ⟨⟨hc, hp, hres⟩, hm, hg⟩
    refine ⟨hc, hp, ?_, fun hb => (resolveServer_blank hb).1 hres, ?_, hm, hg⟩
    · intro hb
      rwa [resolveServer_named hb] at hres
    · obtain ⟨x, hx, hid⟩ := List.mem_map.1 (db.schema.membershipsFk _ hm)
      exact ⟨x, hx, hid⟩
  · rintro ⟨hc, hp, hnamed, hblank, -, hm, hg⟩
    refine ⟨⟨hc, hp, ?_⟩, hm, hg⟩
    cases hb : isBlank request.serverId with
    | false => rw [resolveServer_named hb]; exact hnamed hb
    | true => exact (resolveServer_blank hb).2 (hblank hb)

/-- **CheckPerm.** On every reachable database an allowed answer means that the request parses, that the server it
names, or that its undeleted channel belongs to, has its user as a member, and that a role assigned to that member on
that server grants the action; and when that server is not deleted, whoever meets this is allowed. With a server named
the channel is not consulted. -/
theorem checkPerm_sound_complete (ops : List Request) (request : CheckPermRequest) :
    ((checkPerm (reached ops) (reached ops).effective request).allowed = true →
      ∃ c s p, Entitled (reached ops) request c s p) ∧
    ∀ c s p, Entitled (reached ops) request c s p → (∃ x ∈ (reached ops).servers, x.id = s ∧ x.deleted = false) →
      (checkPerm (reached ops) (reached ops).effective request).allowed = true := by
  have hiff := checkPerm_iff_entitled (reached_inv ops) request
  exact ⟨hiff.1, fun c s p h _ => hiff.2 ⟨c, s, p, h⟩⟩

/-- what would be asked of the channel itself: it exists undeleted on the undeleted server the request is about -/
def ChannelEntitled (db : Db) (request : CheckPermRequest) : Prop :=
  ∃ c s p, Entitled db request c s p ∧ (∃ x ∈ db.channels, x.id = c ∧ x.deleted = false ∧ x.serverId = s) ∧
    ∃ x ∈ db.servers, x.id = s ∧ x.deleted = false

/-- the owner of server 0 asks for READ on a channel that was never created -/
theorem allowed_for_missing_channel :
    let ops : List Request := [.createServer (some "gRPC Perm Server") "grpc-owner"]
    let request : CheckPermRequest := ⟨"grpc-owner", "00000000-0000-0000-0000-000000000000",
      "00000000-0000-0000-0000-00000000002a", .read⟩
    ¬ ((checkPerm (reached ops) (reached ops).effective request).allowed = true ↔
      ChannelEntitled (reached ops) request) := by
  intro ops request h
  have hreads : Reads (reached ops) request 42 0 .read := ⟨by decide, by decide, by decide⟩
  obtain ⟨c, s, p, -, ⟨x, hx, -⟩, -⟩ := h.1 (checkPerm_allowed.2 ⟨42, 0, .read, hreads, by decide, by decide⟩)
  have hnone : (reached ops).channels = [] := by decide
  rw [hnone] at hx
  cases hx

end Concordia.Servers
