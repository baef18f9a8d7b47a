/-
What the servers service shows (`ServerService.getServersByUserId`, `getServerById`, `ChannelService.getChannels`,
`MembershipService.getServerMembers`, `InternalChannelController.getChannel`), against the history of requests.

- `Live`, `MemberSince`, `ChannelSince`: created and not deleted since; created or joined, and not left since; created and
  not deleted since. Only committed requests count.
- `effect_members`, `effect_live`, `effect_channels`: which requests move a row in and out of each table.
- `one_membership`: after every run the listings, the test of a join and CheckPerm agree on who is a member of what.
  CheckPerm and the lookup of a channel do not ask whether the server is still there.
-/
import Concordia.Servers.Manage

namespace Concordia.Servers

open Concordia.Lib

/-! ## Queries -/

namespace Tables

/-- `membershipRepository.findByUserId` -/
def findMembershipsByUser (t : Tables) (userId : String) : List Membership :=
  t.memberships.filter fun m => m.userId = userId

/-- `membershipRepository.findByServerId` -/
def findMembershipsByServer (t : Tables) (serverId : Uuid) : List Membership :=
  t.memberships.filter fun m => m.serverId = serverId

/-- `serverRepository.findAllById` -/
def findAllServers (t : Tables) (ids : List Uuid) : List Server :=
  t.servers.filter fun s => s.id ∈ ids ∧ s.deleted = false

/-- `channelRepository.findByServerId` -/
def findChannelsByServer (t : Tables) (serverId : Uuid) : List Channel :=
  t.channels.filter fun c => c.serverId = serverId ∧ c.deleted = false

end Tables

/-! ## Reading operations -/

/-- `ServerService.getServersByUserId` -/
def getServersByUserId (db : Db) (userId : String) : List Server :=
  db.findAllServers ((db.findMembershipsByUser userId).map Membership.serverId)

/-- `ServerService.getServerById`, as the controller answers it -/
def getServerById (db : Db) (id : Uuid) : Tx Server := orElseThrow (db.findServer id) 404 ""

/-- `ChannelService.getChannels` -/
def getChannels (db : Db) (serverId : Uuid) (userId : String) : Tx (List Channel) := do
  guardStatus (db.existsServer serverId) 404 "Server not found"
  guardStatus (db.existsMembership serverId userId) 403 "Non-member cannot access server's channels"
  return db.findChannelsByServer serverId

/-- the name shown for a user -/
def displayName (usersCache : String → Option String) (userId : String) : String :=
  (usersCache userId).getD ("Unknown_User_" ++ userId)

/-- `MembershipService.getServerMembers`: ids and names -/
def getServerMembers (db : Db) (usersCache : String → Option String) (serverId : Uuid) : Tx (List (String × String)) := do
  guardStatus (db.existsServer serverId) 404 "Server not found"
  return (db.findMembershipsByServer serverId).map fun m => (m.userId, displayName usersCache m.userId)

/-- `InternalChannelController.getChannel`: the ids of the channel and of its server -/
def getChannel (db : Db) (channelId : Uuid) : Tx (Uuid × Uuid) := do
  let channel ← orElseThrow (db.findChannel channelId) 404 ""
  return (channel.id, channel.serverId)

/-! ## Histories -/

/-- the request makes `m` a membership -/
def Enters (t : Tables) (m : Membership) : Request → Prop
  | .createServer _ ownerId => m = ⟨t.drawn, ownerId⟩
  | .joinServer serverId userId => m = ⟨serverId, userId⟩
  | _ => False

def Leaves (m : Membership) : Request → Prop
  | .leaveServer serverId userId => m = ⟨serverId, userId⟩
  | _ => False

/-- the request creates the server `id` -/
def Creates (t : Tables) (id : Uuid) : Request → Prop
  | .createServer .. => id = t.drawn
  | _ => False

def Deletes (id : Uuid) : Request → Prop
  | .deleteServer id' _ => id = id'
  | _ => False

/-- the request creates the channel `id` on the server -/
def CreatesChannel (t : Tables) (serverId id : Uuid) : Request → Prop
  | .createChannel serverId' .. => serverId = serverId' ∧ id = t.drawn
  | _ => False

def DeletesChannel (id : Uuid) : Request → Prop
  | .deleteChannel _ id' _ => id = id'
  | _ => False

/-- in the run a committed request set it, and no committed request cleared it since -/
def Stands (sets : Tables → Request → Prop) (clears : Request → Prop) (ops : List Request) : Prop :=
  Since step (fun db q => Succeeds db q ∧ sets db.toTables q) (fun db q => Succeeds db q ∧ clears q) Db.empty ops

/-- the server was created, and not deleted since -/
def Live (ops : List Request) (id : Uuid) : Prop := Stands (fun t => Creates t id) (Deletes id) ops

/-- the user created or joined the server, and has not left it since -/
def MemberSince (ops : List Request) (serverId : Uuid) (userId : String) : Prop :=
  Stands (fun t => Enters t ⟨serverId, userId⟩) (Leaves ⟨serverId, userId⟩) ops

/-- the channel was created on the server, and not deleted since -/
def ChannelSince (ops : List Request) (serverId id : Uuid) : Prop :=
  Stands (fun t => CreatesChannel t serverId id) (DeletesChannel id) ops

/-! ## What moves a row in and out of each table -/

theorem effect_members {t t' : Tables} {q : Request} (he : Effect t q t') (m : Membership) :
    m ∈ t'.memberships ↔ Enters t m q ∨ m ∈ t.memberships ∧ ¬ Leaves m q := by
  cases he with
  | createServer => simp [Enters, Leaves, or_comm]
  | joinServer => simp [Enters, Leaves, or_comm]
  | joinNoRole => simp [Enters, Leaves, or_comm]
  | leaveServer => simp [Enters, Leaves]
  | _ => simp [Enters, Leaves]

/-- the server has an undeleted row -/
def LiveRow (t : Tables) (id : Uuid) : Prop := ∃ s ∈ t.servers, s.id = id ∧ s.deleted = false

theorem rename_liveRow {t : Tables} {id id' : Uuid} {name : String} :
    LiveRow { t with servers := t.servers.map (Db.rename id' name) } id ↔ LiveRow t id := by
  have hdeleted : ∀ s : Server, (Db.rename id' name s).deleted = s.deleted := by
    intro s
    unfold Db.rename
    split <;> rfl
  simp [LiveRow, hdeleted]

theorem softDelete_liveRow {t : Tables} {id id' : Uuid} :
    LiveRow { t with servers := t.servers.map (Db.softDelete id') } id ↔ LiveRow t id ∧ id ≠ id' := by
  have hdeleted : ∀ s : Server, (Db.softDelete id' s).deleted = false ↔ s.deleted = false ∧ s.id ≠ id' := by
    intro s
    unfold Db.softDelete
    split <;> simp_all
  simp only [LiveRow, List.mem_map, exists_exists_and_eq_and, Db.softDelete_id, hdeleted]
  refine ⟨?_, ?_⟩
  · rintro ⟨s, hs, rfl, hd, hne⟩
    exact ⟨⟨s, hs, rfl, hd⟩, hne⟩
  · rintro ⟨⟨s, hs, rfl, hd⟩, hne⟩
    exact ⟨s, hs, rfl, hd, hne⟩

theorem effect_live {t t' : Tables} {q : Request} (he : Effect t q t') (id : Uuid) :
    LiveRow t' id ↔ Creates t id q ∨ LiveRow t id ∧ ¬ Deletes id q := by
  cases he with
  | createServer name ownerId =>
    simp only [LiveRow, mem_snoc, Creates, Deletes, not_false_eq_true, and_true]
    refine ⟨?_, ?_⟩
    · rintro ⟨s, hs | rfl, hid, hd⟩
      · exact .inr ⟨s, hs, hid, hd⟩
      · exact .inl hid.symm
    · rintro (rfl | ⟨s, hs, hid, hd⟩)
      · exact ⟨_, .inr rfl, rfl, rfl⟩
      · exact ⟨s, .inl hs, hid, hd⟩
  | updateServer s name hs =>
    rw [rename_liveRow]
    simp [Creates, Deletes]
  | deleteServer s hs =>
    rw [softDelete_liveRow]
    simp [Creates, Deletes]
  | _ => simp [LiveRow, Creates, Deletes]

/-- the channel has an undeleted row, on the server -/
def ChannelRow (t : Tables) (serverId id : Uuid) : Prop :=
  ∃ c ∈ t.channels, c.id = id ∧ c.serverId = serverId ∧ c.deleted = false

theorem rewriteChannel_channelRow {t : Tables} {c : Channel} {serverId id : Uuid} :
    ChannelRow { t with channels := t.channels.map (Db.rewriteChannel c) } serverId id ↔ ChannelRow t serverId id := by
  have hdeleted : ∀ x : Channel, (Db.rewriteChannel c x).deleted = x.deleted := by
    intro x
    unfold Db.rewriteChannel
    split <;> rfl
  simp [ChannelRow, hdeleted]

theorem softDeleteChannel_channelRow {t : Tables} {serverId id id' : Uuid} :
    ChannelRow { t with channels := t.channels.map (Db.softDeleteChannel id') } serverId id ↔
      ChannelRow t serverId id ∧ id ≠ id' := by
  have hdeleted : ∀ x : Channel, (Db.softDeleteChannel id' x).deleted = false ↔ x.deleted = false ∧ x.id ≠ id' := by
    intro x
    unfold Db.softDeleteChannel
    split <;> simp_all
  simp only [ChannelRow, List.mem_map, exists_exists_and_eq_and, Db.softDeleteChannel_id,
    Db.softDeleteChannel_serverId, hdeleted]
  refine ⟨?_, ?_⟩
  · rintro ⟨x, hx, rfl, hs, hd, hne⟩
    exact ⟨⟨x, hx, rfl, hs, hd⟩, hne⟩
  · rintro ⟨⟨x, hx, rfl, hs, hd⟩, hne⟩
    exact ⟨x, hx, rfl, hs, hd, hne⟩

theorem effect_channels {t t' : Tables} {q : Request} (he : Effect t q t') (serverId id : Uuid) :
    ChannelRow t' serverId id ↔ CreatesChannel t serverId id q ∨ ChannelRow t serverId id ∧ ¬ DeletesChannel id q := by
  cases he with
  | createChannel serverId' name type userId channelType hs hm =>
    simp only [ChannelRow, mem_snoc, CreatesChannel, DeletesChannel, not_false_eq_true, and_true]
    refine ⟨?_, ?_⟩
    · rintro ⟨c, hc | rfl, hid, hsrv, hd⟩
      · exact .inr ⟨c, hc, hid, hsrv, hd⟩
      · exact .inl ⟨hsrv.symm, hid.symm⟩
    · rintro (⟨rfl, rfl⟩ | ⟨c, hc, hid, hsrv, hd⟩)
      · exact ⟨_, .inr rfl, rfl, rfl, rfl⟩
      · exact ⟨c, .inl hc, hid, hsrv, hd⟩
  | updateChannel =>
    rw [rewriteChannel_channelRow]
    simp [CreatesChannel, DeletesChannel]
  | deleteChannel s c hs hc hcs =>
    rw [softDeleteChannel_channelRow]
    simp [CreatesChannel, DeletesChannel]
  | _ => simp [ChannelRow, CreatesChannel, DeletesChannel]

/-! ## Tables against histories -/

/-- what committed requests alone move stands in the tables exactly if it stands in the history -/
theorem stands_of_effect {P : Tables → Prop} {sets : Tables → Request → Prop} {clears : Request → Prop}
    (heffect : ∀ {t t' q}, Effect t q t' → (P t' ↔ sets t q ∨ P t ∧ ¬ clears q)) (h0 : ¬ P Db.empty.toTables)
    (ops : List Request) : P (reached ops).toTables ↔ Stands sets clears ops := by
  refine holds_iff_since (P := fun db : Db => P db.toTables) ?_ h0 ops
  intro db q
  rcases step_cases db q with ⟨hfails, hsame⟩ | ⟨hok, he⟩
  · simp [hfails, hsame]
  · simp [hok, heffect he]

theorem member_iff (ops : List Request) (serverId : Uuid) (userId : String) :
    (⟨serverId, userId⟩ : Membership) ∈ (reached ops).memberships ↔ MemberSince ops serverId userId :=
  stands_of_effect (P := fun t => (⟨serverId, userId⟩ : Membership) ∈ t.memberships) (fun he => effect_members he _)
    (by simp [Db.empty]) ops

theorem live_iff (ops : List Request) (id : Uuid) : (reached ops).existsServer id = true ↔ Live ops id :=
  Tables.existsServer_iff.trans
    (stands_of_effect (P := fun t => LiveRow t id) (fun he => effect_live he id) (by simp [LiveRow, Db.empty]) ops)

theorem channel_iff (ops : List Request) (serverId id : Uuid) :
    ChannelRow (reached ops).toTables serverId id ↔ ChannelSince ops serverId id :=
  stands_of_effect (P := fun t => ChannelRow t serverId id) (fun he => effect_channels he serverId id)
    (by simp [ChannelRow, Db.empty]) ops

/-! ## What each answer says -/

theorem mem_getServersByUserId {db : Db} {userId : String} {s : Server} :
    s ∈ getServersByUserId db userId ↔
      s ∈ db.servers ∧ s.deleted = false ∧ (⟨s.id, userId⟩ : Membership) ∈ db.memberships := by
  have hids : s.id ∈ (db.findMembershipsByUser userId).map Membership.serverId ↔
      (⟨s.id, userId⟩ : Membership) ∈ db.memberships := by
    simp only [Tables.findMembershipsByUser, List.mem_map, List.mem_filter, decide_eq_true_eq]
    refine ⟨?_, fun h => ⟨_, ⟨h, rfl⟩, rfl⟩⟩
    rintro ⟨⟨_, _⟩, ⟨hm, rfl⟩, rfl⟩
    exact hm
  unfold getServersByUserId Tables.findAllServers
  rw [List.mem_filter, decide_eq_true_eq, hids, and_comm (b := s.deleted = false)]

theorem getChannels_missing {db : Db} {serverId : Uuid} (h : db.existsServer serverId = false) (userId : String) :
    getChannels db serverId userId = .error (.status 404 "Server not found") := by
  simp [getChannels, h, guardStatus, bind, Except.bind]

theorem getChannels_outside {db : Db} {serverId : Uuid} {userId : String} (h : db.existsServer serverId = true)
    (hm : (⟨serverId, userId⟩ : Membership) ∉ db.memberships) :
    getChannels db serverId userId = .error (.status 403 "Non-member cannot access server's channels") := by
  have hm := mt Tables.existsMembership_iff.1 hm
  simp [getChannels, h, hm, guardStatus, bind, Except.bind]

theorem getChannels_member {db : Db} {serverId : Uuid} {userId : String} (h : db.existsServer serverId = true)
    (hm : (⟨serverId, userId⟩ : Membership) ∈ db.memberships) :
    getChannels db serverId userId = .ok (db.findChannelsByServer serverId) := by
  have hm := Tables.existsMembership_iff.2 hm
  simp [getChannels, h, hm, guardStatus, bind, Except.bind, pure, Except.pure]

theorem mem_findChannelsByServer {db : Db} {serverId id : Uuid} :
    id ∈ (db.findChannelsByServer serverId).map Channel.id ↔ ChannelRow db.toTables serverId id := by
  simp only [Tables.findChannelsByServer, List.mem_map, List.mem_filter, decide_eq_true_eq, ChannelRow]
  refine exists_congr fun c => ?_
  tauto

theorem getServerMembers_missing {db : Db} {serverId : Uuid} (h : db.existsServer serverId = false)
    (usersCache : String → Option String) :
    getServerMembers db usersCache serverId = .error (.status 404 "Server not found") := by
  simp [getServerMembers, h, guardStatus, bind, Except.bind]

theorem getServerMembers_live {db : Db} {serverId : Uuid} (h : db.existsServer serverId = true)
    (usersCache : String → Option String) :
    getServerMembers db usersCache serverId =
      .ok ((db.findMembershipsByServer serverId).map fun m => (m.userId, displayName usersCache m.userId)) := by
  simp [getServerMembers, h, guardStatus, bind, Except.bind, pure, Except.pure]

/-- the members of a server, each one once -/
theorem members_nodup (db : Db) (serverId : Uuid) :
    ((db.findMembershipsByServer serverId).map Membership.userId).Nodup := by
  refine (db.schema.membershipsPk.filter _).map_on ?_
  rintro ⟨s, u⟩ hm ⟨s', u'⟩ hm' heq
  simp only [List.mem_filter, decide_eq_true_eq] at hm hm'
  rw [hm.2, hm'.2, show u = u' from heq]

theorem mem_findMembershipsByServer {db : Db} {serverId : Uuid} {userId : String} :
    userId ∈ (db.findMembershipsByServer serverId).map Membership.userId ↔
      (⟨serverId, userId⟩ : Membership) ∈ db.memberships := by
  simp only [Tables.findMembershipsByServer, List.mem_map, List.mem_filter, decide_eq_true_eq]
  refine ⟨?_, fun h => ⟨_, ⟨h, rfl⟩, rfl⟩⟩
  rintro ⟨⟨_, _⟩, ⟨hm, rfl⟩, rfl⟩
  exact hm

theorem getChannel_ok {db : Db} {serverId id : Uuid} :
    getChannel db id = .ok (id, serverId) ↔ ChannelRow db.toTables serverId id := by
  refine ⟨?_, ?_⟩
  · intro h
    obtain ⟨c, hc, hpair⟩ := Tx.bind_ok h
    cases hpair
    obtain ⟨hmem, hid, hd⟩ := Tables.findChannel_some (orElseThrow_ok hc)
    exact ⟨c, hmem, hid, rfl, hd⟩
  · rintro ⟨c, hc, rfl, rfl, hd⟩
    simp [getChannel, db.findChannel_eq hc hd, orElseThrow, bind, Except.bind, pure, Except.pure]

/-- the 409 of `joinServer` -/
theorem joinServer_conflict {db : Db} {serverId : Uuid} {userId : String} :
    joinServer db serverId userId = .error (.status 409 "already a member") ↔
      db.existsServer serverId = true ∧ (⟨serverId, userId⟩ : Membership) ∈ db.memberships := by
  refine ⟨?_, ?_⟩
  · intro h
    rcases Tx.bind_error h with h | ⟨_, hs, h⟩
    · cases guardStatus_error h
    have hs := guardStatus_ok hs
    by_contra hnot
    have hm : (⟨serverId, userId⟩ : Membership) ∉ db.memberships := fun hm => hnot ⟨hs, hm⟩
    rcases Tx.bind_error h with h | ⟨_, -, h⟩
    · have hm := mt Tables.existsMembership_iff.1 hm
      simp [hm, guardStatus] at h
    · -- behind both tests only the database refuses
      rcases Tx.bind_error h with h | ⟨db', -, h⟩
      · unfold Db.saveMembership at h
        split_ifs at h
        cases h
      · cases hr : db'.findRoleByName serverId "@everyone" with
        | none => rw [hr] at h; cases h
        | some r => rw [hr] at h; cases assignRoleToMember_error h
  · rintro ⟨hs, hm⟩
    have hm := Tables.existsMembership_iff.2 hm
    simp [joinServer, hs, hm, guardStatus, bind, Except.bind]

/-- whoever is a member has what @everyone grants -/
theorem member_effective {db : Db} (hinv : Inv db.toTables) {m : Membership} (hm : m ∈ db.memberships) {p : Permission}
    (hp : p ≠ .manage) : p ∈ db.effective m.serverId m.userId := by
  obtain ⟨s, hs, hid⟩ := List.mem_map.1 (db.schema.membershipsFk m hm)
  by_cases howner : m.userId = s.ownerId
  · rw [howner, ← hid, owner_effective hinv hs]
    exact Finset.mem_univ p
  · obtain ⟨r, hr, hrs, hname, hassigned⟩ := hinv.member m hm s hs hid howner
    obtain ⟨r', -, -, -, hperm, -, huniq⟩ := everyone_unique hinv hs
    rw [← huniq r hr hrs hname] at hperm
    rw [hid] at hassigned
    refine mem_effective.2 ⟨r, hr, hassigned, ?_⟩
    rw [hperm]
    cases p with
    | manage => exact absurd rfl hp
    | _ => decide

/-! ## The whole statement -/

/-- **One meaning of membership.** After every run of requests, "created or joined and not left since" is what the list of
a user's servers, the list of a server's channels, the list of its members, the conflict of a join and CheckPerm's
READ, WRITE and VOICE_JOIN all say; a deleted server is gone from the lists, whose entries appear once, and from the
tests, but not from CheckPerm and not from the lookup of its channels. -/
theorem one_membership (ops : List Request) (usersCache : String → Option String) (serverId : Uuid) (userId : String) :
    let db := reached ops
    (((getServersByUserId db userId).map Server.id).Nodup ∧
      (serverId ∈ (getServersByUserId db userId).map Server.id ↔ Live ops serverId ∧ MemberSince ops serverId userId)) ∧
    ((¬ Live ops serverId → getChannels db serverId userId = .error (.status 404 "Server not found") ∧
        getServerMembers db usersCache serverId = .error (.status 404 "Server not found")) ∧
      (Live ops serverId → ¬ MemberSince ops serverId userId →
        getChannels db serverId userId = .error (.status 403 "Non-member cannot access server's channels")) ∧
      (Live ops serverId → MemberSince ops serverId userId → ∃ channels, getChannels db serverId userId = .ok channels ∧
        (channels.map Channel.id).Nodup ∧ ∀ id, id ∈ channels.map Channel.id ↔ ChannelSince ops serverId id) ∧
      (Live ops serverId → ∃ members, getServerMembers db usersCache serverId = .ok members ∧
        (members.map Prod.fst).Nodup ∧ (userId ∈ members.map Prod.fst ↔ MemberSince ops serverId userId))) ∧
    (joinServer db serverId userId = .error (.status 409 "already a member") ↔
      Live ops serverId ∧ MemberSince ops serverId userId) ∧
    (∀ request c p, request.userId = userId → Reads db request c serverId p → p ≠ .manage →
      ((checkPerm db db.effective request).allowed = true ↔ MemberSince ops serverId userId)) ∧
    ∀ id, getChannel db id = .ok (id, serverId) ↔ ChannelSince ops serverId id := by
  intro db
  have hlive := live_iff ops serverId
  have hmember := member_iff ops serverId userId
  refine ⟨⟨?_, ?_⟩, ⟨?_, ?_, ?_, ?_⟩, ?_, ?_, fun id => getChannel_ok.trans (channel_iff ops serverId id)⟩
  · exact (db.schema.serversPk.of_map _ |>.filter _).map_on fun _ hx _ hy he =>
      eq_of_key db.schema.serversPk (List.mem_filter.1 hx).1 (List.mem_filter.1 hy).1 he
  · rw [← hlive, ← hmember, Tables.existsServer_iff]
    simp only [List.mem_map, mem_getServersByUserId]
    refine ⟨?_, ?_⟩
    · rintro ⟨s, ⟨hs, hd, hm⟩, rfl⟩
      exact ⟨⟨s, hs, rfl, hd⟩, hm⟩
    · rintro ⟨⟨s, hs, rfl, hd⟩, hm⟩
      exact ⟨s, ⟨hs, hd, hm⟩, rfl⟩
  · intro hgone
    have hgone := Bool.eq_false_iff.2 (mt hlive.1 hgone)
    exact ⟨getChannels_missing hgone userId, getServerMembers_missing hgone usersCache⟩
  · exact fun h hout => getChannels_outside (hlive.2 h) (mt hmember.1 hout)
  · intro h hin
    refine ⟨_, getChannels_member (hlive.2 h) (hmember.2 hin), ?_, ?_⟩
    · exact (db.schema.channelsPk.of_map _ |>.filter _).map_on fun _ hx _ hy he =>
        eq_of_key db.schema.channelsPk (List.mem_filter.1 hx).1 (List.mem_filter.1 hy).1 he
    · exact fun id => mem_findChannelsByServer.trans (channel_iff ops serverId id)
  · intro h
    refine ⟨_, getServerMembers_live (hlive.2 h) usersCache, ?_, ?_⟩ <;> rw [List.map_map]
    · exact members_nodup db serverId
    · exact mem_findMembershipsByServer.trans hmember
  · rw [joinServer_conflict, hlive, hmember]
  · rintro request c p rfl hreads hp
    rw [checkPerm_allowed, ← hmember]
    refine ⟨?_, fun hm => ⟨c, serverId, p, hreads, hm, member_effective (reached_inv ops) hm hp⟩⟩
    rintro ⟨c', s', p', ⟨hc', hp', hs'⟩, hm, -⟩
    obtain ⟨hc, -, hs⟩ := hreads
    rw [hc] at hc'
    cases hc'
    rw [hs] at hs'
    cases hs'
    exact hm

end Concordia.Servers
