/-
What a committed request did, stated once. `Effect t q t'` has one constructor for each operation, with the checks it
passed and the tables it left; `handle_effect` derives it from the operation's code. Invariants, frame facts and
histories are proved by cases on `Effect` and never unfold an operation again.
-/
import Concordia.Servers.Operations

namespace Concordia.Servers

open Concordia.Lib

/-! ## Peeling a transaction -/

theorem Tx.bind_ok {α β : Type} {x : Tx α} {f : α → Tx β} {b : β} (h : x >>= f = .ok b) :
    ∃ a, x = .ok a ∧ f a = .ok b := by
  cases x with
  | error e => cases h
  | ok a => exact ⟨a, rfl, h⟩

theorem Tx.map_ok {α β : Type} {x : Tx α} {f : α → β} {b : β} (h : f <$> x = .ok b) : ∃ a, x = .ok a ∧ f a = b := by
  cases x with
  | error e => cases h
  | ok a => exact ⟨a, rfl, by cases h; rfl⟩

theorem guardStatus_ok {ok : Bool} {code : ℕ} {reason : String} {u : Unit} (h : guardStatus ok code reason = .ok u) :
    ok = true := by
  unfold guardStatus at h
  split_ifs at h with hok
  exact hok

theorem orElseThrow_ok {α : Type} {o : Option α} {code : ℕ} {reason : String} {a : α}
    (h : orElseThrow o code reason = .ok a) : o = some a := by
  cases o with
  | none => cases h
  | some x => cases h; rfl

/-! ## One lemma for each statement -/

namespace Db

theorem insertServer_ok {db db' : Db} {x : Server} (h : db.insertServer x = .ok db') :
    db'.toTables = { db.toTables with servers := db.servers ++ [x] } := by
  unfold insertServer at h
  split_ifs at h
  cases h; rfl

theorem saveServerName_ok {db db' : Db} {id : Uuid} {n : String} (h : db.saveServerName id n = .ok db') :
    db'.toTables = { db.toTables with servers := db.servers.map (rename id n) } := by
  unfold saveServerName at h
  split_ifs at h
  cases h; rfl

theorem insertChannel_ok {db db' : Db} {x : Channel} (h : db.insertChannel x = .ok db') :
    db'.toTables = { db.toTables with channels := db.channels ++ [x] } := by
  unfold insertChannel at h
  split_ifs at h
  cases h; rfl

theorem saveChannel_ok {db db' : Db} {c : Channel} (h : db.saveChannel c = .ok db') :
    db'.toTables = { db.toTables with channels := db.channels.map (rewriteChannel c) } := by
  unfold saveChannel at h
  split_ifs at h
  cases h; rfl

theorem insertRole_ok {db db' : Db} {x : Role} (h : db.insertRole x = .ok db') :
    db'.toTables = { db.toTables with roles := db.roles ++ [x] } := by
  unfold insertRole at h
  split_ifs at h
  cases h; rfl

theorem saveMembership_ok {db db' : Db} {x : Membership} (h : db.saveMembership x = .ok db') :
    db'.toTables = { db.toTables with memberships := addRow x db.memberships } := by
  unfold saveMembership at h
  split_ifs at h with hx
  · cases h; rw [addRow_of_mem hx]
  · cases h; rw [addRow_of_not_mem hx]

theorem assignRoleToMember_ok {db db' : Db} {x : MembershipRole} (h : db.assignRoleToMember x = .ok db') :
    db'.toTables = { db.toTables with membershipRoles := addRow x db.membershipRoles } := by
  unfold assignRoleToMember at h
  split_ifs at h with hx
  · cases h; rw [addRow_of_mem hx]
  · cases h; rw [addRow_of_not_mem hx]

end Db

/-! ## Effects -/

/-- what a committed request did to the tables -/
inductive Effect (t : Tables) : Request → Tables → Prop where
  | createServer (name ownerId : String) :
    Effect t (.createServer (some name) ownerId)
      { t with
        servers := t.servers ++ [⟨t.drawn, name, ownerId, false⟩]
        roles := t.roles ++ [⟨t.drawn + 1, t.drawn, "@everyone", everyonePermissions⟩] ++
          [⟨t.drawn + 2, t.drawn, "@owner", ownerPermissions⟩]
        memberships := addRow ⟨t.drawn, ownerId⟩ t.memberships
        membershipRoles := addRow ⟨t.drawn, ownerId, t.drawn + 2⟩ t.membershipRoles
        drawn := t.drawn + 3 }
  | updateServer (s : Server) (name : String) (hs : t.findServer s.id = some s) :
    Effect t (.updateServer s.id (some name) s.ownerId) { t with servers := t.servers.map (Db.rename s.id name) }
  | deleteServer (s : Server) (hs : t.findServer s.id = some s) :
    Effect t (.deleteServer s.id s.ownerId) { t with servers := t.servers.map (Db.softDelete s.id) }
  | createChannel (serverId : Uuid) (name type userId : String) (channelType : ChannelType)
    (hs : t.existsServer serverId) (hm : (⟨serverId, userId⟩ : Membership) ∈ t.memberships) :
    Effect t (.createChannel serverId (some name) (some type) userId)
      { t with channels := t.channels ++ [⟨t.drawn, serverId, name, channelType, false⟩], drawn := t.drawn + 1 }
  | updateChannel (s : Server) (c c' : Channel) (newName newType : Option String) (hs : t.findServer s.id = some s)
    (hc : t.findChannel c.id = some c) (hcs : c.serverId = s.id) (hid : c'.id = c.id) :
    Effect t (.updateChannel s.id c.id newName newType s.ownerId)
      { t with channels := t.channels.map (Db.rewriteChannel c') }
  | deleteChannel (s : Server) (c : Channel) (hs : t.findServer s.id = some s) (hc : t.findChannel c.id = some c)
    (hcs : c.serverId = s.id) :
    Effect t (.deleteChannel s.id c.id s.ownerId) { t with channels := t.channels.map (Db.softDeleteChannel c.id) }
  | createRole (serverId : Uuid) (name : String) (permissions : Finset Permission) (hs : t.existsServer serverId) :
    Effect t (.createRole serverId (some name) (some permissions))
      { t with roles := t.roles ++ [⟨t.drawn, serverId, name, permissions⟩], drawn := t.drawn + 1 }
  | assignRole (s : Server) (r : Role) (targetUserId requesterId : String) (hs : t.findServer s.id = some s)
    (hm : (⟨s.id, targetUserId⟩ : Membership) ∈ t.memberships) (hr : t.findRole r.id = some r)
    (hrs : r.serverId = s.id) (hauth : s.ownerId = requesterId ∨ Permission.manage ∈ t.effective s.id requesterId) :
    Effect t (.assignRole s.id targetUserId r.id requesterId)
      { t with membershipRoles := addRow ⟨s.id, targetUserId, r.id⟩ t.membershipRoles }
  | joinServer (serverId : Uuid) (userId : String) (r : Role) (hs : t.existsServer serverId)
    (hm : (⟨serverId, userId⟩ : Membership) ∉ t.memberships) (hr : t.findRoleByName serverId "@everyone" = some r) :
    Effect t (.joinServer serverId userId)
      { t with
        memberships := t.memberships ++ [⟨serverId, userId⟩]
        membershipRoles := addRow ⟨serverId, userId, r.id⟩ t.membershipRoles }
  | joinNoRole (serverId : Uuid) (userId : String) (hs : t.existsServer serverId)
    (hm : (⟨serverId, userId⟩ : Membership) ∉ t.memberships) (hr : t.findRoleByName serverId "@everyone" = none) :
    Effect t (.joinServer serverId userId) { t with memberships := t.memberships ++ [⟨serverId, userId⟩] }
  | leaveServer (s : Server) (userId : String) (hs : t.findServer s.id = some s) (ho : s.ownerId ≠ userId)
    (hm : (⟨s.id, userId⟩ : Membership) ∈ t.memberships) :
    Effect t (.leaveServer s.id userId)
      { t with
        memberships := t.memberships.filter (· ≠ ⟨s.id, userId⟩)
        membershipRoles := t.membershipRoles.filter (·.membership ≠ ⟨s.id, userId⟩) }

theorem some_of_not_missing {o : Option String} (h : (!missing o) = true) : o = some (o.getD "") := by
  cases o with
  | none => simp [missing] at h
  | some n => rfl

theorem createServer_effect {db db' : Db} {x : Server} {name : Option String} {o : String}
    (h : createServer db name o = .ok (db', x)) : Effect db.toTables (.createServer name o) db'.toTables := by
  obtain ⟨_, hn, h⟩ := Tx.bind_ok h
  obtain ⟨db1, h1, h⟩ := Tx.bind_ok h
  obtain ⟨db2, h2, h⟩ := Tx.bind_ok h
  obtain ⟨db3, h3, h⟩ := Tx.bind_ok h
  obtain ⟨db4, h4, h⟩ := Tx.bind_ok h
  obtain ⟨db5, h5, h⟩ := Tx.bind_ok h
  cases h
  have t1 := Db.insertServer_ok h1
  have t2 := Db.insertRole_ok h2
  have t3 := Db.insertRole_ok h3
  have t4 := Db.saveMembership_ok h4
  have t5 := Db.assignRoleToMember_ok h5
  rw [some_of_not_missing (guardStatus_ok hn)]
  have : db'.toTables = _ := t5
  rw [this, t4, t3]
  simp only [t2, t1]
  exact Effect.createServer _ _

theorem updateServer_effect {db db' : Db} {x : Server} {id : Uuid} {name : Option String} {q : String}
    (h : updateServer db id name q = .ok (db', x)) : Effect db.toTables (.updateServer id name q) db'.toTables := by
  obtain ⟨_, hn, h⟩ := Tx.bind_ok h
  obtain ⟨s, hs, h⟩ := Tx.bind_ok h
  obtain ⟨_, ho, h⟩ := Tx.bind_ok h
  obtain ⟨db1, h1, h⟩ := Tx.bind_ok h
  cases h
  have hs := orElseThrow_ok hs
  obtain ⟨_, rfl, _⟩ := Tables.findServer_some hs
  have ho : s.ownerId = q := by simpa using guardStatus_ok ho
  rw [some_of_not_missing (guardStatus_ok hn), Db.saveServerName_ok h1, ← ho]
  exact Effect.updateServer s _ hs

theorem deleteServer_effect {db db' : Db} {id : Uuid} {q : String} (h : deleteServer db id q = .ok db') :
    Effect db.toTables (.deleteServer id q) db'.toTables := by
  obtain ⟨s, hs, h⟩ := Tx.bind_ok h
  obtain ⟨_, ho, h⟩ := Tx.bind_ok h
  cases h
  have hs := orElseThrow_ok hs
  obtain ⟨_, rfl, _⟩ := Tables.findServer_some hs
  have ho : s.ownerId = q := by simpa using guardStatus_ok ho
  rw [← ho]
  exact Effect.deleteServer s hs

theorem createChannel_effect {db db' : Db} {x : Channel} {sid : Uuid} {name type : Option String} {u : String}
    (h : createChannel db sid name type u = .ok (db', x)) :
    Effect db.toTables (.createChannel sid name type u) db'.toTables := by
  obtain ⟨_, hn, h⟩ := Tx.bind_ok h
  obtain ⟨_, hs, h⟩ := Tx.bind_ok h
  obtain ⟨_, hm, h⟩ := Tx.bind_ok h
  obtain ⟨ct, ht, h⟩ := Tx.bind_ok h
  obtain ⟨db1, h1, h⟩ := Tx.bind_ok h
  cases h
  obtain ⟨type, rfl, _⟩ := Option.bind_eq_some_iff.1 (orElseThrow_ok ht)
  rw [some_of_not_missing (guardStatus_ok hn), Db.insertChannel_ok h1]
  exact Effect.createChannel sid _ type u ct (guardStatus_ok hs) (by simpa using guardStatus_ok hm)

theorem getServerAndVerifyManagePermission_ok {db : Db} {sid : Uuid} {u : String} {s : Server}
    (h : getServerAndVerifyManagePermission db sid u = .ok s) :
    s.id = sid ∧ s.ownerId = u ∧ db.findServer s.id = some s := by
  obtain ⟨x, hs, h⟩ := Tx.bind_ok h
  obtain ⟨_, ho, h⟩ := Tx.bind_ok h
  cases h
  have hs := orElseThrow_ok hs
  obtain ⟨_, rfl, _⟩ := Tables.findServer_some hs
  exact ⟨rfl, by simpa using guardStatus_ok ho, hs⟩

theorem updateChannel_effect {db db' : Db} {x : Channel} {sid cid : Uuid} {name type : Option String} {u : String}
    (h : updateChannel db sid cid name type u = .ok (db', x)) :
    Effect db.toTables (.updateChannel sid cid name type u) db'.toTables := by
  obtain ⟨s, hs, h⟩ := Tx.bind_ok h
  obtain ⟨c, hc, h⟩ := Tx.bind_ok h
  obtain ⟨_, hcs, h⟩ := Tx.bind_ok h
  obtain ⟨ct, _, h⟩ := Tx.bind_ok h
  obtain ⟨db1, h1, h⟩ := Tx.bind_ok h
  cases h
  obtain ⟨rfl, rfl, hfind⟩ := getServerAndVerifyManagePermission_ok hs
  have hc := orElseThrow_ok hc
  obtain ⟨_, rfl, _⟩ := Tables.findChannel_some hc
  rw [Db.saveChannel_ok h1]
  exact Effect.updateChannel s c _ name type hfind hc (by simpa using guardStatus_ok hcs) rfl

theorem deleteChannel_effect {db db' : Db} {sid cid : Uuid} {u : String} (h : deleteChannel db sid cid u = .ok db') :
    Effect db.toTables (.deleteChannel sid cid u) db'.toTables := by
  obtain ⟨s, hs, h⟩ := Tx.bind_ok h
  obtain ⟨c, hc, h⟩ := Tx.bind_ok h
  obtain ⟨_, hcs, h⟩ := Tx.bind_ok h
  cases h
  obtain ⟨rfl, rfl, hfind⟩ := getServerAndVerifyManagePermission_ok hs
  have hc := orElseThrow_ok hc
  obtain ⟨_, rfl, _⟩ := Tables.findChannel_some hc
  exact Effect.deleteChannel s c hfind hc (by simpa using guardStatus_ok hcs)

theorem createRole_effect {db db' : Db} {x : Role} {sid : Uuid} {name : Option String}
    {perms : Option (Finset Permission)} (h : createRole db sid name perms = .ok (db', x)) :
    Effect db.toTables (.createRole sid name perms) db'.toTables := by
  obtain ⟨_, hn, h⟩ := Tx.bind_ok h
  obtain ⟨_, hp, h⟩ := Tx.bind_ok h
  obtain ⟨_, hs, h⟩ := Tx.bind_ok h
  obtain ⟨db1, h1, h⟩ := Tx.bind_ok h
  cases h
  obtain ⟨p, rfl⟩ : ∃ p, perms = some p := by
    cases perms with
    | none => exact absurd (guardStatus_ok hp) (by simp)
    | some p => exact ⟨p, rfl⟩
  rw [some_of_not_missing (guardStatus_ok hn), Db.insertRole_ok h1]
  exact Effect.createRole sid _ p (guardStatus_ok hs)

theorem assignRole_effect {db db' : Db} {sid rid : Uuid} {u q : String} (h : assignRole db sid u rid q = .ok db') :
    Effect db.toTables (.assignRole sid u rid q) db'.toTables := by
  obtain ⟨s, hs, h⟩ := Tx.bind_ok h
  obtain ⟨_, hm, h⟩ := Tx.bind_ok h
  obtain ⟨r, hr, h⟩ := Tx.bind_ok h
  obtain ⟨_, hrs, h⟩ := Tx.bind_ok h
  obtain ⟨_, hq, h⟩ := Tx.bind_ok h
  have hs := orElseThrow_ok hs
  have hr := orElseThrow_ok hr
  obtain ⟨_, rfl, _⟩ := Tables.findServer_some hs
  obtain ⟨_, rfl⟩ := Tables.findRole_some hr
  rw [Db.assignRoleToMember_ok h]
  exact Effect.assignRole s r u q hs (by simpa using guardStatus_ok hm) hr (by simpa using guardStatus_ok hrs)
    (by simpa using guardStatus_ok hq)

theorem joinServer_effect {db db' : Db} {sid : Uuid} {u : String} (h : joinServer db sid u = .ok db') :
    Effect db.toTables (.joinServer sid u) db'.toTables := by
  obtain ⟨_, hs, h⟩ := Tx.bind_ok h
  obtain ⟨_, hm, h⟩ := Tx.bind_ok h
  obtain ⟨db1, h1, h⟩ := Tx.bind_ok h
  have hm : (⟨sid, u⟩ : Membership) ∉ db.memberships := by
    simpa [Tables.existsMembership] using guardStatus_ok hm
  have t1 := Db.saveMembership_ok h1
  rw [addRow_of_not_mem hm] at t1
  cases hr : db.findRoleByName sid "@everyone" with
  | none =>
    rw [show db1.findRoleByName sid "@everyone" = none by rw [t1]; exact hr] at h
    cases h
    rw [t1]
    exact Effect.joinNoRole sid u (guardStatus_ok hs) hm hr
  | some r =>
    rw [show db1.findRoleByName sid "@everyone" = some r by rw [t1]; exact hr] at h
    rw [Db.assignRoleToMember_ok h, t1]
    exact Effect.joinServer sid u r (guardStatus_ok hs) hm hr

theorem leaveServer_effect {db db' : Db} {sid : Uuid} {u : String} (h : leaveServer db sid u = .ok db') :
    Effect db.toTables (.leaveServer sid u) db'.toTables := by
  obtain ⟨s, hs, h⟩ := Tx.bind_ok h
  obtain ⟨_, ho, h⟩ := Tx.bind_ok h
  obtain ⟨_, hm, h⟩ := Tx.bind_ok h
  cases h
  have hs := orElseThrow_ok hs
  obtain ⟨_, rfl, _⟩ := Tables.findServer_some hs
  exact Effect.leaveServer s u hs (by simpa using guardStatus_ok ho) (by simpa using guardStatus_ok hm)

/-- **Inversion of a committed request.** -/
theorem handle_effect {db db' : Db} {q : Request} (h : handle db q = .ok db') :
    Effect db.toTables q db'.toTables := by
  cases q with
  | createServer => obtain ⟨⟨_, _⟩, hx, rfl⟩ := Tx.map_ok h; exact createServer_effect hx
  | updateServer => obtain ⟨⟨_, _⟩, hx, rfl⟩ := Tx.map_ok h; exact updateServer_effect hx
  | deleteServer => exact deleteServer_effect h
  | createChannel => obtain ⟨⟨_, _⟩, hx, rfl⟩ := Tx.map_ok h; exact createChannel_effect hx
  | updateChannel => obtain ⟨⟨_, _⟩, hx, rfl⟩ := Tx.map_ok h; exact updateChannel_effect hx
  | deleteChannel => exact deleteChannel_effect h
  | createRole => obtain ⟨⟨_, _⟩, hx, rfl⟩ := Tx.map_ok h; exact createRole_effect hx
  | assignRole => exact assignRole_effect h
  | joinServer => exact joinServer_effect h
  | leaveServer => exact leaveServer_effect h

/-- a request either rolls back and changes nothing, or commits with its effect -/
theorem step_cases (db : Db) (q : Request) :
    (¬ Succeeds db q ∧ step db q = db) ∨ (Succeeds db q ∧ Effect db.toTables q (step db q).toTables) := by
  unfold Succeeds step
  cases h : handle db q with
  | error e => exact Or.inl ⟨by simp [Except.isOk, Except.toBool], rfl⟩
  | ok db' => exact Or.inr ⟨rfl, handle_effect h⟩

/-- a request that commits has its effect -/
theorem Succeeds.effect {db : Db} {q : Request} (h : Succeeds db q) : Effect db.toTables q (step db q).toTables :=
  (step_cases db q).elim (fun hn => absurd h hn.1) fun he => he.2

end Concordia.Servers
