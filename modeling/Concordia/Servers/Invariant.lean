/-
The representation invariant of the servers store, over every run of requests from the empty database.

`Schema` (carried by `Db`) is what PostgreSQL enforces. `Inv` is what only the service code keeps:
- `roleServer`: an assigned role belongs to the server of the membership it is assigned to;
- `everyone`: every server has its @everyone role, with the three default permissions;
- `owner`: the owner of every server is a member and holds a role with all four permissions;
- `member`: every other member holds @everyone.

`effect_inv` is the step lemma, `reached_inv` the run lemma, `store_invariant` the whole statement.
-/
import Concordia.Servers.Effects

namespace Concordia.Servers

open Concordia.Lib

structure Inv (t : Tables) : Prop where
  roleServer : ∀ m ∈ t.membershipRoles, ∃ r ∈ t.roles, r.id = m.roleId ∧ r.serverId = m.serverId
  everyone : ∀ s ∈ t.servers, ∃ r ∈ t.roles,
    r.serverId = s.id ∧ r.name = "@everyone" ∧ r.permissions = everyonePermissions
  owner : ∀ s ∈ t.servers, (⟨s.id, s.ownerId⟩ : Membership) ∈ t.memberships ∧ ∃ r ∈ t.roles,
    r.permissions = ownerPermissions ∧ (⟨s.id, s.ownerId, r.id⟩ : MembershipRole) ∈ t.membershipRoles
  member : ∀ m ∈ t.memberships, ∀ s ∈ t.servers, s.id = m.serverId → m.userId ≠ s.ownerId → ∃ r ∈ t.roles,
    r.serverId = s.id ∧ r.name = "@everyone" ∧ (⟨s.id, m.userId, r.id⟩ : MembershipRole) ∈ t.membershipRoles

theorem inv_empty : Inv Db.empty.toTables := by
  constructor <;> simp [Db.empty]

/-! ## One lemma for each kind of effect -/

theorem Inv.updateServers {t : Tables} (h : Inv t) {f : Server → Server} (hid : ∀ x, (f x).id = x.id)
    (ho : ∀ x, (f x).ownerId = x.ownerId) : Inv { t with servers := t.servers.map f } := by
  refine { h with everyone := ?_, owner := ?_, member := ?_ }
  · intro s hs
    obtain ⟨x, hx, rfl⟩ := List.mem_map.1 hs
    rw [hid]; exact h.everyone x hx
  · intro s hs
    obtain ⟨x, hx, rfl⟩ := List.mem_map.1 hs
    rw [hid, ho]; exact h.owner x hx
  · intro m hm s hs
    obtain ⟨x, hx, rfl⟩ := List.mem_map.1 hs
    rw [hid, ho]; exact h.member m hm x hx

theorem Inv.setChannels {t : Tables} (h : Inv t) (cs : List Channel) (d : ℕ) :
    Inv { t with channels := cs, drawn := d } :=
  { h with }

theorem Inv.addRole {t : Tables} (h : Inv t) (x : Role) (d : ℕ) :
    Inv { t with roles := t.roles ++ [x], drawn := d } := by
  have old : ∀ {r}, r ∈ t.roles → r ∈ t.roles ++ [x] := fun hr => List.mem_append_left _ hr
  refine ⟨?_, ?_, ?_, ?_⟩
  · intro m hm
    obtain ⟨r, hr, h1⟩ := h.roleServer m hm; exact ⟨r, old hr, h1⟩
  · intro s hs
    obtain ⟨r, hr, h1⟩ := h.everyone s hs; exact ⟨r, old hr, h1⟩
  · intro s hs
    obtain ⟨h0, r, hr, h1⟩ := h.owner s hs; exact ⟨h0, r, old hr, h1⟩
  · intro m hm s hs he hn
    obtain ⟨r, hr, h1⟩ := h.member m hm s hs he hn; exact ⟨r, old hr, h1⟩

theorem Inv.assign {t : Tables} (h : Inv t) {x : MembershipRole} {r : Role} (hr : r ∈ t.roles) (hid : r.id = x.roleId)
    (hsrv : r.serverId = x.serverId) : Inv { t with membershipRoles := addRow x t.membershipRoles } := by
  have old : ∀ {m}, m ∈ t.membershipRoles → m ∈ addRow x t.membershipRoles := fun hm => mem_addRow.2 (Or.inl hm)
  refine ⟨?_, h.everyone, ?_, ?_⟩
  · intro m hm
    rcases mem_addRow.1 hm with hm | rfl
    · exact h.roleServer m hm
    · exact ⟨r, hr, hid, hsrv⟩
  · intro s hs
    obtain ⟨h0, r, hr, h1, h2⟩ := h.owner s hs; exact ⟨h0, r, hr, h1, old h2⟩
  · intro m hm s hs he hn
    obtain ⟨r, hr, h1, h2, h3⟩ := h.member m hm s hs he hn; exact ⟨r, hr, h1, h2, old h3⟩

theorem Inv.join {t : Tables} (h : Inv t) {sid : Uuid} {u : String} {r : Role} (hr : r ∈ t.roles)
    (hsrv : r.serverId = sid) (hname : r.name = "@everyone") :
    Inv { t with
      memberships := t.memberships ++ [⟨sid, u⟩]
      membershipRoles := addRow ⟨sid, u, r.id⟩ t.membershipRoles } := by
  have h' := h.assign (x := ⟨sid, u, r.id⟩) hr rfl hsrv
  refine { h' with owner := ?_, member := ?_ }
  · intro s hs
    exact ⟨List.mem_append_left _ (h.owner s hs).1, (h'.owner s hs).2⟩
  · intro m hm s hs he hn
    rcases mem_snoc.1 hm with hm | rfl
    · exact h'.member m hm s hs he hn
    · subst he
      exact ⟨r, hr, hsrv, hname, mem_addRow.2 (Or.inr rfl)⟩

theorem Inv.leave {t : Tables} (h : Inv t) (hschema : Schema t) {s0 : Server} {u : String} (hs0 : s0 ∈ t.servers)
    (ho : s0.ownerId ≠ u) :
    Inv { t with
      memberships := t.memberships.filter (· ≠ ⟨s0.id, u⟩)
      membershipRoles := t.membershipRoles.filter (·.membership ≠ ⟨s0.id, u⟩) } := by
  refine ⟨fun m hm => h.roleServer m (List.mem_filter.1 hm).1, h.everyone, ?_, ?_⟩
  · intro s hs
    -- the owner's rows stay: the leaver owns no server with this id
    have hne : (⟨s.id, s.ownerId⟩ : Membership) ≠ ⟨s0.id, u⟩ := by
      intro e
      obtain ⟨e1, e2⟩ := Membership.mk.inj e
      have := eq_of_key hschema.serversPk hs hs0 e1
      exact ho (this ▸ e2)
    obtain ⟨h1, r, hr, h2, h3⟩ := h.owner s hs
    exact ⟨List.mem_filter.2 ⟨h1, decide_eq_true hne⟩, r, hr, h2, List.mem_filter.2 ⟨h3, decide_eq_true hne⟩⟩
  · intro m hm s hs he hn
    obtain ⟨hm, hne⟩ := List.mem_filter.1 hm
    obtain ⟨r, hr, h1, h2, h3⟩ := h.member m hm s hs he hn
    refine ⟨r, hr, h1, h2, List.mem_filter.2 ⟨h3, ?_⟩⟩
    rw [MembershipRole.membership, he]
    exact hne

theorem Inv.createServer {t : Tables} (h : Inv t) (hschema : Schema t) (name o : String) :
    Inv { t with
      servers := t.servers ++ [⟨t.drawn, name, o, false⟩]
      roles := t.roles ++ [⟨t.drawn + 1, t.drawn, "@everyone", everyonePermissions⟩] ++
        [⟨t.drawn + 2, t.drawn, "@owner", ownerPermissions⟩]
      memberships := addRow ⟨t.drawn, o⟩ t.memberships
      membershipRoles := addRow ⟨t.drawn, o, t.drawn + 2⟩ t.membershipRoles
      drawn := t.drawn + 3 } := by
  -- the roles first, then the assignment, then the new server with its only member
  have h1 := ((h.addRole ⟨t.drawn + 1, t.drawn, "@everyone", everyonePermissions⟩ (t.drawn + 2)).addRole
    ⟨t.drawn + 2, t.drawn, "@owner", ownerPermissions⟩ (t.drawn + 3)).assign
      (x := ⟨t.drawn, o, t.drawn + 2⟩) (mem_snoc.2 (Or.inr rfl)) rfl rfl
  have hfresh : ∀ m ∈ t.memberships, m.serverId ≠ t.drawn := by
    intro m hm e
    obtain ⟨s, hs, hse⟩ := List.mem_map.1 (hschema.membershipsFk m hm)
    exact absurd (hse.trans e) (Nat.ne_of_lt (hschema.serversDrawn s hs))
  refine { h1 with everyone := ?_, owner := ?_, member := ?_ }
  · intro s hs
    rcases mem_snoc.1 hs with hs | rfl
    · exact h1.everyone s hs
    · exact ⟨⟨t.drawn + 1, t.drawn, "@everyone", everyonePermissions⟩, by simp, rfl, rfl, rfl⟩
  · intro s hs
    rcases mem_snoc.1 hs with hs | rfl
    · exact ⟨mem_addRow.2 (Or.inl (h1.owner s hs).1), (h1.owner s hs).2⟩
    · exact ⟨mem_addRow.2 (Or.inr rfl), ⟨t.drawn + 2, t.drawn, "@owner", ownerPermissions⟩, by simp, rfl,
        mem_addRow.2 (Or.inr rfl)⟩
  · intro m hm s hs he hn
    rcases mem_addRow.1 hm with hm | rfl <;> rcases mem_snoc.1 hs with hs | rfl
    · exact h1.member m hm s hs he hn
    · exact absurd he.symm (hfresh m hm)
    · exact absurd he (Nat.ne_of_lt (hschema.serversDrawn s hs))
    · exact absurd rfl hn

/-! ## The step and the run lemma -/

theorem effect_inv {t t' : Tables} {q : Request} (hschema : Schema t) (h : Inv t) (he : Effect t q t') : Inv t' := by
  cases he with
  | createServer name o => exact h.createServer hschema name o
  | updateServer s name hs => exact h.updateServers (Db.rename_id _ _) (Db.rename_ownerId _ _)
  | deleteServer s hs => exact h.updateServers (Db.softDelete_id _) (Db.softDelete_ownerId _)
  | createChannel => exact h.setChannels _ _
  | updateChannel => exact h.setChannels _ _
  | deleteChannel => exact h.setChannels _ _
  | createRole => exact h.addRole _ _
  | assignRole s r u q hs hm hr hrs hauth => exact h.assign (Tables.findRole_some hr).1 rfl hrs
  | joinServer sid u r hs hm hr =>
    obtain ⟨h1, h2, h3⟩ := Tables.findRoleByName_some hr
    exact h.join h1 h2 h3
  | joinNoRole sid u hs hm hr =>
    obtain ⟨s, hsm, rfl, _⟩ := Tables.existsServer_iff.1 hs
    obtain ⟨r, hrm, h1, h2, _⟩ := h.everyone s hsm
    exact absurd (by simp [h1, h2]) (List.find?_eq_none.1 hr r hrm)
  | leaveServer s u hs ho hm => exact h.leave hschema (Tables.findServer_some hs).1 ho

theorem step_inv (db : Db) (q : Request) (h : Inv db.toTables) : Inv (step db q).toTables := by
  rcases step_cases db q with ⟨-, he⟩ | ⟨-, he⟩
  · rw [he]; exact h
  · exact effect_inv db.schema h he

/-- the state after a run of requests from the empty database -/
def reached (ops : List Request) : Db := run step Db.empty ops

theorem reached_inv (ops : List Request) : Inv (reached ops).toTables :=
  run_inv' (I := fun db : Db => Inv db.toTables) step_inv inv_empty ops

/-! ## Servers are never forgotten -/

/-- every server row of `t` still has a row with the same id and owner -/
def Kept (t t' : Tables) : Prop := ∀ s ∈ t.servers, ∃ s' ∈ t'.servers, s'.id = s.id ∧ s'.ownerId = s.ownerId

theorem effect_kept {t t' : Tables} {q : Request} (he : Effect t q t') : Kept t t' := by
  cases he with
  | createServer => exact fun s hs => ⟨s, List.mem_append_left _ hs, rfl, rfl⟩
  | updateServer x n hx => exact fun s hs => ⟨_, List.mem_map_of_mem hs, Db.rename_id _ _ _, Db.rename_ownerId _ _ _⟩
  | deleteServer x hx => exact fun s hs => ⟨_, List.mem_map_of_mem hs, Db.softDelete_id _ _, Db.softDelete_ownerId _ _⟩
  | _ => exact fun s hs => ⟨s, hs, rfl, rfl⟩

theorem step_kept (db : Db) (q : Request) : Kept db.toTables (step db q).toTables := by
  rcases step_cases db q with ⟨-, he⟩ | ⟨-, he⟩
  · rw [he]; exact fun s hs => ⟨s, hs, rfl, rfl⟩
  · exact effect_kept he

theorem run_kept (db : Db) (ops : List Request) : Kept db.toTables (run step db ops).toTables := by
  refine run_rel (R := fun a b : Db => Kept a.toTables b.toTables) (fun _ s hs => ⟨s, hs, rfl, rfl⟩) ?_ step_kept db ops
  intro a b c hab hbc s hs
  obtain ⟨s', hs', h1, h2⟩ := hab s hs
  obtain ⟨s'', hs'', h3, h4⟩ := hbc s' hs'
  exact ⟨s'', hs'', h3.trans h1, h4.trans h2⟩

/-! ## The whole statement -/

theorem owner_effective {t : Tables} (h : Inv t) {s : Server} (hs : s ∈ t.servers) :
    t.effective s.id s.ownerId = Finset.univ := by
  obtain ⟨-, r, hr, hp, hm⟩ := h.owner s hs
  ext p
  simp only [Finset.mem_univ, iff_true]
  refine mem_effective.2 ⟨r, hr, hm, ?_⟩
  rw [hp]
  cases p <;> decide

/-- a server has exactly one role named @everyone, and the lookup finds it -/
theorem everyone_unique {db : Db} (h : Inv db.toTables) {s : Server} (hs : s ∈ db.servers) :
    ∃ r ∈ db.roles, r.serverId = s.id ∧ r.name = "@everyone" ∧ r.permissions = everyonePermissions ∧
      db.findRoleByName s.id "@everyone" = some r ∧
      ∀ r' ∈ db.roles, r'.serverId = s.id → r'.name = "@everyone" → r' = r := by
  obtain ⟨r, hr, h1, h2, h3⟩ := h.everyone s hs
  refine ⟨r, hr, h1, h2, h3, ?_, ?_⟩
  · rw [← h1, ← h2]; exact db.findRoleByName_eq hr
  · intro r' hr' e1 e2
    exact eq_of_key db.schema.rolesUq hr' hr (by rw [e1, e2, h1, h2])

/-- **Representation invariant of the servers store.** After every run of requests from the empty database:
every assigned role has its membership and belongs to the same server; role names are unique within a server and the
@everyone lookup finds exactly one role; every server that ever existed on the way still has its owner as a member with
all four permissions; and every other member holds that server's @everyone role. -/
theorem store_invariant (ops : List Request) :
    (∀ m ∈ (reached ops).membershipRoles, m.membership ∈ (reached ops).memberships ∧
      ∃ r ∈ (reached ops).roles, r.id = m.roleId ∧ r.serverId = m.serverId) ∧
    (∀ r ∈ (reached ops).roles, ∀ r' ∈ (reached ops).roles, r.serverId = r'.serverId → r.name = r'.name → r = r') ∧
    (∀ s ∈ (reached ops).servers, ∃! r, r ∈ (reached ops).roles ∧ r.serverId = s.id ∧ r.name = "@everyone") ∧
    (∀ a b, ops = a ++ b → ∀ s ∈ (reached a).servers,
      (⟨s.id, s.ownerId⟩ : Membership) ∈ (reached ops).memberships ∧
      (∃ s' ∈ (reached ops).servers, s'.id = s.id ∧ s'.ownerId = s.ownerId) ∧
      (reached ops).effective s.id s.ownerId = {.read, .write, .voiceJoin, .manage}) ∧
    ∀ m ∈ (reached ops).memberships, ∀ s ∈ (reached ops).servers, s.id = m.serverId → m.userId ≠ s.ownerId →
      ∃ r, (reached ops).findRoleByName s.id "@everyone" = some r ∧
        (⟨s.id, m.userId, r.id⟩ : MembershipRole) ∈ (reached ops).membershipRoles := by
  have hinv := reached_inv ops
  have hschema := (reached ops).schema
  refine ⟨fun m hm => ⟨hschema.membershipRolesMemberFk m hm, hinv.roleServer m hm⟩, ?_, ?_, ?_, ?_⟩
  · intro r hr r' hr' e1 e2
    exact eq_of_key hschema.rolesUq hr hr' (by rw [e1, e2])
  · intro s hs
    obtain ⟨r, hr, h1, h2, -, -, huniq⟩ := everyone_unique hinv hs
    exact ⟨r, ⟨hr, h1, h2⟩, fun r' hr' => huniq r' hr'.1 hr'.2.1 hr'.2.2⟩
  · rintro a b rfl s hs
    obtain ⟨s', hs', h1, h2⟩ : ∃ s' ∈ (reached (a ++ b)).servers, s'.id = s.id ∧ s'.ownerId = s.ownerId := by
      rw [reached, run_append]; exact run_kept _ b s hs
    have howner := (hinv.owner s' hs').1
    have heff := owner_effective hinv hs'
    rw [h1, h2] at howner heff
    exact ⟨howner, ⟨s', hs', h1, h2⟩, heff.trans (by decide)⟩
  · intro m hm s hs e hn
    obtain ⟨r, hr, h1, h2, h3⟩ := hinv.member m hm s hs e hn
    refine ⟨r, ?_, h3⟩
    rw [← h1, ← h2]; exact (reached ops).findRoleByName_eq hr

end Concordia.Servers
