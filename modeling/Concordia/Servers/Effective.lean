/-
How each committed request changes effective permissions. Effective permissions are a function of `roles` and
`membership_roles` alone; a role that was just created is assigned to nobody, an assignment adds the permissions of the
assigned role to one member, and leaving drops everything the leaver had on that server.

`Gain` collects the only three ways a permission can be gained; `effect_gain` is the lemma all histories rest on.
`effect_untouched` is the frame: whom a request does not touch keeps membership and permissions.
-/
import Concordia.Servers.Invariant

namespace Concordia.Servers

open Concordia.Lib

/-- effective permissions need a membership -/
theorem membership_of_effective {t : Tables} (hschema : Schema t) {s : Uuid} {u : String} {p : Permission}
    (h : p ∈ t.effective s u) : (⟨s, u⟩ : Membership) ∈ t.memberships := by
  obtain ⟨r, -, hm, -⟩ := mem_effective.1 h
  exact hschema.membershipRolesMemberFk _ hm

/-- a role that no row assigns changes nobody's permissions -/
theorem effective_addRole {t : Tables} {x : Role} {d : ℕ} (hx : ∀ m ∈ t.membershipRoles, m.roleId ≠ x.id) (s : Uuid)
    (u : String) : { t with roles := t.roles ++ [x], drawn := d }.effective s u = t.effective s u := by
  ext p
  simp only [mem_effective]
  refine ⟨?_, ?_⟩
  · rintro ⟨r, hr, hm, hp⟩
    rcases mem_snoc.1 hr with hr | rfl
    · exact ⟨r, hr, hm, hp⟩
    · exact absurd rfl (hx _ hm)
  · rintro ⟨r, hr, hm, hp⟩
    exact ⟨r, mem_snoc.2 (Or.inl hr), hm, hp⟩

theorem mem_effective_assign {t : Tables} {x : MembershipRole} {s : Uuid} {u : String} {p : Permission} :
    p ∈ { t with membershipRoles := addRow x t.membershipRoles }.effective s u ↔
      p ∈ t.effective s u ∨ (x.serverId = s ∧ x.userId = u ∧ ∃ r ∈ t.roles, r.id = x.roleId ∧ p ∈ r.permissions) := by
  simp only [mem_effective]
  refine ⟨?_, ?_⟩
  · rintro ⟨r, hr, hm, hp⟩
    rcases mem_addRow.1 hm with hm | hm
    · exact Or.inl ⟨r, hr, hm, hp⟩
    · subst hm; exact Or.inr ⟨rfl, rfl, r, hr, rfl, hp⟩
  · rintro (⟨r, hr, hm, hp⟩ | ⟨rfl, rfl, r, hr, hid, hp⟩)
    · exact ⟨r, hr, mem_addRow.2 (Or.inl hm), hp⟩
    · exact ⟨r, hr, mem_addRow.2 (Or.inr (by rw [hid])), hp⟩

theorem mem_effective_leave {t : Tables} {x : Membership} {s : Uuid} {u : String} {p : Permission} :
    p ∈ { t with
        memberships := t.memberships.filter (· ≠ x)
        membershipRoles := t.membershipRoles.filter (·.membership ≠ x) }.effective s u ↔
      p ∈ t.effective s u ∧ (⟨s, u⟩ : Membership) ≠ x := by
  simp only [mem_effective]
  refine ⟨?_, ?_⟩
  · rintro ⟨r, hr, hm, hp⟩
    obtain ⟨hm, hne⟩ := List.mem_filter.1 hm
    exact ⟨⟨r, hr, hm, hp⟩, of_decide_eq_true hne⟩
  · rintro ⟨⟨r, hr, hm, hp⟩, hne⟩
    exact ⟨r, hr, List.mem_filter.2 ⟨hm, decide_eq_true hne⟩, hp⟩

/-- no stored row names a UUID that has not been drawn -/
theorem roleId_lt_drawn {t : Tables} (hschema : Schema t) {m : MembershipRole} (hm : m ∈ t.membershipRoles) :
    m.roleId < t.drawn := by
  obtain ⟨r, hr, hid⟩ := List.mem_map.1 (hschema.membershipRolesRoleFk m hm)
  exact hid ▸ hschema.rolesDrawn r hr

/-! ## Gaining a permission -/

/-- the ways a member of `s` can gain permission `p` through one request -/
inductive Gain (t : Tables) (s : Uuid) (u : String) (p : Permission) : Request → Prop where
  | founded (name : Option String) (hs : s = t.drawn) : Gain t s u p (.createServer name u)
  | joined (hs : t.existsServer s) (hm : (⟨s, u⟩ : Membership) ∉ t.memberships) (r : Role)
    (hr : t.findRoleByName s "@everyone" = some r) (hp : p ∈ r.permissions) : Gain t s u p (.joinServer s u)
  | assigned (r : Role) (requester : String) (hr : t.findRole r.id = some r) (hp : p ∈ r.permissions)
    (hauth : (∃ x, t.findServer s = some x ∧ x.ownerId = requester) ∨ Permission.manage ∈ t.effective s requester) :
    Gain t s u p (.assignRole s u r.id requester)

theorem join_not_member {t t' : Tables} {s : Uuid} {u : String} (he : Effect t (.joinServer s u) t') :
    (⟨s, u⟩ : Membership) ∉ t.memberships := by
  cases he with
  | joinServer _ _ _ _ hm => exact hm
  | joinNoRole _ _ _ hm => exact hm

theorem joined_member {t t' : Tables} {s : Uuid} {u : String} (he : Effect t (.joinServer s u) t') :
    (⟨s, u⟩ : Membership) ∈ t'.memberships := by
  cases he with
  | joinServer => exact mem_snoc.2 (Or.inr rfl)
  | joinNoRole => exact mem_snoc.2 (Or.inr rfl)

theorem founder_owns {t t' : Tables} {name : Option String} {o : String} (he : Effect t (.createServer name o) t') :
    ∃ x ∈ t'.servers, x.id = t.drawn ∧ x.ownerId = o := by
  cases he
  exact ⟨_, List.mem_append_right _ (List.mem_singleton_self _), rfl, rfl⟩

/-- whoever joins has exactly the permissions of the server's @everyone role -/
theorem effect_join {db : Db} {t' : Tables} (hinv : Inv db.toTables) {s : Uuid} {u : String}
    (he : Effect db.toTables (.joinServer s u) t') :
    ∃ r, t'.findRoleByName s "@everyone" = some r ∧ r.permissions = everyonePermissions ∧
      t'.effective s u = r.permissions := by
  cases he with
  | joinServer _ _ r hs hm hr =>
    obtain ⟨x, hx, rfl, -⟩ := Tables.existsServer_iff.1 hs
    obtain ⟨r', hr', -, -, hperm, hfind, -⟩ := everyone_unique hinv hx
    obtain rfl : r = r' := Option.some.inj (hr.symm.trans hfind)
    refine ⟨r, hr, hperm, ?_⟩
    ext p
    apply Iff.trans (mem_effective_assign (t := { db.toTables with memberships := db.memberships ++ [⟨x.id, u⟩] }))
    refine ⟨?_, ?_⟩
    · rintro (hold | ⟨-, -, r', hr', hid, hp⟩)
      · exact absurd (membership_of_effective db.schema hold) hm
      · exact eq_of_key db.schema.rolesPk hr' (Tables.findRoleByName_some hr).1 hid ▸ hp
    · exact fun hp => Or.inr ⟨rfl, rfl, r, (Tables.findRoleByName_some hr).1, rfl, hp⟩
  | joinNoRole _ _ hs hm hr =>
    obtain ⟨x, hx, rfl, -⟩ := Tables.existsServer_iff.1 hs
    obtain ⟨r, -, -, -, -, hfind, -⟩ := everyone_unique hinv hx
    rw [hr] at hfind
    cases hfind

/-- **Gain.** A permission that a committed request adds was added by founding the server, by joining it, or by an
authorized assignment of a role that has it. -/
theorem effect_gain {t t' : Tables} {q : Request} (hschema : Schema t) (he : Effect t q t') {s : Uuid} {u : String}
    {p : Permission} (h0 : p ∉ t.effective s u) (h1 : p ∈ t'.effective s u) : Gain t s u p q := by
  cases he with
  | createServer name o =>
    -- the new roles are assigned to nobody; the only new assignment is the owner's
    have hfresh : ∀ d, t.drawn ≤ d → ∀ m ∈ t.membershipRoles, m.roleId ≠ d := by
      intro d hd m hm e
      exact absurd (roleId_lt_drawn hschema hm) (by rw [e]; exact Nat.not_lt.2 hd)
    have hroles : ({ t with
        roles := t.roles ++ [⟨t.drawn + 1, t.drawn, "@everyone", everyonePermissions⟩] ++
          [⟨t.drawn + 2, t.drawn, "@owner", ownerPermissions⟩] } : Tables).effective s u = t.effective s u :=
      (effective_addRole (t := { t with
        roles := t.roles ++ [⟨t.drawn + 1, t.drawn, "@everyone", everyonePermissions⟩] }) (d := t.drawn)
          (hfresh _ (Nat.le_add_right _ _)) s u).trans (effective_addRole (hfresh _ (Nat.le_add_right _ _)) s u)
    rcases mem_effective_assign (t := { t with
        roles := t.roles ++ [⟨t.drawn + 1, t.drawn, "@everyone", everyonePermissions⟩] ++
          [⟨t.drawn + 2, t.drawn, "@owner", ownerPermissions⟩] }).1 h1 with h1 | ⟨rfl, rfl, -⟩
    · exact absurd (hroles ▸ h1) h0
    · exact .founded _ rfl
  | updateServer | deleteServer | createChannel | updateChannel | deleteChannel => exact absurd h1 h0
  | createRole sid name perms hs =>
    rw [effective_addRole fun m hm => Nat.ne_of_lt (roleId_lt_drawn hschema hm)] at h1
    exact absurd h1 h0
  | assignRole x r v q hs hm hr hrs hauth =>
    rcases mem_effective_assign.1 h1 with h1 | ⟨rfl, rfl, r', hr', hid, hp⟩
    · exact absurd h1 h0
    · have : r' = r := eq_of_key hschema.rolesPk hr' (Tables.findRole_some hr).1 hid
      exact .assigned r q hr (this ▸ hp) (hauth.imp (fun ho => ⟨x, hs, ho⟩) id)
  | joinServer sid v r hs hm hr =>
    rcases mem_effective_assign (t := { t with memberships := _ }).1 h1 with h1 | ⟨rfl, rfl, r', hr', hid, hp⟩
    · exact absurd h1 h0
    · have : r' = r := eq_of_key hschema.rolesPk hr' (Tables.findRoleByName_some hr).1 hid
      exact .joined hs hm r hr (this ▸ hp)
  | joinNoRole => exact absurd h1 h0
  | leaveServer x v hs ho hm => exact absurd (mem_effective_leave.1 h1).1 h0

/-- the target of an assignment, a member, has the permissions of the role from then on -/
theorem effect_assign {t t' : Tables} (hschema : Schema t) {s roleId : Uuid} {u requester : String}
    (he : Effect t (.assignRole s u roleId requester) t') :
    (⟨s, u⟩ : Membership) ∈ t.memberships ∧ (⟨s, u⟩ : Membership) ∈ t'.memberships ∧
      ∃ r ∈ t.roles, r.id = roleId ∧ t'.effective s u = t.effective s u ∪ r.permissions := by
  cases he with
  | assignRole x r _ _ _ hm hr =>
    have hmem := (Tables.findRole_some hr).1
    refine ⟨hm, hm, r, hmem, rfl, ?_⟩
    ext p
    rw [mem_effective_assign, Finset.mem_union]
    refine or_congr_right ⟨?_, fun hp => ⟨rfl, rfl, r, hmem, rfl, hp⟩⟩
    rintro ⟨-, -, r', hr', hid, hp⟩
    exact eq_of_key hschema.rolesPk hr' hmem hid ▸ hp

/-! ## Whose permissions a request can change -/

/-- the request assigns to, or makes a member of, this user on this server -/
def Request.Touches (q : Request) (s : Uuid) (u : String) : Prop :=
  match q with
  | .assignRole serverId targetUserId _ _ => serverId = s ∧ targetUserId = u
  | .joinServer serverId userId => serverId = s ∧ userId = u
  | _ => False

/-- a new membership is of a new server, or of the user who joined -/
theorem effect_member {t t' : Tables} {q : Request} (he : Effect t q t') {s : Uuid} {u : String}
    (h : (⟨s, u⟩ : Membership) ∈ t'.memberships) :
    (⟨s, u⟩ : Membership) ∈ t.memberships ∨ s = t.drawn ∨ q.Touches s u := by
  cases he with
  | createServer =>
    rcases mem_addRow.1 h with h | h
    · exact Or.inl h
    · exact Or.inr (Or.inl (Membership.mk.inj h).1)
  | joinServer | joinNoRole =>
    rcases mem_snoc.1 h with h | h
    · exact Or.inl h
    · obtain ⟨rfl, rfl⟩ := Membership.mk.inj h
      exact Or.inr (Or.inr ⟨rfl, rfl⟩)
  | leaveServer => exact Or.inl (List.mem_filter.1 h).1
  | _ => exact Or.inl h

/-- whoever is still a member has lost no permission -/
theorem effect_keeps {t t' : Tables} {q : Request} (he : Effect t q t') {s : Uuid} {u : String}
    (h : (⟨s, u⟩ : Membership) ∈ t'.memberships) {p : Permission} (hp : p ∈ t.effective s u) :
    p ∈ t'.effective s u := by
  obtain ⟨r, hr, hm, hp⟩ := mem_effective.1 hp
  refine mem_effective.2 ⟨r, ?_, ?_, hp⟩
  · cases he with
    | createServer => exact mem_snoc.2 (Or.inl (mem_snoc.2 (Or.inl hr)))
    | createRole => exact mem_snoc.2 (Or.inl hr)
    | _ => exact hr
  · cases he with
    | createServer | assignRole | joinServer => exact mem_addRow.2 (Or.inl hm)
    | leaveServer => exact List.mem_filter.2 ⟨hm, (List.mem_filter.1 h).2⟩
    | _ => exact hm

/-- **Frame.** A member whom a request does not touch, on a server that already was, was a member before with the same
permissions. -/
theorem effect_untouched {t t' : Tables} {q : Request} (hschema : Schema t) (he : Effect t q t') {s : Uuid}
    {u : String} (h : (⟨s, u⟩ : Membership) ∈ t'.memberships) (hs : s ≠ t.drawn) (hq : ¬ q.Touches s u) :
    (⟨s, u⟩ : Membership) ∈ t.memberships ∧ t'.effective s u = t.effective s u := by
  refine ⟨((effect_member he h).resolve_right fun hor => hor.elim hs hq), ?_⟩
  ext p
  refine ⟨?_, effect_keeps he h⟩
  intro hp
  by_contra h0
  cases effect_gain hschema he h0 hp with
  | founded _ hdrawn => exact hs hdrawn
  | joined => exact hq ⟨rfl, rfl⟩
  | assigned => exact hq ⟨rfl, rfl⟩

end Concordia.Servers
