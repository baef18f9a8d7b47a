/-
Confinement of authority on a server, over every run of requests from the empty database.

`createRole` checks nothing about its caller, so anyone may define a role with MANAGE. Authority is confined because a
role is worth nothing until it is assigned, and only `createServer` (to the owner), `joinServer` (the @everyone role)
and an authorized `assignRole` assign one.

- `extra_permission_assigned`: a permission beyond @everyone goes back to an authorized assignment made since the last
  join.
- `manage_linked`: everyone who holds MANAGE is linked to the owner by a finite chain of such assignments.
- `join_effective`: whoever joins, for the first time or again, has exactly the @everyone permissions.
- `createRole_effective`: creating a role changes nobody's permissions.
- `authority_confined`: the four together.
-/
import Concordia.Lib.Delegation
import Concordia.Servers.Effective

namespace Concordia.Servers

open Concordia.Lib

/-- the requester may assign roles on `s`: it owns the server or holds MANAGE on it -/
def Authorized (t : Tables) (s : Uuid) (requester : String) : Prop :=
  (∃ x ∈ t.servers, x.id = s ∧ x.ownerId = requester) ∨ Permission.manage ∈ t.effective s requester

/-- the request assigns `u` on `s` a role that contains `p`, and commits -/
def Grants (s : Uuid) (p : Permission) (a : List Request) (q : Request) (requester u : String) : Prop :=
  ∃ roleId, q = .assignRole s u roleId requester ∧ Succeeds (reached a) q ∧
    ∃ r ∈ (reached a).roles, r.id = roleId ∧ p ∈ r.permissions

theorem reached_snoc (a : List Request) (q : Request) : reached (a ++ [q]) = step (reached a) q := run_snoc ..

theorem reached_append (a b : List Request) : reached (a ++ b) = run step (reached a) b := run_append ..

/-- a server's owner never changes -/
theorem owner_unique {a b : List Request} {s s' : Server} (hs : s ∈ (reached (a ++ b)).servers)
    (hs' : s' ∈ (reached a).servers) (hid : s'.id = s.id) : s'.ownerId = s.ownerId := by
  obtain ⟨x, hx, h1, h2⟩ : ∃ x ∈ (reached (a ++ b)).servers, x.id = s'.id ∧ x.ownerId = s'.ownerId := by
    rw [reached_append]; exact run_kept _ b s' hs'
  have : x = s := eq_of_key (reached (a ++ b)).schema.serversPk hx hs (h1.trans hid)
  rw [← this, h2]

/-! ## Gains in a history -/

/-- the request that adds a permission of a non-owner beyond @everyone is an authorized assignment of a role with it -/
theorem gain_granted {a : List Request} {q : Request} {b : List Request} {s : Server}
    (hs : s ∈ (reached (a ++ q :: b)).servers) {u : String} (hu : u ≠ s.ownerId) {p : Permission}
    (hp : p ∉ everyonePermissions) (h0 : p ∉ (reached a).effective s.id u)
    (h1 : p ∈ (reached (a ++ [q])).effective s.id u) :
    ∃ requester, Grants s.id p a q requester u ∧ Authorized (reached a).toTables s.id requester := by
  rw [reached_snoc] at h1
  rcases step_cases (reached a) q with ⟨-, he⟩ | ⟨hok, he⟩
  · rw [he] at h1; exact absurd h1 h0
  · cases effect_gain (reached a).schema he h0 h1 with
    | founded name hid =>
      -- the founder owns the new server for good
      obtain ⟨x, hx, hxid, hxo⟩ := founder_owns he
      rw [← reached_snoc] at hx
      exact absurd (hxo ▸ owner_unique (b := b) (by simpa using hs) hx (hxid.trans hid.symm)) hu
    | joined hs' hm r hr hp' =>
      obtain ⟨x, hx, hxid, -⟩ := Tables.existsServer_iff.1 hs'
      obtain ⟨r', -, -, -, hperm, hfind, -⟩ := everyone_unique (reached_inv a) hx
      rw [hxid, hr] at hfind
      cases hfind
      exact absurd (hperm ▸ hp') hp
    | assigned r requester hr hp' hauth =>
      refine ⟨requester, ⟨r.id, rfl, hok, r, (Tables.findRole_some hr).1, rfl, hp'⟩, ?_⟩
      rcases hauth with ⟨x, hx, ho⟩ | hman
      · obtain ⟨hxm, hxid, -⟩ := Tables.findServer_some hx
        exact Or.inl ⟨x, hxm, hxid, ho⟩
      · exact Or.inr hman

/-- **(a)** A permission beyond @everyone goes back to an authorized assignment made since the last join. -/
theorem extra_permission_assigned {ops : List Request} {s : Server} (hs : s ∈ (reached ops).servers) {u : String}
    (hu : u ≠ s.ownerId) {p : Permission} (hp : p ∉ everyonePermissions) (h : p ∈ (reached ops).effective s.id u) :
    ∃ a q b requester, ops = a ++ q :: b ∧ Grants s.id p a q requester u ∧
      Authorized (reached a).toTables s.id requester ∧
      ∀ c d, b = c ++ Request.joinServer s.id u :: d → ¬ Succeeds (reached (a ++ q :: c)) (.joinServer s.id u) := by
  obtain ⟨a, q, b, rfl, h0, hsince⟩ :=
    onset (P := fun db : Db => p ∈ db.effective s.id u) (by simp [Db.empty, mem_effective]) h
  obtain ⟨requester, hg, hauth⟩ := gain_granted hs hu hp h0 (hsince [] b rfl)
  refine ⟨a, q, b, requester, rfl, hg, hauth, ?_⟩
  intro c d hcd hjoin
  -- the permission was held when the join came, so the joiner was a member and the join failed
  have hheld : p ∈ (reached (a ++ q :: c)).effective s.id u := hsince c _ hcd
  exact join_not_member hjoin.effect (membership_of_effective (reached (a ++ q :: c)).schema hheld)

/-- **(b)** Whoever holds MANAGE is linked to the owner by a finite chain of successful assignments. -/
theorem manage_linked {ops : List Request} {s : Server} (hs : s ∈ (reached ops).servers) {a b : List Request}
    (hab : ops = a ++ b) {u : String} (h : Permission.manage ∈ (reached a).effective s.id u) :
    Linked (· = s.ownerId) (Grants s.id .manage) a u := by
  refine linked_of_holds (H := fun h u => (∃ b, ops = h ++ b) ∧ .manage ∈ (reached h).effective s.id u)
    ?_ ?_ a u ⟨⟨b, hab⟩, h⟩
  · rintro u ⟨-, h⟩
    simp [reached, Db.empty, mem_effective] at h
  · rintro h q u ⟨⟨b, rfl⟩, h1⟩
    have hs : s ∈ (reached (h ++ q :: b)).servers := by simpa using hs
    by_cases h0 : Permission.manage ∈ (reached h).effective s.id u
    · exact Or.inl ⟨⟨q :: b, by simp⟩, h0⟩
    by_cases hu : u = s.ownerId
    · exact Or.inr (Or.inl hu)
    obtain ⟨g, hg, hauth⟩ := gain_granted hs hu (by decide) h0 h1
    refine Or.inr (Or.inr ⟨g, hg, hauth.imp ?_ fun hman => ⟨⟨q :: b, by simp⟩, hman⟩⟩)
    rintro ⟨x, hx, hxid, rfl⟩
    exact owner_unique hs hx hxid

/-- **(c)** Whoever joins, for the first time or again, has exactly the permissions of @everyone. -/
theorem join_effective {a : List Request} {s : Uuid} {u : String} (h : Succeeds (reached a) (.joinServer s u)) :
    ∃ r, (reached (a ++ [Request.joinServer s u])).findRoleByName s "@everyone" = some r ∧
      r.permissions = everyonePermissions ∧
      (reached (a ++ [Request.joinServer s u])).effective s u = r.permissions := by
  rw [reached_snoc]
  exact effect_join (reached_inv a) h.effect

/-- **(d)** Creating a role changes nobody's effective permissions. -/
theorem createRole_effective (db : Db) (serverId : Uuid) (name : Option String)
    (permissions : Option (Finset Permission)) (s : Uuid) (u : String) :
    (step db (.createRole serverId name permissions)).effective s u = db.effective s u := by
  rcases step_cases db (.createRole serverId name permissions) with ⟨-, he⟩ | ⟨-, he⟩
  · rw [he]
  · generalize (step db (.createRole serverId name permissions)).toTables = t' at he
    cases he with
    | createRole =>
      exact effective_addRole (fun m hm => Nat.ne_of_lt (roleId_lt_drawn db.schema hm)) s u

/-- **Authority confinement.** In every state reached from the empty database, for every server `s`:
(a) a non-owner's permission that @everyone lacks comes from an authorized assignment since the last join;
(b) every non-owner who ever held MANAGE is linked to the owner by a finite chain of successful assignments;
(c) leaving and joining again leaves exactly the @everyone permissions;
(d) `createRole` changes nobody's effective permissions. -/
theorem authority_confined (ops : List Request) :
    (∀ s ∈ (reached ops).servers, ∀ u, u ≠ s.ownerId →
      ∀ everyone, (reached ops).findRoleByName s.id "@everyone" = some everyone →
      ∀ p ∈ (reached ops).effective s.id u, p ∉ everyone.permissions →
      ∃ a q b requester, ops = a ++ q :: b ∧ Grants s.id p a q requester u ∧
        Authorized (reached a).toTables s.id requester ∧
        ∀ c d, b = c ++ Request.joinServer s.id u :: d → ¬ Succeeds (reached (a ++ q :: c)) (.joinServer s.id u)) ∧
    (∀ s ∈ (reached ops).servers, ∀ a b, ops = a ++ b → ∀ u, u ≠ s.ownerId →
      .manage ∈ (reached a).effective s.id u → Linked (· = s.ownerId) (Grants s.id .manage) a u) ∧
    (∀ s u mid, Succeeds (reached ops) (.leaveServer s u) →
      Succeeds (reached (ops ++ Request.leaveServer s u :: mid)) (.joinServer s u) →
      ∃ everyone, (reached (ops ++ Request.leaveServer s u :: mid ++ [Request.joinServer s u])).findRoleByName s "@everyone" =
          some everyone ∧
        (reached (ops ++ Request.leaveServer s u :: mid ++ [Request.joinServer s u])).effective s u = everyone.permissions) ∧
    ∀ serverId name permissions s u,
      (reached (ops ++ [Request.createRole serverId name permissions])).effective s u = (reached ops).effective s u := by
  refine ⟨?_, fun s hs a b hab u _ h => manage_linked hs hab h, ?_, ?_⟩
  · intro s hs u hu everyone he p hp hne
    obtain ⟨r, -, -, -, hperm, hfind, -⟩ := everyone_unique (reached_inv ops) hs
    obtain rfl : everyone = r := Option.some.inj (he.symm.trans hfind)
    exact extra_permission_assigned hs hu (hperm ▸ hne) hp
  · intro s u mid _ hjoin
    obtain ⟨r, hr, -, heff⟩ := join_effective hjoin
    exact ⟨r, hr, heff⟩
  · intro serverId name permissions s u
    rw [reached_snoc]; exact createRole_effective _ _ _ _ s u

/-- the owner makes bob a manager, bob makes carol one: carol is linked through bob, and anyone may define the role -/
example :
    let ops : List Request := [.createServer (some "guild") "alice", .joinServer 0 "bob", .joinServer 0 "carol",
      .createRole 0 (some "mod") (some {.manage}), .assignRole 0 "carol" 3 "bob", .assignRole 0 "bob" 3 "alice",
      .assignRole 0 "carol" 3 "bob"]
    .manage ∉ (reached (ops.take 5)).effective 0 "carol" ∧ .manage ∈ (reached ops).effective 0 "carol" := by
  decide

end Concordia.Servers
