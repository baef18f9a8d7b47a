/-
The `roleLookup` cache (`service/PermCacheService.java`, `config/CacheConfig.java`). Entries are keyed by server and
user, live 60 seconds after they are written, may be evicted early (`maximumSize`), and no write operation of the
service invalidates them.

- `Quiet`: a committed assignment or join that meets no stale entry.
- `coherent_step`: from a coherent state, a step leaves a coherent state exactly when it is quiet.
- `cache_coherent_iff`: over whole runs, CheckPerm answers as without the cache exactly when every step is quiet.
- `stale_after_assign`: MANAGE assigned within a minute of a CheckPerm is refused until the entry expires.
-/
import Concordia.Lib.ExpiringCache
import Concordia.Servers.CheckPerm
import Concordia.Servers.Effective

namespace Concordia.Servers

open Concordia.Lib ExpiringCache

/-! ## The service with its cache -/

/-- `expireAfterWrite(60, TimeUnit.SECONDS)`, in nanoseconds -/
def roleLookupTtl : ℕ := 60 * 10 ^ 9

structure Svc where
  db : Db
  roleLookup : ExpiringCache (Uuid × String) (Finset Permission)
  /-- in nanoseconds -/
  now : ℕ

inductive Call where
  | request (q : Request)
  | checkPerm (userId : String) (serverId : Uuid) (permission : Permission)
  | evict (serverId : Uuid) (userId : String)
  | elapse (nanos : ℕ)
deriving DecidableEq

namespace Svc

def init : Svc := ⟨Db.empty, ExpiringCache.empty, 0⟩

/-- the entry of a key that is alive -/
def cached (s : Svc) (serverId : Uuid) (userId : String) : Option (Finset Permission) :=
  lookup roleLookupTtl s.now s.roleLookup (serverId, userId)

/-- `PermCacheService.getPermissionsForUser`, with the cache it leaves -/
def getPermissionsForUser (s : Svc) (serverId : Uuid) (userId : String) :
    Finset Permission × ExpiringCache (Uuid × String) (Finset Permission) :=
  readThrough roleLookupTtl s.now s.roleLookup (serverId, userId) (s.db.effective serverId userId)

/-- what `PermissionService.checkPerm` answers now -/
def answer (s : Svc) (userId : String) (serverId : Uuid) (permission : Permission) : CheckPermResponse :=
  permissionCheck s.db (fun sid u => (s.getPermissionsForUser sid u).1) userId serverId permission

/-- what it would answer without the cache -/
def uncached (s : Svc) (userId : String) (serverId : Uuid) (permission : Permission) : CheckPermResponse :=
  permissionCheck s.db s.db.effective userId serverId permission

def step (s : Svc) : Call → Svc
  | .request q => { s with db := Servers.step s.db q }
  | .checkPerm userId serverId _ =>
    -- the cache is consulted only for members
    if s.db.existsMembership serverId userId then { s with roleLookup := (s.getPermissionsForUser serverId userId).2 }
    else s
  | .evict serverId userId => { s with roleLookup := evict s.roleLookup (serverId, userId) }
  | .elapse nanos => { s with now := s.now + nanos }

/-- every answer is the uncached one -/
def Coherent (s : Svc) : Prop := ∀ u sid p, s.answer u sid p = s.uncached u sid p

/-- a committed assignment adds no permission that a live entry of its target lacks, and whoever joins has no live
entry with other permissions than @everyone's -/
def Quiet (s : Svc) : Call → Prop
  | .request (.assignRole serverId targetUserId roleId requesterId) =>
    Succeeds s.db (.assignRole serverId targetUserId roleId requesterId) →
      ∀ v ∈ s.cached serverId targetUserId, ∀ r ∈ s.db.roles, r.id = roleId → r.permissions ⊆ v
  | .request (.joinServer serverId userId) =>
    Succeeds s.db (.joinServer serverId userId) → ∀ v ∈ s.cached serverId userId, v = everyonePermissions
  | _ => True

/-! ## Coherence is agreement on members -/

/-- the member that a cache key names -/
def Member (db : Db) (k : Uuid × String) : Prop := (⟨k.1, k.2⟩ : Membership) ∈ db.memberships

/-- the entries of members agree with the database -/
def Agrees (s : Svc) : Prop :=
  AgreesOn roleLookupTtl s.now s.roleLookup (Member s.db) fun k => s.db.effective k.1 k.2

theorem permissionCheck_congr {db : Db} {f g : Uuid → String → Finset Permission} {u : String} {sid : Uuid}
    (h : (⟨sid, u⟩ : Membership) ∈ db.memberships → f sid u = g sid u) (p : Permission) :
    permissionCheck db f u sid p = permissionCheck db g u sid p := by
  unfold permissionCheck
  by_cases hm : db.existsMembership sid u = true
  · rw [h (Tables.existsMembership_iff.1 hm)]
  · simp [hm]

theorem coherent_iff_agrees (s : Svc) : s.Coherent ↔ s.Agrees := by
  refine Iff.trans ?_ agreesOn_iff_readThrough.symm
  refine ⟨?_, ?_⟩
  · rintro h ⟨sid, u⟩ hm
    ext p
    -- an answer shows whether a permission is in the set the cache gives
    have hp := h u sid p
    have := congrArg CheckPermResponse.allowed hp
    have hiff := (Bool.eq_iff_iff.1 this)
    rw [answer, uncached, permissionCheck_allowed, permissionCheck_allowed] at hiff
    exact (and_congr_right_iff.1 hiff) hm
  · exact fun h u sid p => permissionCheck_congr (fun hm => h (sid, u) hm) p

/-! ## Steps -/

structure Inv (s : Svc) : Prop where
  store : Servers.Inv s.db.toTables
  /-- only members' permissions are ever cached, and memberships are of existing servers -/
  known : ∀ k v, lookup roleLookupTtl s.now s.roleLookup k = some v → ∃ x ∈ s.db.servers, x.id = k.1

theorem inv_init : init.Inv := ⟨inv_empty, fun k v h => by simp [init, ExpiringCache.empty, lookup] at h⟩

theorem member_known {db : Db} {k : Uuid × String} (h : Member db k) : ∃ x ∈ db.servers, x.id = k.1 :=
  List.mem_map.1 (db.schema.membershipsFk _ h)

theorem inv_step (s : Svc) (o : Call) (h : s.Inv) : (s.step o).Inv := by
  cases o with
  | request q =>
    refine ⟨step_inv s.db q h.store, ?_⟩
    intro k v hv
    obtain ⟨x, hx, hid⟩ := h.known k v hv
    obtain ⟨x', hx', hid', -⟩ := step_kept s.db q x hx
    exact ⟨x', hx', hid'.trans hid⟩
  | checkPerm u sid p =>
    simp only [step]
    split_ifs with hm
    · refine ⟨h.store, ?_⟩
      intro k v hv
      rcases lookup_readThrough hv with ⟨rfl, -⟩ | hv
      · exact member_known (Tables.existsMembership_iff.1 hm)
      · exact h.known k v hv
    · exact h
  | evict sid u => exact ⟨h.store, fun k v hv => h.known k v (lookup_evict hv)⟩
  | elapse n => exact ⟨h.store, fun k v hv => h.known k v (lookup_of_later (Nat.le_add_right _ _) hv)⟩

theorem agrees_request {s : Svc} (h : s.Inv) (ha : s.Agrees) {q : Request} (hok : Succeeds s.db q) :
    (s.step (.request q)).Agrees ↔ ∀ sid u, (⟨sid, u⟩ : Membership) ∈ (Servers.step s.db q).memberships →
      q.Touches sid u → ∀ v ∈ s.cached sid u, v = (Servers.step s.db q).effective sid u := by
  have hframe := fun k (hk : Member (Servers.step s.db q) k) (hd : ¬ (k.1 = s.db.drawn ∨ q.Touches k.1 k.2)) =>
    effect_untouched s.db.schema hok.effect hk (fun e => hd (Or.inl e)) fun ht => hd (Or.inr ht)
  apply Iff.trans (ha.change_iff hframe)
  refine ⟨?_, ?_⟩
  · exact fun h' sid u hm ht v hv => h' (sid, u) hm (Or.inr ht) v hv
  · rintro h' ⟨sid, u⟩ hm (hnew | ht) v hv
    · -- nothing is cached for a server that did not exist
      obtain ⟨x, hx, hid⟩ := h.known _ _ hv
      exact absurd (hid.trans hnew) (Nat.ne_of_lt (s.db.schema.serversDrawn x hx))
    · exact h' sid u hm ht v hv

/-- a request leaves the cache in agreement exactly when it is quiet -/
theorem agrees_request_iff_quiet {s : Svc} (h : s.Inv) (ha : s.Agrees) (q : Request) :
    (s.step (.request q)).Agrees ↔ s.Quiet (.request q) := by
  by_cases hok : Succeeds s.db q
  · refine (agrees_request h ha hok).trans ?_
    have he := hok.effect
    cases q with
    | assignRole sid u roleId requester =>
      obtain ⟨hm, hm', r, hr, hid, heff⟩ := effect_assign s.db.schema he
      refine ⟨?_, ?_⟩
      · intro h' _ v hv r' hr' hid'
        have : r' = r := eq_of_key s.db.schema.rolesPk hr' hr (hid'.trans hid.symm)
        rw [h' sid u hm' ⟨rfl, rfl⟩ v hv, heff, this]
        exact Finset.subset_union_right
      · rintro h' _ _ _ ⟨rfl, rfl⟩ v hv
        have hold : v = s.db.effective sid u := ha (sid, u) hm v hv
        rw [heff, ← hold]
        exact (Finset.union_eq_left.2 (h' hok v hv r hr hid)).symm
    | joinServer sid u =>
      obtain ⟨r, -, hperm, heff⟩ := effect_join h.store he
      refine ⟨?_, ?_⟩
      · intro h' _ v hv
        rw [h' sid u (joined_member he) ⟨rfl, rfl⟩ v hv, heff, hperm]
      · rintro h' _ _ _ ⟨rfl, rfl⟩ v hv
        rw [h' hok v hv, heff, hperm]
    | _ => exact ⟨fun _ => trivial, fun _ _ _ _ ht => ht.elim⟩
  · -- a failed request changes nothing and is quiet
    have hsame : Servers.step s.db q = s.db := ((step_cases s.db q).resolve_right fun h => hok h.1).2
    refine ⟨?_, ?_⟩
    · intro _
      cases q with
      | assignRole | joinServer => exact fun hs => absurd hs hok
      | _ => trivial
    · intro _
      simpa only [Agrees, step, hsame] using ha

/-- **One step.** A step from a coherent state leaves a coherent state exactly when it is quiet. -/
theorem coherent_step {s : Svc} (h : s.Inv) (hc : s.Coherent) (o : Call) : (s.step o).Coherent ↔ s.Quiet o := by
  rw [coherent_iff_agrees] at hc ⊢
  cases o with
  | request q => exact agrees_request_iff_quiet h hc q
  | checkPerm u sid p =>
    refine ⟨fun _ => trivial, ?_⟩
    intro _
    simp only [step]
    split_ifs with hm
    · exact hc.readThrough (sid, u)
    · exact hc
  | evict sid u => exact ⟨fun _ => trivial, fun _ => hc.evict (sid, u)⟩
  | elapse n => exact ⟨fun _ => trivial, fun _ => hc.later (Nat.le_add_right _ _)⟩

/-! ## Runs -/

/-- the service after a run from the empty database and the empty cache -/
def after (calls : List Call) : Svc := run step init calls

theorem after_inv (calls : List Call) : (after calls).Inv := run_inv' inv_step inv_init calls

theorem coherent_init : init.Coherent := by
  rw [coherent_iff_agrees]
  intro k hk v hv
  simp [init, ExpiringCache.empty, lookup] at hv

theorem coherent_along {calls : List Call} (h : Along step Quiet init calls) : (after calls).Coherent := by
  have hboth : (after calls).Inv ∧ (after calls).Coherent :=
    run_inv (I := fun s => s.Inv ∧ s.Coherent)
      (fun s o hI hq => ⟨inv_step s o hI.1, (coherent_step hI.1 hI.2 o).2 hq⟩) ⟨inv_init, coherent_init⟩ h
  exact hboth.2

/-- **Permission-cache coherence.** Over a run, CheckPerm answers at every moment as it would without the cache exactly
when every step of the run is quiet; the same then holds of every CheckPerm request that arrives. -/
theorem cache_coherent_iff (calls : List Call) :
    ((∀ a b, calls = a ++ b → ∀ u sid p, (after a).answer u sid p = (after a).uncached u sid p) ↔
      Along step Quiet init calls) ∧
    (Along step Quiet init calls → ∀ a b, calls = a ++ b → ∀ request : CheckPermRequest,
      checkPerm (after a).db (fun sid u => ((after a).getPermissionsForUser sid u).1) request =
        checkPerm (after a).db (after a).db.effective request) := by
  have hprefix : Along step Quiet init calls → ∀ a b, calls = a ++ b → (after a).Coherent := by
    rintro h a b rfl
    exact coherent_along (along_append.1 h).1
  refine ⟨⟨?_, hprefix⟩, ?_⟩
  · intro h
    rw [along_iff_split]
    rintro a o b rfl
    -- the states before and after the step are both coherent
    refine (coherent_step (after_inv a) (h a (o :: b) rfl) o).1 ?_
    have := h (a ++ [o]) b (by simp)
    rwa [after, run_snoc] at this
  · intro h a b hab request
    unfold checkPerm
    split
    · exact hprefix h a b hab _ _ _
    · rfl

end Svc

/-- alice makes bob a manager half a minute after a CheckPerm cached bob's permissions -/
theorem stale_after_assign :
    let calls : List Call := [.request (.createServer (some "guild") "alice"), .request (.joinServer 0 "bob"),
      .request (.createRole 0 (some "mod") (some {.manage})), .checkPerm "bob" 0 .manage, .elapse (30 * 10 ^ 9),
      .request (.assignRole 0 "bob" 3 "alice")]
    ¬ ∀ u sid p, (Svc.after calls).answer u sid p = (Svc.after calls).uncached u sid p := by
  intro calls h
  exact absurd (h "bob" 0 .manage) (by decide)

end Concordia.Servers
