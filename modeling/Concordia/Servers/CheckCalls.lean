/-
A CheckPerm call step by step: `PermServiceImpl` resolves the server of the request, `PermissionService` reads the
membership, and `@Cacheable` looks into `roleLookup`, reads the roles if there is no live entry, and puts what it has read
into the cache afterwards. `expireAfterWrite` counts from the put, and anything may happen between two steps.

- `Check`: how far a call has come; `Check.next`: its next step.
- `next_alone`: with nothing between them, the steps are the call of `Concordia.Servers.PermCache`.
-/
import Concordia.Servers.PermCache

namespace Concordia.Servers

open Concordia.Lib

/-- a call, by the server and user it asks about (the key of `roleLookup`) and the permission -/
inductive Check where
  /-- the server is resolved -/
  | named (k : Uuid × String) (p : Permission)
  /-- `existsByServerIdAndUserId` has found the membership -/
  | member (k : Uuid × String) (p : Permission)
  /-- `roleLookup` had no live entry -/
  | missed (k : Uuid × String) (p : Permission)
  /-- `findRolesByUserAndServer` has been read, and nothing put into the cache yet -/
  | read (k : Uuid × String) (p : Permission) (permissions : Finset Permission)
  | answered (allowed : Bool)
deriving DecidableEq

namespace Check

/-- the call comes in -/
def start (db : Db) (request : CheckPermRequest) : Check :=
  match readRequest db request with
  | .ok (serverId, userId, permission) => .named (serverId, userId) permission
  | .error _ => .answered false

def next (s : Svc) : Check → Check × Svc
  | .named k p => (if s.db.existsMembership k.1 k.2 then .member k p else .answered false, s)
  | .member k p =>
    (match s.cached k.1 k.2 with
      | some permissions => .answered (decide (p ∈ permissions))
      | none => .missed k p, s)
  | .missed k p => (.read k p (s.db.effective k.1 k.2), s)
  | .read k p permissions =>
    (.answered (decide (p ∈ permissions)), { s with roleLookup := ExpiringCache.put s.now s.roleLookup k permissions })
  | .answered allowed => (.answered allowed, s)

/-- what a call that is not answered yet asks -/
def asks : Check → Option ((Uuid × String) × Permission)
  | .named k p | .member k p | .missed k p | .read k p _ => some (k, p)
  | .answered _ => none

def answer : Check → Option Bool
  | .answered allowed => some allowed
  | _ => none

/-! ## What a step does -/

theorem next_db (s : Svc) (c : Check) : (c.next s).2.db = s.db := by
  cases c <;> rfl

/-- a call asks what it asked -/
theorem next_asks {s : Svc} {c : Check} {q : (Uuid × String) × Permission} (h : (c.next s).1.asks = some q) :
    c.asks = some q := by
  cases c with
  | named k p =>
    simp only [next] at h
    split_ifs at h
    · exact h
    · cases h
  | member k p =>
    simp only [next] at h
    split at h
    · cases h
    · exact h
  | missed k p => exact h
  | read k p permissions => cases h
  | answered allowed => cases h

theorem start_cases (db : Db) (request : CheckPermRequest) :
    (∃ k p, start db request = .named k p) ∨ start db request = .answered false := by
  unfold start
  split
  · exact .inl ⟨_, _, rfl⟩
  · exact .inr rfl

/-- a call that goes on has found the membership -/
theorem next_named {s : Svc} {k : Uuid × String} {p : Permission} {q : (Uuid × String) × Permission}
    (h : ((named k p).next s).1.asks = some q) : Svc.Member s.db k := by
  simp only [next] at h
  split_ifs at h with hm
  · exact Tables.existsMembership_iff.1 hm
  · cases h

/-- what a call has in hand is what the database had when it read the roles -/
theorem next_read {s : Svc} {c : Check} {k : Uuid × String} {p : Permission} {permissions : Finset Permission}
    (h : (c.next s).1 = .read k p permissions) : c = .missed k p ∧ s.db.effective k.1 k.2 = permissions := by
  cases c with
  | missed k' p' =>
    obtain ⟨rfl, rfl, heff⟩ := read.inj h
    exact ⟨rfl, heff⟩
  | named k' p' =>
    simp only [next] at h
    split_ifs at h
  | member k' p' =>
    simp only [next] at h
    split at h <;> cases h
  | read k' p' v => cases h
  | answered allowed => cases h

/-- only a call that has read the roles writes to the cache -/
theorem next_roleLookup (s : Svc) (c : Check) : (c.next s).2.roleLookup = s.roleLookup ∨
    ∃ k p permissions, c = .read k p permissions ∧
      (c.next s).2.roleLookup = ExpiringCache.put s.now s.roleLookup k permissions := by
  cases c with
  | read k p permissions => exact .inr ⟨k, p, permissions, rfl, rfl⟩
  | _ => exact .inl rfl

/-- a call that allows it has found the permission in a live entry, or has read it -/
theorem next_allowed {s : Svc} {c : Check} (h : (c.next s).1 = .answered true) :
    c = .answered true ∨
      ∃ k p permissions, p ∈ permissions ∧
        ((c = .member k p ∧ s.cached k.1 k.2 = some permissions) ∨ c = .read k p permissions) := by
  cases c with
  | named k p =>
    simp only [next] at h
    split_ifs at h
    cases h
  | member k p =>
    simp only [next] at h
    split at h
    · next permissions hcached =>
      exact .inr ⟨k, p, permissions, of_decide_eq_true (answered.inj h), .inl ⟨rfl, hcached⟩⟩
    · cases h
  | missed k p => cases h
  | read k p permissions => exact .inr ⟨k, p, permissions, of_decide_eq_true (answered.inj h), .inr rfl⟩
  | answered allowed => exact .inl h

/-- **Uninterrupted.** The four steps of a call with nothing between them answer as `checkPerm` does, and leave the service
as one call does. -/
theorem next_alone (s : Svc) (request : CheckPermRequest) :
    (fun x : Check × Svc => x.1.next x.2)^[4] (start s.db request, s) =
      (.answered (checkPerm s.db (fun sid u => (s.getPermissionsForUser sid u).1) request).allowed,
        match readRequest s.db request with
        | .ok (sid, u, p) => s.step (.checkPerm u sid p)
        | .error _ => s) := by
  unfold start checkPerm
  cases readRequest s.db request with
  | error e => rfl
  | ok x =>
    obtain ⟨sid, u, p⟩ := x
    simp only [Function.iterate_succ, Function.iterate_zero, Function.comp_apply, id]
    by_cases hm : s.db.existsMembership sid u = true
    · have hfound : s.getPermissionsForUser sid u =
          ExpiringCache.readThrough roleLookupTtl s.now s.roleLookup (sid, u) (s.db.effective sid u) := rfl
      simp only [permissionCheck, Svc.step, hm, hfound, ExpiringCache.readThrough, if_true]
      cases hcached : ExpiringCache.lookup roleLookupTtl s.now s.roleLookup (sid, u) with
      | some permissions => by_cases hp : p ∈ permissions <;> simp [next, hm, Svc.cached, hcached, hp]
      | none => by_cases hp : p ∈ s.db.effective sid u <;> simp [next, hm, Svc.cached, hcached, hp]
    · simp [next, hm, permissionCheck, Svc.step]

end Check

end Concordia.Servers
