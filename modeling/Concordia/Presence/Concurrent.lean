/-
Concurrent register and deregister requests for one connection (`services/presence/handler.go`), one Redis round trip a
step. `registerSession` and `deregisterSession` of `services/gateway/ws/handler.go` give up after five seconds, and the
next request is then sent while the one before is still under way.

- `step_untouched`: as long as no request acts on a session that another one has written or deleted since it was read,
  Redis holds what the finished requests leave one after another, less the channels that a request in progress cleans.
- `linearizable_untouched`: such a run answers every query as its requests one after another, in the order they finished.
- `overlapping_registers`: two registrations that both read before either writes leave the connection in the channels of
  both, which no order of the two does.

All of it happens at one moment: a time to live of 30 minutes does not run out.
-/
import Concordia.Lib.Linear
import Concordia.Lib.Rows
import Concordia.Presence.Sessions

namespace Concordia.Presence.Concurrent

open Concordia.Lib Pool

/-! ## Model -/

inductive Request where
  | register (userId : String) (subscribedChannels : List String)
  | deregister
deriving DecidableEq, Repr

/-- where a request stands; `seen` is how often the session had been written when it was read -/
inductive Phase where
  /-- before HGETALL -/
  | lookup
  /-- `register`, before the first pipeline -/
  | clean (seen : ℕ) (oldChannels : List String)
  /-- `register`, before the second pipeline; the channels that the first one cleaned, if there was a session -/
  | write (seen : ℕ) (oldChannels : Option (List String))
  /-- `deregister`, before its pipeline -/
  | forget (seen : ℕ) (data : Session)
deriving DecidableEq, Repr

/-- Redis, and how often a session has been written or deleted -/
structure Store where
  redis : Redis
  writes : ℕ

/-- one request of the sequential service -/
def Request.op (k : ConnId) : Request → Op
  | .register userId channels => .register (some ⟨some k, userId, channels⟩)
  | .deregister => .deregister k

variable (now : ℕ) (k : ConnId)

/-- the next round trip of a request, none when it has answered -/
def next (r : Request) (ph : Phase) (s : Store) : Store × Option Phase :=
  match r, ph with
  | .register userId _, .lookup =>
    -- a body that fails the checks is answered 400
    if userId = "" then (s, none)
    else match s.redis.hgetall now k with
      | some prev => (s, some (.clean s.writes prev.subscribedChannels))
      | none => (s, some (.write s.writes none))
  | .register _ _, .clean seen oldChannels =>
    (⟨s.redis.cleanPipe k oldChannels, s.writes⟩, some (.write seen (some oldChannels)))
  | .register userId channels, .write _ _ => (⟨s.redis.writePipe now k userId channels, s.writes + 1⟩, none)
  | .deregister, .lookup =>
    match s.redis.hgetall now k with
    | some data => (s, some (.forget s.writes data))
    | none => (s, none)
  | .deregister, .forget _ data => (⟨s.redis.deletePipe k data, s.writes + 1⟩, none)
  | .register _ _, .forget _ _ | .deregister, .clean _ _ | .deregister, .write _ _ => (s, none)

/-- the requests, before any of them has reached Redis -/
def start (r : Redis) (requests : List Request) : Pool Store Request Phase :=
  Pool.start (fun _ => .lookup) ⟨r, 0⟩ requests

abbrev step := advance (next now k)

/-- what the service answers over a Redis -/
def service (r : Redis) : State := ⟨now, r⟩

/-- the requests one after another -/
def sequential (r : Redis) (order : List Request) : State :=
  run Presence.step (service now r) (order.map (Request.op k))

/-- two states answer every query and every heartbeat alike -/
def SameAnswers (s t : State) : Prop :=
  (∀ channelId, queryByChannel s channelId = queryByChannel t channelId) ∧
    (∀ userId, queryByUser s userId = queryByUser t userId) ∧ ∀ q, status s (.heartbeat q) = status t (.heartbeat q)

/-- what all requests leave when they have finished is what they leave one after another, in some order -/
def Linearizable (r : Redis) (requests : List Request) (schedule : List ℕ) : Prop :=
  (run (step now k) (start r requests) schedule).Finished →
    ∃ order : List Request, order.Perm requests ∧
      SameAnswers (service now (run (step now k) (start r requests) schedule).shared.redis) (sequential now k r order)

/-! ## Requests that act on what they have read -/

/-- how often the session had been written when the request read it -/
def Phase.seen : Phase → Option ℕ
  | .lookup => none
  | .clean seen _ | .write seen _ | .forget seen _ => some seen

/-- a pipeline is executed before any other request has written or deleted the session that this one has read -/
def Untouched (p : Pool Store Request Phase) (i : ℕ) : Prop :=
  ∀ t ∈ p.tasks[i]?, ∀ ph ∈ t.2, ∀ seen ∈ ph.seen, seen = p.shared.writes

instance (p : Pool Store Request Phase) (i : ℕ) : Decidable (Untouched p i) :=
  inferInstanceAs (Decidable (∀ t ∈ p.tasks[i]?, ∀ ph ∈ t.2, ∀ seen ∈ ph.seen, seen = p.shared.writes))

/-- what a request holds, if the session has not been written since it was read -/
def Holds (a : Redis) : Request → Phase → Prop
  | _, .lookup => True
  | .register userId _, .clean _ oldChannels =>
    userId ≠ "" ∧ (a.hgetall now k).map Session.subscribedChannels = some oldChannels
  | .register userId _, .write _ oldChannels =>
    userId ≠ "" ∧ (a.hgetall now k).map Session.subscribedChannels = oldChannels
  | .deregister, .forget _ data => a.hgetall now k = some data
  | .register _ _, .forget _ _ | .deregister, .clean _ _ | .deregister, .write _ _ => False

/-- a request has cleaned the channels of the session that is still there -/
def Cleaned (p : Pool Store Request Phase) (oldChannels : List String) : Prop :=
  ∃ t ∈ p.tasks, t.2 = some (.write p.shared.writes (some oldChannels))

/-- the pool stands for a Redis in which the finished requests were executed at once -/
structure Stands (p : Pool Store Request Phase) (a : Redis) : Prop where
  session : p.shared.redis.session = a.session
  user : p.shared.redis.user = a.user
  cleaned : ∀ oldChannels, Cleaned p oldChannels →
    p.shared.redis.channel = Redis.sremChannels a.channel k oldChannels
  channel : (∀ oldChannels, ¬ Cleaned p oldChannels) → p.shared.redis.channel = a.channel
  seen : ∀ t ∈ p.tasks, ∀ ph, t.2 = some ph → ∀ seen, ph.seen = some seen → seen ≤ p.shared.writes
  holds : ∀ t ∈ p.tasks, ∀ ph, t.2 = some ph → ph.seen = some p.shared.writes → Holds now k a t.1 ph

variable {now k} {p : Pool Store Request Phase} {a : Redis}

theorem stands_start (r : Redis) (requests : List Request) : Stands now k (start r requests) r := by
  have hlookup : ∀ t ∈ (start r requests).tasks, t.2 = some .lookup := by
    intro t ht
    obtain ⟨x, -, rfl⟩ := List.mem_map.1 ht
    rfl
  refine ⟨rfl, rfl, ?_, fun _ => rfl, ?_, ?_⟩
  · rintro oldChannels ⟨t, ht, hph⟩
    rw [hlookup t ht] at hph
    cases hph
  · intro t ht ph hph seen hseen
    rw [hlookup t ht] at hph
    cases hph
    cases hseen
  · intro t ht ph hph hseen
    rw [hlookup t ht] at hph
    cases hph
    cases hseen

theorem Stands.hgetall (h : Stands now k p a) : p.shared.redis.hgetall now k = a.hgetall now k := by
  unfold Redis.hgetall
  rw [h.session]

/-- whatever has been cleaned, cleaning the channels of the session that is there leaves the same -/
theorem Stands.srem (h : Stands now k p a) {oldChannels : List String}
    (hold : (a.hgetall now k).map Session.subscribedChannels = some oldChannels) :
    Redis.sremChannels p.shared.redis.channel k oldChannels = Redis.sremChannels a.channel k oldChannels := by
  by_cases hc : ∃ old, Cleaned p old
  · obtain ⟨old, hclean⟩ := hc
    obtain ⟨t, ht, hph⟩ := hclean
    obtain rfl : old = oldChannels := by
      have hholds := h.holds t ht _ hph rfl
      cases hr : t.1 with
      | register u c =>
        rw [hr] at hholds
        exact (Option.some.inj (hold.symm.trans hholds.2)).symm
      | deregister =>
        rw [hr] at hholds
        exact hholds.elim
    rw [h.cleaned old ⟨t, ht, hph⟩]
    funext c
    unfold Redis.sremChannels
    split_ifs
    · rw [List.filter_filter]
      simp only [Bool.and_self]
    · rfl
  · rw [h.channel (by simpa using hc)]

/-! ## Steps -/

/-- a step that leaves Redis alone, and neither begins nor ends with cleaned channels -/
theorem Stands.move (h : Stands now k p a) {i : ℕ} {r : Request} {ph : Phase} (ht : p.tasks[i]? = some (r, some ph))
    (hph : ∀ seen old, ph ≠ .write seen (some old)) {o : Option Phase}
    (ho : ∀ ph', o = some ph' → ph'.seen = some p.shared.writes ∧ Holds now k a r ph' ∧
      ∀ seen old, ph' ≠ .write seen (some old)) :
    Stands now k ⟨p.shared, p.tasks.set i (r, o)⟩ a := by
  have hcleaned : ∀ old, Cleaned ⟨p.shared, p.tasks.set i (r, o)⟩ old ↔ Cleaned p old := by
    intro old
    refine ⟨?_, ?_⟩
    · rintro ⟨t, htask, hw⟩
      rcases List.mem_or_eq_of_mem_set htask with hmem | rfl
      · exact ⟨t, hmem, hw⟩
      · exact absurd rfl ((ho _ hw).2.2 _ _)
    · rintro ⟨t, htask, hw⟩
      refine ⟨t, mem_set_of_ne ht htask ?_, hw⟩
      rintro rfl
      exact hph _ _ (Option.some.inj hw)
  refine ⟨h.session, h.user, fun old hold => h.cleaned old ((hcleaned old).1 hold),
    fun hnone => h.channel fun old hold => hnone old ((hcleaned old).2 hold), ?_, ?_⟩
  · intro t htask ph' hph' seen hseen
    rcases List.mem_or_eq_of_mem_set htask with hmem | rfl
    · exact h.seen t hmem ph' hph' seen hseen
    · exact (Option.some.inj (hseen.symm.trans (ho ph' hph').1)).le
  · intro t htask ph' hph' hseen
    rcases List.mem_or_eq_of_mem_set htask with hmem | rfl
    · exact h.holds t hmem ph' hph' hseen
    · exact (ho ph' hph').2.1

/-- the first pipeline of `register` -/
theorem Stands.clean (h : Stands now k p a) {i : ℕ} {userId : String} {channels old : List String}
    (ht : p.tasks[i]? = some (.register userId channels, some (.clean p.shared.writes old))) :
    Stands now k ⟨⟨p.shared.redis.cleanPipe k old, p.shared.writes⟩,
      p.tasks.set i (.register userId channels, some (.write p.shared.writes (some old)))⟩ a := by
  have hholds : userId ≠ "" ∧ (a.hgetall now k).map Session.subscribedChannels = some old :=
    h.holds _ (List.mem_of_getElem? ht) _ rfl rfl
  have hold := hholds.2
  have hself : (Request.register userId channels, some (Phase.write p.shared.writes (some old))) ∈
      p.tasks.set i (.register userId channels, some (.write p.shared.writes (some old))) := by
    rw [List.mem_iff_getElem?]
    exact ⟨i, List.getElem?_set_self (List.getElem?_eq_some_iff.1 ht).1⟩
  refine ⟨h.session, h.user, ?_, fun hnone => absurd ⟨_, hself, rfl⟩ (hnone old), ?_, ?_⟩
  · -- every request that has cleaned the session that is there has cleaned the same channels
    rintro old' ⟨t, htask, hw⟩
    obtain rfl : old' = old := by
      rcases List.mem_or_eq_of_mem_set htask with hmem | rfl
      · have hholds := h.holds t hmem _ hw rfl
        cases hr : t.1 with
        | register u c =>
          rw [hr] at hholds
          exact Option.some.inj (hholds.2.symm.trans hold)
        | deregister =>
          rw [hr] at hholds
          exact hholds.elim
      · cases hw
        rfl
    exact h.srem hold
  · intro t htask ph' hph' seen hseen
    rcases List.mem_or_eq_of_mem_set htask with hmem | rfl
    · exact h.seen t hmem ph' hph' seen hseen
    · cases hph'
      cases hseen
      exact le_rfl
  · intro t htask ph' hph' hseen
    rcases List.mem_or_eq_of_mem_set htask with hmem | rfl
    · exact h.holds t hmem ph' hph' hseen
    · cases hph'
      exact hholds

/-- a request that writes or deletes the session: nothing that was read before is current any more -/
theorem Stands.commit (h : Stands now k p a) {i : ℕ} {r : Request} {redis a' : Redis}
    (hsession : redis.session = a'.session) (huser : redis.user = a'.user) (hchannel : redis.channel = a'.channel) :
    Stands now k ⟨⟨redis, p.shared.writes + 1⟩, p.tasks.set i (r, none)⟩ a' := by
  have hold : ∀ t ∈ p.tasks.set i (r, none), ∀ ph, t.2 = some ph → ∀ seen, ph.seen = some seen →
      seen ≤ p.shared.writes := by
    intro t htask ph hph seen hseen
    rcases List.mem_or_eq_of_mem_set htask with hmem | rfl
    · exact h.seen t hmem ph hph seen hseen
    · cases hph
  refine ⟨hsession, huser, ?_, fun _ => hchannel, ?_, ?_⟩
  · rintro old ⟨t, htask, hw⟩
    exact absurd (hold t htask _ hw _ rfl) (Nat.not_succ_le_self _)
  · intro t htask ph hph seen hseen
    exact (hold t htask ph hph seen hseen).trans (Nat.le_succ _)
  · intro t htask ph hph hseen
    exact absurd (hold t htask ph hph _ hseen) (Nat.not_succ_le_self _)

/-- the request, executed at once -/
def perform (now : ℕ) (k : ConnId) (a : Redis) (r : Request) : Redis := (Presence.step (service now a) (r.op k)).redis

theorem perform_register {userId : String} {channels : List String} (h : userId ≠ "") :
    perform now k a (.register userId channels) = a.register now k userId channels := by
  simp [perform, Request.op, Presence.step, accepted, service, h]

theorem perform_refused (channels : List String) : perform now k a (.register "" channels) = a := rfl

theorem perform_deregister : perform now k a .deregister = a.deregister now k := rfl

/-- what has been cleaned belongs to a session that is still there -/
theorem Stands.not_cleaned (h : Stands now k p a) (hnone : a.hgetall now k = none) (old : List String) :
    ¬ Cleaned p old := by
  rintro ⟨t, ht, hw⟩
  have hholds := h.holds t ht _ hw rfl
  cases hr : t.1 with
  | register u c =>
    rw [hr] at hholds
    simp [Holds, hnone] at hholds
  | deregister =>
    rw [hr] at hholds
    exact hholds

/-- the second pipeline of `register` -/
theorem Stands.write (h : Stands now k p a) {i : ℕ} {userId : String} {channels : List String}
    {old : Option (List String)}
    (ht : p.tasks[i]? = some (.register userId channels, some (.write p.shared.writes old))) :
    Stands now k ⟨⟨p.shared.redis.writePipe now k userId channels, p.shared.writes + 1⟩,
      p.tasks.set i (.register userId channels, none)⟩ (perform now k a (.register userId channels)) := by
  have hmem := List.mem_of_getElem? ht
  have hholds : userId ≠ "" ∧ (a.hgetall now k).map Session.subscribedChannels = old := h.holds _ hmem _ rfl rfl
  have hold := hholds.2
  rw [perform_register hholds.1, Redis.register]
  cases hget : a.hgetall now k with
  | some prev =>
    rw [hget] at hold
    subst hold
    have hchannel := h.cleaned prev.subscribedChannels ⟨_, hmem, rfl⟩
    apply h.commit
    · simp only [Redis.writePipe, Redis.cleanPipe, h.session]
    · simp only [Redis.writePipe, Redis.cleanPipe, h.user]
    · simp only [Redis.writePipe, Redis.cleanPipe, hchannel]
  | none =>
    have hchannel := h.channel (h.not_cleaned hget)
    apply h.commit
    · simp only [Redis.writePipe, h.session]
    · simp only [Redis.writePipe, h.user]
    · simp only [Redis.writePipe, hchannel]

/-- the pipeline of `deregister` -/
theorem Stands.forget (h : Stands now k p a) {i : ℕ} {data : Session}
    (ht : p.tasks[i]? = some (.deregister, some (.forget p.shared.writes data))) :
    Stands now k ⟨⟨p.shared.redis.deletePipe k data, p.shared.writes + 1⟩, p.tasks.set i (.deregister, none)⟩
      (perform now k a .deregister) := by
  have hget : a.hgetall now k = some data := h.holds _ (List.mem_of_getElem? ht) _ rfl rfl
  have hold : (a.hgetall now k).map Session.subscribedChannels = some data.subscribedChannels := by rw [hget]; rfl
  have hchannel := h.srem hold
  rw [perform_deregister, Redis.deregister, hget]
  apply h.commit
  · simp only [Redis.deletePipe, h.session]
  · simp only [Redis.deletePipe, h.user]
  · exact hchannel

/-- **One round trip.** If it acts on a session that is as it was read, Redis goes on standing for the requests that have
finished, executed at once. -/
theorem step_untouched (h : Stands now k p a) {i : ℕ} (hfresh : Untouched p i) {r : Request} {ph : Phase}
    (ht : p.tasks[i]? = some (r, some ph)) :
    Stands now k (step now k p i) (if (next now k r ph p.shared).2 = none then perform now k a r else a) := by
  rw [step, advance_running ht]
  have hget := h.hgetall
  cases r with
  | register userId channels =>
    cases ph with
    | lookup =>
      by_cases hu : userId = ""
      · subst hu
        simp only [next, if_true, perform_refused]
        exact h.move ht (fun _ _ hph => by cases hph) fun _ ho => by cases ho
      · cases hprev : p.shared.redis.hgetall now k with
        | some prev =>
          simp only [next, hu, if_false, hprev, reduceCtorEq]
          apply h.move ht fun _ _ hph => by cases hph
          intro ph' ho
          obtain rfl := Option.some.inj ho
          exact ⟨rfl, ⟨hu, by rw [← hget, hprev]; rfl⟩, fun _ _ hph => by cases hph⟩
        | none =>
          simp only [next, hu, if_false, hprev, reduceCtorEq]
          apply h.move ht fun _ _ hph => by cases hph
          intro ph' ho
          obtain rfl := Option.some.inj ho
          exact ⟨rfl, ⟨hu, by rw [← hget, hprev]; rfl⟩, fun _ _ hph => by cases hph⟩
    | clean seen old =>
      obtain rfl := hfresh _ ht _ rfl seen rfl
      exact h.clean ht
    | write seen old =>
      obtain rfl := hfresh _ ht _ rfl seen rfl
      exact h.write ht
    | forget seen data =>
      obtain rfl := hfresh _ ht _ rfl seen rfl
      exact (h.holds _ (List.mem_of_getElem? ht) _ rfl rfl).elim
  | deregister =>
    cases ph with
    | lookup =>
      cases hdata : p.shared.redis.hgetall now k with
      | some data =>
        simp only [next, hdata, reduceCtorEq, if_false]
        apply h.move ht fun _ _ hph => by cases hph
        intro ph' ho
        obtain rfl := Option.some.inj ho
        exact ⟨rfl, hget.symm.trans hdata, fun _ _ hph => by cases hph⟩
      | none =>
        have hself : perform now k a .deregister = a := by
          rw [perform_deregister, Redis.deregister, ← hget, hdata]
        simp only [next, hdata, if_true, hself]
        exact h.move ht (fun _ _ hph => by cases hph) fun _ ho => by cases ho
    | clean seen old =>
      obtain rfl := hfresh _ ht _ rfl seen rfl
      exact (h.holds _ (List.mem_of_getElem? ht) _ rfl rfl).elim
    | write seen old =>
      obtain rfl := hfresh _ ht _ rfl seen rfl
      exact (h.holds _ (List.mem_of_getElem? ht) _ rfl rfl).elim
    | forget seen data =>
      obtain rfl := hfresh _ ht _ rfl seen rfl
      exact h.forget ht

/-! ## Runs -/

theorem sequential_eq (r : Redis) (order : List Request) :
    sequential now k r order = service now (order.foldl (perform now k) r) := by
  unfold sequential
  induction order generalizing r with
  | nil => rfl
  | cons x order ih =>
    have hstep : Presence.step (service now r) (x.op k) = service now (perform now k r x) := by
      cases x with
      | register userId channels =>
        unfold perform
        simp only [Request.op, Presence.step]
        split <;> rfl
      | deregister => rfl
    rw [List.map_cons, run_cons, hstep, List.foldl_cons]
    exact ih _

/-- two services with the same sessions and indexes answer alike -/
theorem sameAnswers_of_eq {r r' : Redis} (hsession : r.session = r'.session) (huser : r.user = r'.user)
    (hchannel : r.channel = r'.channel) : SameAnswers (service now r) (service now r') := by
  have heq : r = r' := by
    cases r
    cases r'
    cases hsession
    cases huser
    cases hchannel
    rfl
  rw [heq]
  exact ⟨fun _ => rfl, fun _ => rfl, fun _ => rfl⟩

/-- **Linearizability.** If every request acts only on a session that no other one has written or deleted since it was
read, all queries are answered as after the same requests one after another. -/
theorem linearizable_untouched (now : ℕ) (k : ConnId) (r : Redis) (requests : List Request) (schedule : List ℕ)
    (h : Along (step now k) Untouched (start r requests) schedule) : Linearizable now k r requests schedule := by
  intro hfinished
  have hgoes : ∀ p a i x ph ph', Stands now k p a → Untouched p i → p.tasks[i]? = some (x, some ph) →
      (next now k x ph p.shared).2 = some ph' → Stands now k (p.advance (next now k) i) a := by
    intro p a i x ph ph' hR hC ht hnext
    have hstep := step_untouched hR hC ht
    rwa [hnext, if_neg (by simp)] at hstep
  have hends : ∀ p a i x ph, Stands now k p a → Untouched p i → p.tasks[i]? = some (x, some ph) →
      (next now k x ph p.shared).2 = none → Stands now k (p.advance (next now k) i) (perform now k a x) := by
    intro p a i x ph hR hC ht hnext
    have hstep := step_untouched hR hC ht
    rwa [hnext, if_pos rfl] at hstep
  obtain ⟨order, hstands, hperm⟩ := linearize hgoes hends (stands_start r requests) h
  rw [pending_of_finished hfinished, List.append_nil, start, pending_start] at hperm
  refine ⟨order, hperm.symm, ?_⟩
  rw [sequential_eq]
  apply sameAnswers_of_eq hstands.session hstands.user
  apply hstands.channel
  rintro old ⟨t, ht, hw⟩
  rw [hfinished t ht] at hw
  cases hw

/-! ## One request after another, and two at once -/

/-- two subscriptions of one connection: the first request has timed out when the second is sent -/
def subscriptions : List Request := [.register "alice" ["general"], .register "alice" ["random"]]

/-- the second request is sent when the first has been answered -/
theorem subscriptions_in_turn : (run (step 0 1) (start .empty subscriptions) [0, 0, 1, 1, 1]).Finished ∧
    Linearizable 0 1 .empty subscriptions [0, 0, 1, 1, 1] := by
  refine ⟨by decide, ?_⟩
  apply linearizable_untouched
  decide

theorem overlapping_registers : ¬ Linearizable 0 1 .empty subscriptions [0, 1, 0, 1] := by
  intro h
  obtain ⟨order, hperm, hchannel, -, -⟩ := h (by decide)
  rcases List.perm_pair.1 hperm with rfl | rfl
  · exact absurd (hchannel "general") (by decide)
  · exact absurd (hchannel "random") (by decide)

end Concordia.Presence.Concurrent
