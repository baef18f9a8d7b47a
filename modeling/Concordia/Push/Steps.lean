/-
What a step of the push path can do, to a connection, to a message and to what has been written.

- `SameConn`, `step_other`: a step about another connection, or about none, leaves a connection as it is.
- `Trans`, `conn_cases`: the transitions of one connection.
- `step_messages`: a message moves in its own steps only.
- `Wrote`, `step_sent`: what a step writes, and to whom.
- `asked_step`, `asked_onset`, `unasked_step`: presence answers a message once, and nothing is written for it before.
- `reached_db`: the servers service runs as it does on its own.
-/
import Concordia.Push.System

namespace Concordia.Push

open Concordia.Lib Concordia.Presence
open Concordia.Servers (Db Uuid)
open Function (update update_self update_of_ne)

/-! ## Steps about something else -/

/-- the connection an operation is about -/
def Op.conn : Op → Option ConnId
  | .open k _ | .frame k _ | .close k | .advance k | .heartbeat k => some k
  | .servers _ | .create _ _ _ | .chat _ _ | .tick _ => none

/-- connection `k` is the same in both states -/
structure SameConn (k : ConnId) (s s' : St) : Prop where
  user : s'.user k = s.user k
  conns : s'.conns k = s.conns k
  subs : s'.subs k = s.subs k
  phase : s'.phase k = s.phase k
  session : s'.redis.session k = s.redis.session k
  index : ∀ x, k ∈ s'.redis.channel x ↔ k ∈ s.redis.channel x

theorem SameConn.rfl {k : ConnId} {s : St} : SameConn k s s := by
  constructor <;> intros <;> trivial

/-- an update of another connection's phase and index entries -/
theorem SameConn.phase_redis {k q : ConnId} (hne : q ≠ k) (s : St) (p : Phase) {r : Redis}
    (hs : r.session q = s.redis.session q) (hi : ∀ x, q ∈ r.channel x ↔ q ∈ s.redis.channel x) :
    SameConn q s { s with redis := r, phase := update s.phase k p } where
  user := Eq.refl _
  conns := Eq.refl _
  subs := Eq.refl _
  phase := update_of_ne hne _ _
  session := hs
  index := hi

theorem advance_other {k q : ConnId} (hne : q ≠ k) (s : St) : SameConn q s (advance s k) := by
  have hphase : ∀ p, SameConn q s (s.setPhase k p) := fun p => .phase_redis hne s p (Eq.refl _) fun _ => Iff.rfl
  unfold advance
  split
  · split
    · exact hphase _
    · exact hphase _
  · refine .phase_redis hne s _ (Eq.refl _) ?_
    intro x
    simp [Redis.cleanPipe, hne]
  · refine .phase_redis hne s _ ?_ ?_
    · exact update_of_ne hne _ _
    · intro x
      simp [Redis.writePipe, hne]
  · exact { hphase .reading with }
  · split
    · exact hphase _
    · exact hphase _
  · refine .phase_redis hne s _ ?_ ?_
    · exact update_of_ne hne _ _
    · intro x
      simp [Redis.deletePipe, hne]
  · exact { hphase .gone with conns := update_of_ne hne _ _, subs := update_of_ne hne _ _ }
  · exact .rfl
  · exact .rfl
  · exact .rfl

theorem updateSubscription_other {k q : ConnId} (hne : q ≠ k) (s : St) (x : String) (subscribe : Bool) :
    SameConn q s (updateSubscription s k x subscribe) := by
  unfold updateSubscription
  split
  · exact .rfl
  · exact { SameConn.rfl (k := q) (s := s) with subs := update_of_ne hne _ _, phase := update_of_ne hne _ _ }

theorem dispatch_other {k q : ConnId} (hne : q ≠ k) (s : St) (inMsg : In) : SameConn q s (dispatch s k inMsg) := by
  cases inMsg with
  | subscribe x =>
    simp only [dispatch]
    split_ifs
    · exact { SameConn.rfl (k := q) (s := s) with }
    · exact updateSubscription_other hne s x true
  | unsubscribe x =>
    simp only [dispatch]
    split_ifs
    · exact { SameConn.rfl (k := q) (s := s) with }
    · exact updateSubscription_other hne s x false

theorem resolveServerId_conn (s : St) (q : ConnId) (c : Uuid) : SameConn q s (resolveServerId s c).1 := by
  unfold resolveServerId
  split
  · exact .rfl
  · split
    · exact { SameConn.rfl (k := q) (s := s) with }
    · exact .rfl

theorem chat_conn (s : St) (q : ConnId) (m : ℕ) (cached : Option (Finset Servers.Permission)) :
    SameConn q s (chat s m cached) := by
  unfold chat
  split
  · exact { resolveServerId_conn s q _ with }
  · split_ifs <;> exact { SameConn.rfl (k := q) (s := s) with }
  · exact { SameConn.rfl (k := q) (s := s) with }
  · dsimp only
    split_ifs <;> exact { SameConn.rfl (k := q) (s := s) with }
  · split_ifs <;> exact { SameConn.rfl (k := q) (s := s) with }
  · exact { SameConn.rfl (k := q) (s := s) with }
  · exact .rfl
  · exact .rfl
  · exact .rfl

/-- **Frame.** A step about another connection, or about none, leaves a connection as it is. -/
theorem step_other {s : St} {o : Op} {q : ConnId} (h : o.conn ≠ some q) : SameConn q s (step s o) := by
  cases o with
  | servers request => exact { SameConn.rfl (k := q) (s := s) with }
  | «open» k userId =>
    have hne : q ≠ k := fun e => h (congrArg some e.symm)
    simp only [step]
    split_ifs
    · exact { SameConn.rfl (k := q) (s := s) with
        user := update_of_ne hne _ _, conns := update_of_ne hne _ _, subs := update_of_ne hne _ _,
        phase := update_of_ne hne _ _ }
    · exact .rfl
  | frame k inMsg =>
    have hne : q ≠ k := fun e => h (congrArg some e.symm)
    simp only [step]
    split_ifs
    · exact dispatch_other hne s inMsg
    · exact .rfl
  | close k =>
    have hne : q ≠ k := fun e => h (congrArg some e.symm)
    simp only [step]
    split_ifs
    · exact { SameConn.rfl (k := q) (s := s) with phase := update_of_ne hne _ _ }
    · exact .rfl
  | advance k => exact advance_other (fun e => h (congrArg some e.symm)) s
  | heartbeat k =>
    have hne : q ≠ k := fun e => h (congrArg some e.symm)
    exact { SameConn.rfl (k := q) (s := s) with
      session := by simp [step, Redis.heartbeat_session, hne], index := fun x => by rw [step, Redis.heartbeat_channel] }
  | create m userId c =>
    simp only [step]
    split_ifs
    · exact { SameConn.rfl (k := q) (s := s) with }
    · exact .rfl
  | chat m cached => exact chat_conn s q m cached
  | tick n => exact { SameConn.rfl (k := q) (s := s) with }

/-! ## The transitions of a connection -/

/-- the transitions of connection `k`, each with the guard it passed -/
inductive Trans (s : St) (o : Op) (k : ConnId) : St → Prop where
  | opened (userId : Uuid) (ho : o = .open k userId) (h0 : s.phase k = .absent) :
    Trans s o k { s with
      user := update s.user k userId
      conns := update s.conns k true
      subs := update s.subs k (some [])
      phase := update s.phase k (.lookup .connected []) }
  | subscribed (x : String) (l : List String) (ho : o = .frame k (.subscribe x)) (h0 : s.phase k = .reading)
    (hl : s.subs k = some l) :
    Trans s o k { s with
      subs := update s.subs k (some (addRow x l))
      phase := update s.phase k (.lookup (.subscribed x) (addRow x l)) }
  | unsubscribed (x : String) (l : List String) (ho : o = .frame k (.unsubscribe x)) (h0 : s.phase k = .reading)
    (hl : s.subs k = some l) :
    Trans s o k { s with
      subs := update s.subs k (some (l.filter (· ≠ x)))
      phase := update s.phase k (.lookup (.unsubscribed x) (l.filter (· ≠ x))) }
  | refused (error : String) (h0 : s.phase k = .reading) : Trans s o k (s.writeJSON k (.error error))
  | found (ack : Ack) (channels : List String) (prev : Session) (h0 : s.phase k = .lookup ack channels)
    (hp : s.redis.hgetall s.now k = some prev) :
    Trans s o k (s.setPhase k (.clean ack channels prev.subscribedChannels))
  | missing (ack : Ack) (channels : List String) (h0 : s.phase k = .lookup ack channels)
    (hp : s.redis.hgetall s.now k = none) : Trans s o k (s.setPhase k (.write ack channels []))
  | cleaned (ack : Ack) (channels old : List String) (h0 : s.phase k = .clean ack channels old) :
    Trans s o k { s with redis := s.redis.cleanPipe k old, phase := update s.phase k (.write ack channels old) }
  | written (ack : Ack) (channels old : List String) (h0 : s.phase k = .write ack channels old) :
    Trans s o k { s with
      redis := s.redis.writePipe s.now k (Servers.Uuid.toString (s.user k)) channels
      phase := update s.phase k (.respond ack) }
  | responded (ack : Ack) (ho : o = .advance k) (h0 : s.phase k = .respond ack) :
    Trans s o k ((s.writeJSON k (.ack ack)).setPhase k .reading)
  | closed (ho : o = .close k) (h0 : s.phase k = .reading) : Trans s o k (s.setPhase k .closing)
  | forgetting (data : Session) (h0 : s.phase k = .closing) (hp : s.redis.hgetall s.now k = some data) :
    Trans s o k (s.setPhase k (.forget data))
  | skipped (h0 : s.phase k = .closing) : Trans s o k (s.setPhase k .leaving)
  | forgotten (data : Session) (h0 : s.phase k = .forget data) :
    Trans s o k { s with redis := s.redis.deletePipe k data, phase := update s.phase k .leaving }
  | left (h0 : s.phase k = .leaving) :
    Trans s o k { s with
      conns := update s.conns k false, subs := update s.subs k none, phase := update s.phase k .gone }
  | beat : Trans s o k { s with redis := s.redis.heartbeat s.now k }

theorem advance_cases {s : St} {k : ConnId} : advance s k = s ∨ Trans s (.advance k) k (advance s k) := by
  cases h : s.phase k with
  | absent | reading | gone => left; simp only [advance, h]
  | lookup ack channels =>
    right
    simp only [advance, h]
    split
    · rename_i prev hp
      exact .found ack channels prev h hp
    · rename_i hp
      exact .missing ack channels h hp
  | clean ack channels old => right; simp only [advance, h]; exact .cleaned ack channels old h
  | write ack channels old => right; simp only [advance, h]; exact .written ack channels old h
  | respond ack => right; simp only [advance, h]; exact .responded ack rfl h
  | closing =>
    right
    simp only [advance, h]
    split
    · rename_i data hp
      exact .forgetting data h hp
    · exact .skipped h
  | forget data => right; simp only [advance, h]; exact .forgotten data h
  | leaving => right; simp only [advance, h]; exact .left h

theorem dispatch_cases {s : St} {k : ConnId} {inMsg : In} (h : s.phase k = .reading) :
    dispatch s k inMsg = s ∨ Trans s (.frame k inMsg) k (dispatch s k inMsg) := by
  cases hl : s.subs k with
  | none =>
    cases inMsg <;> simp only [dispatch, updateSubscription, hl] <;> split_ifs <;>
      first | exact Or.inl rfl | exact Or.inr (.refused _ h)
  | some l =>
    right
    cases inMsg with
    | subscribe x =>
      simp only [dispatch, updateSubscription, hl]
      split_ifs
      · exact .refused _ h
      · exact .subscribed x l rfl h hl
    | unsubscribe x =>
      simp only [dispatch, updateSubscription, hl, Bool.false_eq_true, if_false]
      split_ifs
      · exact .refused _ h
      · exact .unsubscribed x l rfl h hl

/-- **Inversion of a connection's step.** -/
theorem conn_cases {s : St} {o : Op} {k : ConnId} (h : o.conn = some k) : step s o = s ∨ Trans s o k (step s o) := by
  cases o with
  | servers | create | chat | tick => cases h
  | «open» k' userId =>
    cases h
    simp only [step]
    split_ifs with h0
    · exact Or.inr (.opened userId rfl h0)
    · exact Or.inl rfl
  | frame k' inMsg =>
    cases h
    simp only [step]
    split_ifs with h0
    · exact dispatch_cases h0
    · exact Or.inl rfl
  | close k' =>
    cases h
    simp only [step]
    split_ifs with h0
    · exact Or.inr (.closed rfl h0)
    · exact Or.inl rfl
  | advance k' => cases h; exact advance_cases
  | heartbeat k' => cases h; exact Or.inr .beat

/-! ## Messages, and what is written -/

/-- the message an operation is about -/
def Op.message : Op → Option ℕ
  | .create m _ _ | .chat m _ => some m
  | _ => none

theorem advance_messages (s : St) (k : ConnId) : (advance s k).messages = s.messages := by
  unfold advance
  split <;> first | rfl | (split <;> rfl)

theorem dispatch_messages (s : St) (k : ConnId) (inMsg : In) : (dispatch s k inMsg).messages = s.messages := by
  cases inMsg <;> simp only [dispatch, updateSubscription] <;> split_ifs <;> first | rfl | (split <;> rfl)

theorem resolveServerId_messages (s : St) (c : Uuid) : (resolveServerId s c).1.messages = s.messages := by
  unfold resolveServerId
  split
  · rfl
  · split <;> rfl

/-- the moves of a message -/
theorem chat_messages (s : St) (m : ℕ) (cached : Option (Finset Servers.Permission)) :
    chat s m cached = s ∨ ∃ p, (chat s m cached).messages = update s.messages m p := by
  unfold chat
  split
  · right
    exact ⟨_, congrArg (update · m _) (resolveServerId_messages s _)⟩
  · split_ifs <;> exact Or.inr ⟨_, rfl⟩
  · exact Or.inr ⟨_, rfl⟩
  · dsimp only
    split_ifs <;> exact Or.inr ⟨_, rfl⟩
  · split_ifs <;> exact Or.inr ⟨_, rfl⟩
  · exact Or.inr ⟨_, rfl⟩
  · exact Or.inl rfl
  · exact Or.inl rfl
  · exact Or.inl rfl

/-- the permission check lets the message through, or ends it -/
theorem chat_resolved {s : St} {m : ℕ} {u c : Uuid} {sid : Option Uuid} (cached : Option (Finset Servers.Permission))
    (h : s.messages m = .resolved u c sid) :
    chat s m cached = s.setMessage m (.fanout c) ∨ chat s m cached = s.setMessage m .forbidden := by
  simp only [chat, h]
  split_ifs
  · exact Or.inl rfl
  · exact Or.inr rfl

/-- a message moves in its own steps only -/
theorem step_messages {s : St} {o : Op} {m : ℕ} (h : o.message ≠ some m) : (step s o).messages m = s.messages m := by
  cases o with
  | servers | heartbeat | tick => rfl
  | «open» k userId => simp only [step]; split_ifs <;> rfl
  | frame k inMsg =>
    simp only [step]
    split_ifs
    · rw [dispatch_messages]
    · rfl
  | close k => simp only [step]; split_ifs <;> rfl
  | advance k => exact congrFun (advance_messages s k) m
  | create m' userId c =>
    simp only [step]
    split_ifs
    · exact update_of_ne (fun e => h (congrArg some e.symm)) _ _
    · rfl
  | chat m' cached =>
    rcases chat_messages s m' cached with e | ⟨p, e⟩
    · simp only [step, e]
    · simp only [step, e]
      exact update_of_ne (fun e => h (congrArg some e.symm)) _ _

/-- a step writes `f` -/
inductive Wrote (s : St) : Op → Frame → Prop where
  | ack (k : ConnId) (a : Ack) (h0 : s.phase k = .respond a) : Wrote s (.advance k) ⟨k, s.user k, .ack a⟩
  | error (k : ConnId) (inMsg : In) (message : String) (h0 : s.phase k = .reading) :
    Wrote s (.frame k inMsg) ⟨k, s.user k, .error message⟩
  | push (m : ℕ) (cached : Option (Finset Servers.Permission)) (c : Uuid) (k : ConnId) (rest : List ConnId)
    (h0 : s.messages m = .pushing c (k :: rest)) (hk : s.conns k = true) :
    Wrote s (.chat m cached) ⟨k, s.user k, .newMessage m c⟩

theorem resolveServerId_sent (s : St) (c : Uuid) : (resolveServerId s c).1.sent = s.sent := by
  unfold resolveServerId
  split
  · rfl
  · split <;> rfl

theorem chat_sent (s : St) (m : ℕ) (cached : Option (Finset Servers.Permission)) :
    (chat s m cached).sent = s.sent ∨ ∃ f, (chat s m cached).sent = s.sent ++ [f] ∧ Wrote s (.chat m cached) f := by
  cases h : s.messages m with
  | idle | forbidden | finished => left; simp only [chat, h]
  | began u c => left; simp only [chat, h]; exact resolveServerId_sent s c
  | resolved u c sid => left; simp only [chat, h]; split_ifs <;> rfl
  | fanout c => left; simp only [chat, h]; rfl
  | listed c ids => left; simp only [chat, h]; split_ifs <;> rfl
  | pushing c ids =>
    cases ids with
    | nil => left; simp only [chat, h]; rfl
    | cons k rest =>
      simp only [chat, h]
      split_ifs with hk
      · exact Or.inr ⟨_, rfl, .push m cached c k rest h hk⟩
      · exact Or.inl rfl

/-- **What a step writes.** At most one thing: an acknowledgement, an error, or a message to a listed connection. -/
theorem step_sent (s : St) (o : Op) :
    (step s o).sent = s.sent ∨ ∃ f, (step s o).sent = s.sent ++ [f] ∧ Wrote s o f := by
  cases o with
  | servers | heartbeat | tick => exact Or.inl rfl
  | «open» k userId => left; simp only [step]; split_ifs <;> rfl
  | close k => left; simp only [step]; split_ifs <;> rfl
  | create m userId c => left; simp only [step]; split_ifs <;> rfl
  | chat m cached => exact chat_sent s m cached
  | frame k inMsg =>
    simp only [step]
    split_ifs with h0
    · cases inMsg <;> simp only [dispatch, updateSubscription] <;> split_ifs <;>
        first | exact Or.inr ⟨_, rfl, .error k _ _ h0⟩ | (left; split <;> rfl)
    · exact Or.inl rfl
  | advance k =>
    cases h : s.phase k with
    | respond a => right; simp only [step, advance, h]; exact ⟨_, rfl, .ack k a h⟩
    | lookup | closing => left; simp only [step, advance, h]; split <;> rfl
    | _ => left; simp only [step, advance, h]

/-! ## Before and after presence answers -/

/-- once presence has answered: the channel, and the connections still to be written to -/
def MsgPhase.asked : MsgPhase → Option (Uuid × List ConnId)
  | .listed c ids | .pushing c ids => some (c, ids)
  | .finished c => some (c, [])
  | _ => none

/-- what presence answered for a message can only shrink -/
theorem asked_step (s : St) (o : Op) {m : ℕ} {c : Uuid} {ids : List ConnId} (h : (s.messages m).asked = some (c, ids)) :
    ∃ ids', ((step s o).messages m).asked = some (c, ids') ∧ ids' ⊆ ids := by
  by_cases ho : o.message = some m
  · cases o with
    | create m' u c' =>
      cases ho
      have hidle : s.messages m ≠ .idle := fun e => by rw [e] at h; cases h
      exact ⟨ids, by rw [step, if_neg hidle]; exact h, List.Subset.refl _⟩
    | chat m' cached =>
      cases ho
      cases hm : s.messages m with
      | listed c' l =>
        rw [hm] at h
        cases h
        simp only [step, chat, hm]
        split_ifs
        · exact ⟨[], by simp [St.setMessage, MsgPhase.asked], List.nil_subset _⟩
        · refine ⟨ids.filter fun k => (s.redis.hgetall s.now k).isSome, ?_, List.filter_sublist.subset⟩
          simp only [St.setMessage, update_self, MsgPhase.asked]
      | pushing c' l =>
        rw [hm] at h
        cases h
        cases ids with
        | nil => exact ⟨[], by simp [step, chat, hm, St.setMessage, MsgPhase.asked], List.nil_subset _⟩
        | cons k rest =>
          exact ⟨rest, by simp [step, chat, hm, St.setMessage, MsgPhase.asked], List.subset_cons_self _ _⟩
      | finished c' => exact ⟨ids, by simp only [step, chat, hm]; rw [← hm]; exact h, List.Subset.refl _⟩
      | _ => rw [hm] at h; cases h
    | _ => cases ho
  · exact ⟨ids, by rw [step_messages ho]; exact h, List.Subset.refl _⟩

/-- presence answers a message in one step, with the channel's set -/
theorem asked_onset {s : St} {o : Op} {m : ℕ} (h : (s.messages m).asked = none)
    (h' : ((step s o).messages m).asked ≠ none) :
    ∃ cached c, o = .chat m cached ∧ s.messages m = .fanout c ∧
      (step s o).messages m = .listed c (s.redis.smembers (Servers.Uuid.toString c)) := by
  by_cases ho : o.message = some m
  · cases o with
    | create m' u c =>
      cases ho
      exfalso
      apply h'
      simp only [step]
      split_ifs
      · simp [St.setMessage, MsgPhase.asked]
      · exact h
    | chat m' cached =>
      cases ho
      cases hm : s.messages m with
      | fanout c => exact ⟨cached, c, rfl, rfl, by simp only [step, chat, hm, St.setMessage, update_self]⟩
      | listed | pushing | finished => rw [hm] at h; cases h
      | idle | forbidden => exact absurd (by simp only [step, chat, hm]; rfl) h'
      | began u c => exact absurd (by simp only [step, chat, hm, St.setMessage, update_self]; rfl) h'
      | resolved u c sid =>
        exact absurd (by simp only [step, chat, hm]; split_ifs <;> simp only [St.setMessage, update_self] <;> rfl) h'
    | _ => cases ho
  · exact absurd (by rw [step_messages ho]; exact h) h'

/-- nothing is written for a message before presence has answered -/
def Unasked (s : St) : Prop := ∀ m, (s.messages m).asked = none → ∀ f ∈ s.sent, ∀ c, f.out ≠ .newMessage m c

theorem unasked_init : Unasked init := by
  intro m _ f hf
  cases hf

theorem unasked_step {s : St} (o : Op) (h : Unasked s) : Unasked (step s o) := by
  intro m hm f hf c hout
  have hbefore : (s.messages m).asked = none := by
    by_contra hne
    obtain ⟨⟨c', ids⟩, ha⟩ := Option.ne_none_iff_exists'.1 hne
    obtain ⟨ids', ha', -⟩ := asked_step s o ha
    rw [hm] at ha'
    cases ha'
  rcases step_sent s o with e | ⟨g, e, hw⟩
  · rw [e] at hf
    exact h m hbefore f hf c hout
  · rw [e] at hf
    rcases mem_snoc.1 hf with hf | rfl
    · exact h m hbefore f hf c hout
    · cases hw with
      | ack | error => cases hout
      | push m' cached c' k rest h0 hk =>
        cases hout
        rw [h0] at hbefore
        cases hbefore

/-! ## The servers service within the system -/

/-- the database and the clock are the same in both states -/
structure SameEnv (s s' : St) : Prop where
  db : s'.db = s.db
  now : s'.now = s.now

theorem advance_env (s : St) (k : ConnId) : SameEnv s (advance s k) := by
  unfold advance
  split <;> first | exact ⟨rfl, rfl⟩ | (split <;> exact ⟨rfl, rfl⟩)

theorem dispatch_env (s : St) (k : ConnId) (inMsg : In) : SameEnv s (dispatch s k inMsg) := by
  cases inMsg <;> simp only [dispatch, updateSubscription] <;> split_ifs <;>
    first | exact ⟨rfl, rfl⟩ | (split <;> exact ⟨rfl, rfl⟩)

theorem resolveServerId_env (s : St) (c : Uuid) : SameEnv s (resolveServerId s c).1 := by
  unfold resolveServerId
  split
  · exact ⟨rfl, rfl⟩
  · split <;> exact ⟨rfl, rfl⟩

theorem chat_env (s : St) (m : ℕ) (cached : Option (Finset Servers.Permission)) : SameEnv s (chat s m cached) := by
  unfold chat
  split
  · exact { resolveServerId_env s _ with }
  · split_ifs <;> exact ⟨rfl, rfl⟩
  · exact ⟨rfl, rfl⟩
  · dsimp only
    split_ifs <;> exact ⟨rfl, rfl⟩
  · split_ifs <;> exact ⟨rfl, rfl⟩
  · exact ⟨rfl, rfl⟩
  · exact ⟨rfl, rfl⟩
  · exact ⟨rfl, rfl⟩
  · exact ⟨rfl, rfl⟩

/-- only requests to the servers service and time change what is not the gateway's, presence's or chat's -/
theorem step_env {s : St} {o : Op} (hdb : ∀ q, o ≠ .servers q) (hnow : ∀ n, o ≠ .tick n) : SameEnv s (step s o) := by
  cases o with
  | servers q => exact absurd rfl (hdb q)
  | tick n => exact absurd rfl (hnow n)
  | heartbeat => exact ⟨rfl, rfl⟩
  | «open» | close | create => simp only [step]; split_ifs <;> exact ⟨rfl, rfl⟩
  | frame k inMsg =>
    simp only [step]
    split_ifs
    · exact dispatch_env s k inMsg
    · exact ⟨rfl, rfl⟩
  | advance k => exact advance_env s k
  | chat m cached => exact chat_env s m cached

theorem step_db {s : St} {o : Op} (h : ∀ q, o ≠ .servers q) : (step s o).db = s.db := by
  by_cases ht : ∃ n, o = .tick n
  · obtain ⟨n, rfl⟩ := ht
    rfl
  · exact (step_env h fun n e => ht ⟨n, e⟩).db

theorem step_now {s : St} {o : Op} (h : ∀ n, o ≠ .tick n) : (step s o).now = s.now := by
  by_cases hq : ∃ q, o = .servers q
  · obtain ⟨q, rfl⟩ := hq
    rfl
  · exact (step_env (fun q e => hq ⟨q, e⟩) h).now

/-- the request an operation makes to the servers service -/
def Op.request : Op → Option Servers.Request
  | .servers q => some q
  | _ => none

/-- **Projection.** The servers service runs as it does on its own, so what holds of every database it reaches holds
here. -/
theorem reached_db (ops : List Op) : (reached ops).db = Servers.reached (ops.filterMap Op.request) := by
  induction ops using List.reverseRecOn with
  | nil => rfl
  | append_singleton ops o ih =>
    rw [reached, run_snoc, List.filterMap_append]
    by_cases hq : ∃ q, o = .servers q
    · obtain ⟨q, rfl⟩ := hq
      exact (congrArg (Servers.step · q) ih).trans (run_snoc _ _ _ _).symm
    · have hnone : List.filterMap Op.request [o] = [] := by
        cases o with
        | servers q => exact absurd ⟨q, rfl⟩ hq
        | _ => rfl
      rw [step_db fun q e => hq ⟨q, e⟩, hnone, List.append_nil]
      exact ih

/-! ## A server to post on -/

/-- user 7 makes server 0 and its channel 3 -/
def homeRequests : List Servers.Request :=
  [.createServer (some "home") (Servers.Uuid.toString 7),
    .createChannel 0 (some "general") (some "TEXT") (Servers.Uuid.toString 7)]

/-- a message of user 7 on channel 3 is let through -/
theorem home_permits {s : St} {m : ℕ} (hdb : s.db = Servers.reached homeRequests)
    (hm : s.messages m = .resolved 7 3 (some 0)) : step s (.chat m none) = s.setMessage m (.fanout 3) := by
  have hw : mayWrite s 7 3 (some 0) none = true := by
    rw [mayWrite, hdb]
    exact Servers.checkPerm_allowed.2 ⟨3, 0, .write, ⟨by decide, by decide, by decide⟩, by decide, by decide⟩
  simp only [step, chat, hm, hw, if_true]

theorem home_run (ops : List Op) {m : ℕ} (hdb : ops.filterMap Op.request = homeRequests)
    (hm : (reached ops).messages m = .resolved 7 3 (some 0)) (rest : List Op) :
    reached (ops ++ Op.chat m none :: rest) = run step ((reached ops).setMessage m (.fanout 3)) rest := by
  rw [reached, run_append, run_cons, home_permits ((reached_db ops).trans (congrArg _ hdb)) hm]

end Concordia.Push
