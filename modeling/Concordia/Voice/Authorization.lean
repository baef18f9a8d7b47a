/-
Who takes part in a channel's signaling, against CheckPerm's answers, over whole runs of the voice service.

- `Authorized`: who is registered on a channel, is sent a message of it or has one relayed was allowed VOICE_JOIN there
  before.
- `Admitted`: a signaling socket is accepted only of a user who was allowed VOICE_JOIN before.
- `authorized_iff`: everybody is authorized in every state of a run exactly if the sockets of the run are admitted. `join`
  asks CheckPerm; `signaling_endpoint` asks for a token only.
-/
import Concordia.Voice.ActiveConnections

namespace Concordia.Voice

open Concordia.Lib

/-- CheckPerm has answered that the user may join the channel -/
def Allowed (log : List Event) (channelId userId : String) : Prop := .checked channelId userId true ∈ log

structure Authorized (s : St) : Prop where
  registered : ∀ c u k, s.active.peer c u = some k → Allowed s.log c u
  sent : ∀ before c x after, s.log = before ++ .sent c x :: after →
    Allowed before c x.recipient ∧ ∀ u, x.sender = some u → Allowed before c u

/-- a socket is accepted only of an allowed user -/
def Admitted (env : Env) (s : St) (o : Op) : Prop := ∀ c authorization token u, o = .connect c authorization token →
  env.signalUserId s.now authorization token = some u → Allowed s.log c u

/-- with everybody authorized, the users of open sockets too -/
structure Vouched (s : St) : Prop extends Authorized s where
  sockets : ∀ c u k, s.Open c u k → Allowed s.log c u

theorem Allowed.mono {log log' : List Event} {c u : String} (h : Allowed log c u) (hsub : log ⊆ log') :
    Allowed log' c u := hsub h

theorem vouched_start (now : ℕ) : Vouched (start now) := by
  refine ⟨⟨nofun, ?_⟩, nofun⟩
  intro before c x after h
  cases before <;> cases h

/-- an event in a longer log, in its old part or its new one -/
theorem sent_append {log new : List Event} {c : String} {x : Sent ℕ} {before after : List Event}
    (h : log ++ new = before ++ .sent c x :: after) :
    (∃ rest, log = before ++ .sent c x :: rest) ∨ (.sent c x ∈ new ∧ log ⊆ before) := by
  rcases List.append_eq_append_iff.1 h with ⟨mid, hbefore, hnew⟩ | ⟨mid, hlog, hmid⟩
  · right
    rw [hnew, hbefore]
    exact ⟨by simp, List.subset_append_left _ _⟩
  · cases mid with
    | nil =>
      right
      rw [← List.nil_append new, ← hmid, hlog, List.append_nil]
      exact ⟨List.mem_cons_self, fun _ he => he⟩
    | cons e mid =>
      left
      cases hmid
      exact ⟨mid, hlog⟩

/-- what is recorded is sent to allowed users and relays allowed users' messages -/
theorem Vouched.record {s : St} (h : Vouched s) {events : List Event} (hnew : ∀ c x, .sent c x ∈ events →
    Allowed s.log c x.recipient ∧ ∀ u, x.sender = some u → Allowed s.log c u) : Vouched (s.record events) := by
  have hmono : s.log ⊆ (s.record events).log := List.subset_append_left _ _
  refine ⟨⟨fun c u k hk => (h.registered c u k hk).mono hmono, ?_⟩, fun c u k hk => (h.sockets c u k hk).mono hmono⟩
  intro before c x after heq
  rcases sent_append heq with ⟨rest, hold⟩ | ⟨hmem, hsub⟩
  · exact h.sent before c x rest hold
  · obtain ⟨hrec, hsender⟩ := hnew c x hmem
    exact ⟨hrec.mono hsub, fun u hu => (hsender u hu).mono hsub⟩

/-- nobody more is registered, and no socket is opened -/
theorem Vouched.congr {s s' : St} (h : Vouched s) (hactive : ∀ c u k, s'.active.peer c u = some k →
    s.active.peer c u = some k) (hopen : ∀ c u k, s'.Open c u k → s.Open c u k) (hlog : s'.log = s.log) : Vouched s' := by
  refine ⟨⟨?_, ?_⟩, ?_⟩
  · rw [hlog]
    exact fun c u k hk => h.registered c u k (hactive c u k hk)
  · rw [hlog]
    exact h.sent
  · rw [hlog]
    exact fun c u k hk => h.sockets c u k (hopen c u k hk)

theorem Vouched.broadcast {s : St} (h : Vouched s) (message : Value) (c exclude : String) (failing : List ℕ) :
    Vouched (s.broadcast message c exclude failing) := by
  refine h.record ?_
  intro c' x hx
  obtain ⟨p, hp, heq⟩ := List.mem_map.1 hx
  cases heq
  exact ⟨h.registered c p.1 p.2 (Registry.mem_recipients.1 (List.mem_filter.1 hp).1).1, nofun⟩

theorem vouched_join {env : Env} {s : St} (h : Vouched s) (c : String) (authorization : Option String) (allowed : Bool)
    (failing : List ℕ) : Vouched (join env s c authorization allowed failing).2 := by
  unfold join
  cases env.getUserId s.now authorization with
  | none => exact h
  | some u =>
    have h1 : Vouched (s.record [.checked c u allowed]) := h.record (by simp)
    cases allowed with
    | false => exact h1
    | true =>
      obtain ⟨hactive, hsockets, -, hlog⟩ := enter_frame (s.record [.checked c u true]) c u
      have h2 : Vouched ((s.record [.checked c u true]).enter c u).2 :=
        h1.congr (fun _ _ _ hk => hactive ▸ hk) (fun _ _ _ hk => by unfold St.Open at hk; rwa [hsockets] at hk) hlog
      exact (h2.broadcast (participantJoined u) c u failing).record (by simp)

theorem vouched_leave {env : Env} {s : St} (h : Vouched s) (c : String) (authorization : Option String)
    (failing : List ℕ) : Vouched (leave env s c authorization failing).2 := by
  unfold leave
  cases env.getUserId s.now authorization with
  | none => exact h
  | some u =>
    have h1 : Vouched ((s.zrem c u).delete c u) := h.congr (fun _ _ _ hk => hk) (fun _ _ _ hk => hk) rfl
    exact (h1.broadcast (participantLeft u) c u failing).record (by simp)

/-- a turn sends to registered users, or to the socket's own user, in that user's name -/
theorem turn_sent {s : St} {o : Op} {t : Turn} (ht : s.turn o = some t) {x : Sent ℕ} (hx : x ∈ t.sent) :
    (s.active.peer t.channelId x.recipient = some x.socket ∧ x.sender = some t.userId) ∨
      (x.recipient = t.userId ∧ x.sender = none) := by
  cases o with
  | receive k frame outcome =>
    obtain ⟨y, -, rfl⟩ := Option.map_eq_some_iff.1 ht
    obtain ⟨-, hc, hu⟩ := receive_socket s k y.channelId y.userId frame outcome
    rw [hc, hu]
    unfold St.receive at hx
    have hrelay := @relay_sent ℕ s.active y.channelId y.userId k frame outcome x
    cases hr : relay s.active y.channelId y.userId k frame outcome with
    | mk after sent =>
      rw [hr] at hx hrelay
      simp only at hx
      split_ifs at hx
      · rcases hrelay hx with hreg | ⟨hrec, -, hsender, -⟩
        · exact Or.inl hreg
        · exact Or.inr ⟨hrec, hsender⟩
      · exact absurd hx List.not_mem_nil
  | hangup k =>
    obtain ⟨y, -, rfl⟩ := Option.map_eq_some_iff.1 ht
    exact absurd hx List.not_mem_nil
  | join | leave | connect | tick => cases ht

theorem vouched_finish {s : St} (h : Vouched s) (k : ℕ) (c u : String) (after : After) :
    Vouched (s.finish k c u after) := by
  have hclosed : ∀ {s' : St} {c' u' : String} {j : ℕ}, s'.sockets = s.sockets.set k ⟨c, u, true⟩ → s'.Open c' u' j →
      s.Open c' u' j := by
    intro s' c' u' j hs' hj
    unfold St.Open at hj
    rw [hs'] at hj
    exact (open_set.1 hj).1
  cases after with
  | listening => exact h
  | disconnected =>
    have hmid : Vouched (St.zrem { s with
        active := s.active.disconnect c u, sockets := s.sockets.set k ⟨c, u, true⟩ } c u) := by
      refine h.congr ?_ (fun _ _ _ hj => hclosed rfl hj) rfl
      intro c' u' j hj
      have hpeer := (Registry.peer_disconnect s.active c u c' u').symm.trans hj
      split_ifs at hpeer
      exact hpeer
    exact hmid.record (by simp)
  | crashed => exact h.congr (fun _ _ _ hj => hj) (fun _ _ _ hj => hclosed rfl hj) rfl

theorem vouched_take {s : St} (h : Vouched s) {o : Op} {t : Turn} (ht : s.turn o = some t) : Vouched (s.take t) := by
  refine vouched_finish (h.record ?_) t.socket t.channelId t.userId t.after
  intro c x hx
  obtain ⟨y, hy, heq⟩ := List.mem_map.1 hx
  cases heq
  have huser : Allowed s.log t.channelId t.userId := h.sockets _ _ _ (turn_open ht)
  rcases turn_sent ht hy with ⟨hreg, hsender⟩ | ⟨hrec, hsender⟩
  · refine ⟨h.registered _ _ _ hreg, fun u hu => ?_⟩
    rw [hsender] at hu
    cases hu
    exact huser
  · rw [hrec, hsender]
    exact ⟨huser, nofun⟩

theorem vouched_connect {env : Env} {s : St} (h : Vouched s) {c : String} {authorization token : Option String}
    (hadm : Admitted env s (.connect c authorization token)) : Vouched (connect env s c authorization token) := by
  cases hu : env.signalUserId s.now authorization token with
  | none =>
    rw [connect_refused hu]
    exact h
  | some u =>
    have huser : Allowed s.log c u := hadm c authorization token u rfl hu
    have hactive := connect_active hu c
    obtain ⟨-, -, -, hlog⟩ := connect_frame env s c authorization token
    refine ⟨⟨?_, ?_⟩, ?_⟩
    · intro c' u' k hk
      rw [hactive, Registry.peer_connect] at hk
      rw [hlog]
      split_ifs at hk with hcu
      · rw [hcu.1, hcu.2]
        exact huser
      · exact h.registered c' u' k hk
    · rw [hlog]
      exact h.sent
    · intro c' u' k hk
      rw [hlog]
      rcases (open_connect hu).1 hk with hk | ⟨-, rfl, rfl⟩
      · exact h.sockets c' u' k hk
      · exact huser

theorem vouched_step {env : Env} {s : St} (h : Vouched s) {o : Op} (hadm : Admitted env s o) :
    Vouched (step env s o) := by
  cases ht : s.turn o with
  | some t =>
    rw [step_of_turn ht]
    exact vouched_take h ht
  | none =>
    cases o with
    | join c authorization allowed failing => exact vouched_join h c authorization allowed failing
    | leave c authorization failing => exact vouched_leave h c authorization failing
    | connect c authorization token => exact vouched_connect h hadm
    | tick elapsed => exact h.congr (fun _ _ _ hk => hk) (fun _ _ _ hk => hk) rfl
    | receive | hangup =>
      simp only [step, ht]
      exact h

/-- a socket that is accepted is registered at once -/
theorem admitted_of_authorized {env : Env} {s : St} {o : Op} (h : Authorized (step env s o)) : Admitted env s o := by
  rintro c authorization token u rfl hu
  have hreg : (step env s (.connect c authorization token)).active.peer c u = some s.sockets.length := by
    simp only [step, connect_active hu, Registry.peer_connect, and_self, if_true]
  obtain ⟨-, -, -, hlog⟩ := connect_frame env s c authorization token
  rw [← hlog]
  exact h.registered c u _ hreg

/-- **Only users with VOICE_JOIN take part** in every state of a run exactly if every socket of the run is admitted. -/
theorem authorized_iff (env : Env) (now : ℕ) (ops : List Op) :
    (∀ a, a <+: ops → Authorized (run (step env) (start now) a)) ↔ Along (step env) (Admitted env) (start now) ops :=
  always_iff_along (I := Vouched) (P := Authorized)
    (fun _ _ h _ => ⟨admitted_of_authorized, fun hadm => (vouched_step h hadm).toAuthorized⟩)
    (fun _ _ h _ hadm => vouched_step h hadm) (vouched_start now) (vouched_start now).toAuthorized ops

/-- the user that an event allows -/
def Event.allows : Event → Option String
  | .checked _ userId true => some userId
  | _ => none

/-- mallory never joins, connects, and is sent bob's joining -/
theorem eavesdropped :
    let s := run (step readable) (start 0)
      [.connect "lounge" none (some "mallory"), .join "lounge" (some "Bearer bob") true []]
    (∃ x, .sent "lounge" x ∈ s.log ∧ x.recipient = "mallory") ∧ ¬ Authorized s := by
  intro s
  refine ⟨⟨⟨"mallory", 0, none, participantJoined "bob"⟩, ?_, rfl⟩, ?_⟩
  · have hlog : s.log = [.checked "lounge" "bob" true,
        .sent "lounge" ⟨"mallory", 0, none, participantJoined "bob"⟩, .joined "lounge" "bob" 0] := rfl
    rw [hlog]
    simp
  · intro h
    have hallowed := h.registered "lounge" "mallory" 0 (by decide)
    have hmem : some "mallory" ∈ s.log.map Event.allows := List.mem_map_of_mem hallowed
    exact absurd hmem (by decide)

end Concordia.Voice
