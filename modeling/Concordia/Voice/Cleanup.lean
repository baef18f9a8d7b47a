/-
How a signaling handler ends (`signaling_endpoint` in `services/voice/signaling.py`): only a WebSocketDisconnect reaches
the code that takes the socket out of the registry and the user out of Redis.

- `crashed_iff`: the frames that raise something else.
- `cleanup_iff`: in a run every handler that ends has cleaned up iff a frame of that kind comes in only while its socket is
  not the registered one and its user is not in the channel's set. No frame ends another socket's handler.
- `left_behind`: a list instead of an object.
-/
import Concordia.Voice.Relaying

namespace Concordia.Voice

open Concordia.Lib

/-- the user is in `voice:channel:{c}:users` -/
def St.Member (s : St) (channelId userId : String) : Prop :=
  ((s.members channelId).bind fun users => users.value.get userId).isSome = true

instance (s : St) (c u : String) : Decidable (s.Member c u) := inferInstanceAs (Decidable (_ = true))

/-- the registry holds the socket nowhere -/
def St.Released (s : St) (k : ℕ) : Prop := ∀ c u, s.active.peer c u ≠ some k

/-- a handler that ends has taken its user out of the set, and its socket out of the registry for good -/
def CleansUp (env : Env) (now : ℕ) (ops : List Op) : Prop :=
  ∀ a o b t, ops = a ++ o :: b → (reached env now a).turn o = some t → t.after ≠ .listening →
    ¬(reached env now (a ++ [o])).Member t.channelId t.userId ∧
      ∀ b₁ b₂, b = b₁ ++ b₂ → (reached env now (a ++ o :: b₁)).Released t.socket

/-- no frame ends the handler of another socket -/
def Separate (env : Env) (now : ℕ) (ops : List Op) : Prop :=
  ∀ a o b t, ops = a ++ o :: b → (reached env now a).turn o = some t → ∀ k ≠ t.socket,
    (reached env now (a ++ [o])).sockets[k]? = (reached env now a).sockets[k]?

/-- the frame raises something that is no WebSocketDisconnect: it is no text, or no object, or its target is a list or an
object, or its one send raises such an error, as one to a socket does whose handler has ended -/
def Unhandled (s : St) (channelId : String) (frame : Frame) (outcome : SendOutcome) : Prop :=
  match frame with
  | .malformed => False
  | .raises => True
  | .json (.obj message) =>
    let target := (getItem "target_user_id" message).getD .null
    truthy target = true ∧ (hashable target = false ∨ outcome = .error ∨
      (outcome = .ok ∧ ∃ t ws, target = .str t ∧ s.active.peer channelId t = some ws ∧ s.isOpen ws = false))
  | .json _ => True

/-- where such a frame comes in, there is nothing to clean up -/
def Tidy (s : St) (o : Op) : Prop :=
  ∀ k frame outcome c u, o = .receive k frame outcome → s.Open c u k → Unhandled s c frame outcome →
    s.active.peer c u ≠ some k ∧ ¬s.Member c u

/-! ## Frames -/

theorem sendToPeer_cases (r : Registry ℕ) (c : String) (target : Value) :
    (hashable target = false ∧ r.sendToPeer c target = none) ∨
    (∃ t ws, target = .str t ∧ r.peer c t = some ws ∧ r.sendToPeer c target = some (some (t, ws))) ∨
    (hashable target = true ∧ (∀ t, target = .str t → r.peer c t = none) ∧ r.sendToPeer c target = some none) := by
  cases target with
  | arr items => exact .inl ⟨rfl, rfl⟩
  | obj members => exact .inl ⟨rfl, rfl⟩
  | null | bool | num => exact .inr (.inr ⟨rfl, by simp, rfl⟩)
  | str t =>
    cases hpeer : r.peer c t with
    | some ws => exact .inr (.inl ⟨t, ws, rfl, hpeer, by simp [Registry.sendToPeer, hashable, hpeer]⟩)
    | none => exact .inr (.inr ⟨rfl, by simp [hpeer], by simp [Registry.sendToPeer, hashable, hpeer]⟩)

/-- a send to an open socket raises nothing by itself -/
theorem receive_sendJson {s : St} {c u : String} {k : ℕ} {frame : Frame} {outcome : SendOutcome} {x : Sent ℕ}
    (h : relay s.active c u k frame outcome = sendJson outcome x) :
    (s.receive k c u frame outcome).after = .crashed ↔ outcome = .error ∨ (outcome = .ok ∧ s.isOpen x.socket = false) := by
  unfold St.receive
  rw [h]
  cases outcome with
  | ok => cases hws : s.isOpen x.socket <;> simp [sendJson, hws]
  | disconnect => simp [sendJson]
  | error => simp [sendJson]

theorem receive_nothing {s : St} {c u : String} {k : ℕ} {frame : Frame} {outcome : SendOutcome} {after : After}
    (h : relay s.active c u k frame outcome = (after, [])) : (s.receive k c u frame outcome).after = after := by
  unfold St.receive
  rw [h]
  rfl

/-- the handler ends without cleaning up exactly at an unhandled frame -/
theorem crashed_iff {s : St} {c u : String} {k : ℕ} (hopen : s.Open c u k) (frame : Frame) (outcome : SendOutcome) :
    (s.receive k c u frame outcome).after = .crashed ↔ Unhandled s c frame outcome := by
  cases frame with
  | malformed =>
    have hafter : (s.receive k c u .malformed outcome).after = .listening := receive_nothing rfl
    simp [hafter, Unhandled]
  | raises => exact iff_of_true (receive_nothing rfl) trivial
  | json value =>
    cases value with
    | null | bool | num | str | arr => exact iff_of_true (receive_nothing rfl) trivial
    | obj message =>
      simp only [Unhandled]
      generalize htarget : (getItem "target_user_id" message).getD .null = target
      by_cases htruthy : truthy target = true
      swap
      · have hrelay : relay s.active c u k (.json (.obj message)) outcome = (.listening, []) := by
          simp [relay, htarget, htruthy]
        simp [receive_nothing hrelay, htruthy]
      rcases sendToPeer_cases s.active c target with ⟨hhash, hto⟩ | ⟨t, ws, rfl, hpeer, hto⟩ | ⟨hhash, hnone, hto⟩
      · have hrelay : relay s.active c u k (.json (.obj message)) outcome = (.crashed, []) := by
          simp [relay, htarget, htruthy, hto]
        exact iff_of_true (receive_nothing hrelay) ⟨htruthy, .inl hhash⟩
      · have hrelay : relay s.active c u k (.json (.obj message)) outcome =
            sendJson outcome ⟨t, ws, some u, .obj (setItem "sender_user_id" (.str u) message)⟩ := by
          simp [relay, htarget, htruthy, hto]
        rw [receive_sendJson hrelay]
        simp [htruthy, hashable, hpeer]
      · -- the error goes to the socket itself, which is open
        have hrelay : relay s.active c u k (.json (.obj message)) outcome =
            sendJson outcome ⟨u, k, none, peerNotConnected⟩ := by
          simp [relay, htarget, htruthy, hto]
        rw [receive_sendJson hrelay]
        simp only [htruthy, hhash, isOpen_of_open hopen, true_and]
        refine ⟨fun h => .inr (.inl (h.resolve_right (by simp))), ?_⟩
        rintro (h | h | ⟨-, t, ws, rfl, hpeer, -⟩)
        · cases h
        · exact .inl h
        · rw [hnone t rfl] at hpeer
          cases hpeer

/-! ## The registry -/

/-- whoever is registered has been accepted for the user and the channel -/
def Registered (s : St) : Prop := ∀ c u k, s.active.peer c u = some k → ∃ ended, s.sockets[k]? = some ⟨c, u, ended⟩

theorem peer_take {s : St} {t : Turn} {c u : String} {k : ℕ} (h : (s.take t).active.peer c u = some k) :
    s.active.peer c u = some k := by
  unfold St.take at h
  cases hafter : t.after with
  | listening => rwa [hafter] at h
  | crashed => rwa [hafter] at h
  | disconnected =>
    rw [hafter] at h
    have hpeer := (Registry.peer_disconnect s.active t.channelId t.userId c u).symm.trans h
    split_ifs at hpeer
    exact hpeer

/-- an entry of the registry was there before, or has just been made for a socket accepted for it -/
theorem peer_step {env : Env} {s : St} {o : Op} {c u : String} {k : ℕ} (h : (step env s o).active.peer c u = some k) :
    s.active.peer c u = some k ∨ (k = s.sockets.length ∧ (step env s o).Open c u k) := by
  cases ht : s.turn o with
  | some t =>
    rw [step_of_turn ht] at h
    exact .inl (peer_take h)
  | none =>
    cases o with
    | join c' authorization allowed failing =>
      rw [step, (join_frame env s c' authorization allowed failing).1] at h
      exact .inl h
    | leave c' authorization failing =>
      rw [step, (leave_frame env s c' authorization failing).1] at h
      exact .inl h
    | connect c' authorization token =>
      cases hu : env.signalUserId s.now authorization token with
      | none =>
        rw [step, connect_refused hu] at h
        exact .inl h
      | some u' =>
        rw [step, connect_active hu, Registry.peer_connect] at h
        split_ifs at h with hcu
        · obtain ⟨rfl, rfl⟩ := hcu
          obtain rfl := Option.some.inj h
          exact .inr ⟨rfl, (open_connect hu).2 (.inr ⟨rfl, rfl, rfl⟩)⟩
        · exact .inl h
    | tick elapsed => exact .inl h
    | receive | hangup =>
      simp only [step, ht] at h
      exact .inl h

/-- a socket keeps its channel and its user -/
theorem socket_step (env : Env) {s : St} (o : Op) {c u : String} {k : ℕ} {ended : Bool}
    (h : s.sockets[k]? = some ⟨c, u, ended⟩) : ∃ ended', (step env s o).sockets[k]? = some ⟨c, u, ended'⟩ := by
  cases ht : s.turn o with
  | some t =>
    rw [step_of_turn ht]
    rcases sockets_take s t with hs | hs
    · exact ⟨ended, by rw [hs]; exact h⟩
    · rcases eq_or_ne k t.socket with rfl | hne
      · have hsame := Option.some.inj ((turn_open ht).symm.trans h)
        cases hsame
        have hlt : t.socket < s.sockets.length := (List.getElem?_eq_some_iff.1 h).1
        exact ⟨true, by rw [hs, List.getElem?_set_self hlt]⟩
      · exact ⟨ended, by rw [hs, List.getElem?_set_ne hne.symm]; exact h⟩
  | none =>
    cases o with
    | join c' authorization allowed failing =>
      exact ⟨ended, by rw [step, (join_frame env s c' authorization allowed failing).2]; exact h⟩
    | leave c' authorization failing =>
      exact ⟨ended, by rw [step, (leave_frame env s c' authorization failing).2]; exact h⟩
    | connect c' authorization token =>
      refine ⟨ended, ?_⟩
      cases hu : env.signalUserId s.now authorization token with
      | none =>
        rw [step, connect_refused hu]
        exact h
      | some u' =>
        simp only [step, connect, hu]
        rw [List.getElem?_append_left (List.getElem?_eq_some_iff.1 h).1]
        exact h
    | tick elapsed => exact ⟨ended, h⟩
    | receive | hangup =>
      simp only [step, ht]
      exact ⟨ended, h⟩

theorem registered_start (now : ℕ) : Registered (start now) := fun _ _ _ h => by cases h

theorem Registered.step {s : St} (h : Registered s) (env : Env) (o : Op) : Registered (step env s o) := by
  intro c u k hk
  rcases peer_step hk with hk | ⟨-, hopen⟩
  · obtain ⟨ended, hsocket⟩ := h c u k hk
    exact socket_step env o hsocket
  · exact ⟨false, hopen⟩

/-- a socket that the registry does not hold is never put there again -/
theorem released_run {env : Env} {s : St} {k : ℕ} (h : s.Released k) (hk : k < s.sockets.length) (ops : List Op) :
    (run (step env) s ops).Released k := by
  have hboth : (run (step env) s ops).Released k ∧ k < (run (step env) s ops).sockets.length := by
    refine run_inv' (I := fun s : St => s.Released k ∧ k < s.sockets.length) ?_ ⟨h, hk⟩ ops
    rintro s o ⟨hrel, hlt⟩
    refine ⟨fun c u hpeer => ?_, ?_⟩
    · rcases peer_step hpeer with hold | ⟨rfl, -⟩
      · exact hrel c u hold
      · exact absurd hlt (lt_irrefl _)
    · obtain ⟨⟨c, u, ended⟩, hsocket⟩ : ∃ x, s.sockets[k]? = some x := ⟨_, List.getElem?_eq_getElem hlt⟩
      obtain ⟨ended', hsocket'⟩ := socket_step env o hsocket
      exact (List.getElem?_eq_some_iff.1 hsocket').1
  exact hboth.1

/-! ## One end -/

/-- what an end leaves, at once -/
def Clean (s : St) (t : Turn) : Prop := ¬s.Member t.channelId t.userId ∧ s.Released t.socket

/-- an end by a WebSocketDisconnect cleans up -/
theorem clean_disconnected {s : St} {t : Turn} (h : Registered s) (hopen : s.Open t.channelId t.userId t.socket)
    (hafter : t.after = .disconnected) : Clean (s.take t) t := by
  have hactive : (s.take t).active = s.active.disconnect t.channelId t.userId := by
    unfold St.take
    rw [hafter]
    rfl
  have hmembers : (s.take t).members t.channelId = (s.members t.channelId).bind fun users =>
      if (users.value.pop t.userId).items.isEmpty then none
      else some { users with value := users.value.pop t.userId } := by
    unfold St.take
    rw [hafter]
    simp [St.finish, St.record, St.zrem]
  refine ⟨?_, ?_⟩
  · rw [St.Member, hmembers]
    cases s.members t.channelId with
    | none => simp
    | some users =>
      simp only [Option.bind_some]
      split_ifs <;> simp
  · intro c u hpeer
    rw [hactive, Registry.peer_disconnect] at hpeer
    split_ifs at hpeer with hcu
    obtain ⟨ended, hsocket⟩ := h c u _ hpeer
    have hsame := Option.some.inj (hopen.symm.trans hsocket)
    cases hsame
    exact hcu ⟨rfl, rfl⟩

/-- an end by another exception leaves what there was -/
theorem clean_crashed_iff {s : St} {t : Turn} (h : Registered s) (hopen : s.Open t.channelId t.userId t.socket)
    (hafter : t.after = .crashed) :
    Clean (s.take t) t ↔ s.active.peer t.channelId t.userId ≠ some t.socket ∧ ¬s.Member t.channelId t.userId := by
  have hactive : (s.take t).active = s.active := by
    unfold St.take
    rw [hafter]
    rfl
  have hmember : (s.take t).Member t.channelId t.userId ↔ s.Member t.channelId t.userId := by
    unfold St.take
    rw [hafter]
    exact Iff.rfl
  rw [Clean, hmember, St.Released, hactive]
  refine ⟨fun hclean => ⟨hclean.2 _ _, hclean.1⟩, fun hclean => ⟨hclean.2, fun c u hpeer => ?_⟩⟩
  obtain ⟨ended, hsocket⟩ := h c u _ hpeer
  have hsame := Option.some.inj (hopen.symm.trans hsocket)
  cases hsame
  exact hclean.1 hpeer

/-- the handler that an operation ends, if it does, is cleaned up after -/
def EndsClean (env : Env) (s : St) (o : Op) : Prop :=
  ∀ t, s.turn o = some t → t.after ≠ .listening → Clean (step env s o) t

theorem endsClean_iff {env : Env} {s : St} (h : Registered s) (o : Op) : EndsClean env s o ↔ Tidy s o := by
  cases o with
  | join | leave | connect | tick =>
    exact iff_of_true (fun t ht => by cases ht) (fun k frame outcome c u heq => by cases heq)
  | hangup k =>
    refine iff_of_true ?_ (fun k frame outcome c u heq => by cases heq)
    intro t ht _
    have hafter : t.after = .disconnected := by
      obtain ⟨x, -, rfl⟩ := Option.map_eq_some_iff.1 ht
      rfl
    rw [step_of_turn ht]
    exact clean_disconnected h (turn_open ht) hafter
  | receive k frame outcome =>
    refine ⟨?_, ?_⟩
    · intro hends k' frame' outcome' c u heq hopen hunhandled
      cases heq
      have ht := turn_receive hopen frame outcome
      have hafter := (crashed_iff hopen frame outcome).2 hunhandled
      have hclean := hends _ ht (by rw [hafter]; decide)
      rw [step_of_turn ht, clean_crashed_iff h (turn_open ht) hafter] at hclean
      obtain ⟨hk, hc, hu⟩ := receive_socket s k c u frame outcome
      rwa [hk, hc, hu] at hclean
    · intro htidy t ht hend
      have hopen := turn_open ht
      rw [step_of_turn ht]
      cases hafter : t.after with
      | listening => exact absurd hafter hend
      | disconnected => exact clean_disconnected h hopen hafter
      | crashed =>
        obtain ⟨x, -, heq⟩ := Option.map_eq_some_iff.1 ht
        obtain ⟨hk, hc, hu⟩ := receive_socket s k x.channelId x.userId frame outcome
        rw [clean_crashed_iff h hopen hafter, ← heq, hk, hc, hu]
        rw [← heq] at hopen hafter
        rw [hk, hc, hu] at hopen
        exact htidy k frame outcome x.channelId x.userId rfl hopen ((crashed_iff hopen frame outcome).1 hafter)

/-! ## Runs -/

theorem cleansUp_iff_along (env : Env) (now : ℕ) (ops : List Op) :
    CleansUp env now ops ↔ Along (step env) (EndsClean env) (start now) ops := by
  rw [along_iff_split]
  refine ⟨?_, ?_⟩
  · rintro h a o b hab t ht hend
    obtain ⟨hmember, hreleased⟩ := h a o b t hab ht hend
    have hnow := hreleased [] b rfl
    rw [reached, run_snoc] at hmember hnow
    exact ⟨hmember, hnow⟩
  · intro h a o b t hab ht hend
    obtain ⟨hmember, hreleased⟩ := h a o b hab t ht hend
    refine ⟨by rwa [reached, run_snoc], fun b₁ b₂ _ => ?_⟩
    have hlt : t.socket < (step env (run (step env) (start now) a) o).sockets.length := by
      obtain ⟨ended, hsocket⟩ := socket_step env o (turn_open ht)
      exact (List.getElem?_eq_some_iff.1 hsocket).1
    rw [reached, run_append, run_cons]
    exact released_run hreleased hlt b₁

theorem separate_run (env : Env) (now : ℕ) (ops : List Op) : Separate env now ops := by
  intro a o b t _ ht k hk
  rw [reached, run_snoc, ← reached, step_of_turn ht]
  rcases sockets_take (reached env now a) t with hs | hs
  · rw [hs]
  · rw [hs, List.getElem?_set_ne hk.symm]

/-- **Every handler cleans up** iff a frame that it does not handle comes in only where there is nothing to clean up; and
no frame ends another socket's handler. -/
theorem cleanup_iff (env : Env) (now : ℕ) (ops : List Op) :
    (CleansUp env now ops ↔ Along (step env) Tidy (start now) ops) ∧ Separate env now ops := by
  refine ⟨?_, separate_run env now ops⟩
  rw [cleansUp_iff_along]
  exact along_congr (I := Registered) (fun s o h => endsClean_iff h o) (fun s o h _ => h.step env o)
    (registered_start now) ops

/-- alice joins, opens her socket and sends `[]`: her handler has ended, and she is still registered and in the set -/
theorem left_behind :
    ¬CleansUp readable 0 [.join "lounge" (some "Bearer alice") true [], .connect "lounge" none (some "alice"),
      .receive 0 (.json (.arr [])) .ok] ∧
    (reached readable 0 [.join "lounge" (some "Bearer alice") true [], .connect "lounge" none (some "alice"),
      .receive 0 (.json (.arr [])) .ok]).active.peer "lounge" "alice" = some 0 ∧
    (reached readable 0 [.join "lounge" (some "Bearer alice") true [], .connect "lounge" none (some "alice"),
      .receive 0 (.json (.arr [])) .ok]).Member "lounge" "alice" := by
  have hmember : (reached readable 0 [.join "lounge" (some "Bearer alice") true [],
      .connect "lounge" none (some "alice"), .receive 0 (.json (.arr [])) .ok]).Member "lounge" "alice" := by decide
  refine ⟨?_, by decide, hmember⟩
  intro h
  exact (h [.join "lounge" (some "Bearer alice") true [], .connect "lounge" none (some "alice")]
    (.receive 0 (.json (.arr [])) .ok) [] ⟨0, "lounge", "alice", .crashed, []⟩ rfl rfl (by decide)).1 hmember

end Concordia.Voice
