/-
What signaling delivers (`send_to_peer` and the loop of `signaling_endpoint` in `services/voice/signaling.py`), over whole
runs.

- `relay_object`: a frame with a target is one send, to the socket registered for the target, or of the error to the
  sender.
- `Genuine`: a message that names a sender comes from a frame on a socket that was accepted for that user.
- `relay_integrity`: both, for every run, every frame and every socket.

Each statement is about what `send_json` has put on a socket; a send that fails puts nothing there.
-/
import Concordia.Voice.ActiveConnections

namespace Concordia.Voice

open Concordia.Lib

/-! ## What is delivered -/

def Event.delivery : Event → Option (String × Sent ℕ)
  | .sent channelId x => some (channelId, x)
  | _ => none

/-- the messages that have been put on sockets between two states, with their channels -/
def delivered (s s' : St) : List (String × Sent ℕ) := (s'.log.drop s.log.length).filterMap Event.delivery

/-- the user that a message names as its sender -/
def senderOf : Value → Option Value
  | .obj message => getItem "sender_user_id" message
  | _ => none

/-- the object that was sent, with its sender's name put in -/
structure Relays (userId : String) (message : List (String × Value)) (x : Value) : Prop where
  sender : senderOf x = some (.str userId)
  others : ∃ members, x = .obj members ∧ ∀ key ≠ "sender_user_id", getItem key members = getItem key message

/-- what a frame with a target comes to: the message to the target's socket, or the error to the sender -/
def reply (r : Registry ℕ) (channelId userId : String) (k : ℕ) (message : List (String × Value)) (target : String) :
    Sent ℕ :=
  match r.peer channelId target with
  | some ws => ⟨target, ws, some userId, .obj (setItem "sender_user_id" (.str userId) message)⟩
  | none => ⟨userId, k, none, peerNotConnected⟩

/-! ## One frame -/

section

variable {s : St} {c u target : String} {k : ℕ} {message : List (String × Value)} {outcome : SendOutcome}

theorem relay_object {r : Registry ℕ} (htarget : getItem "target_user_id" message = some (.str target))
    (hne : target ≠ "") :
    relay r c u k (.json (.obj message)) outcome = sendJson outcome (reply r c u k message target) := by
  have htruthy : truthy (.str target) = true := by simpa [truthy] using hne
  simp only [relay, htarget, Option.getD_some, htruthy, if_true, Registry.sendToPeer, hashable, reply]
  cases r.peer c target <;> rfl

theorem relays_setItem (u : String) (message : List (String × Value)) :
    Relays u message (.obj (setItem "sender_user_id" (.str u) message)) :=
  ⟨getItem_setItem_self _ _ _, _, rfl, fun _ hkey => getItem_setItem_of_ne hkey _ _⟩

/-- no message that is relayed is the error -/
theorem Relays.ne_error {x : Value} (h : Relays u message x) : x ≠ peerNotConnected := by
  rintro rfl
  exact absurd h.sender (by simp [peerNotConnected, senderOf, getItem])

theorem receive_object (htarget : getItem "target_user_id" message = some (.str target)) (hne : target ≠ "") :
    (s.receive k c u (.json (.obj message)) outcome).sent =
      if outcome = .ok ∧ s.isOpen (reply s.active c u k message target).socket = true
        then [reply s.active c u k message target] else [] := by
  unfold St.receive
  rw [relay_object htarget hne]
  cases outcome with
  | ok =>
    simp only [sendJson, List.all_cons, List.all_nil, Bool.and_true, true_and]
    split_ifs <;> rfl
  | disconnect => rfl
  | error => rfl

/-- the loop puts its user's name into whatever it relays -/
theorem relay_named {r : Registry ℕ} {frame : Frame} {x : Sent ℕ} (hx : x ∈ (relay r c u k frame outcome).2) {v : Value}
    (hv : senderOf x.message = some v) : v = .str u := by
  unfold relay at hx
  split at hx
  · exact absurd hx List.not_mem_nil
  · exact absurd hx List.not_mem_nil
  · simp only at hx
    split_ifs at hx
    · split at hx
      · exact absurd hx List.not_mem_nil
      · obtain rfl := mem_sendJson hx
        exact (Option.some.inj ((getItem_setItem_self _ _ _).symm.trans hv)).symm
      · obtain rfl := mem_sendJson hx
        exact absurd hv (by simp [peerNotConnected, senderOf, getItem])
    · exact absurd hx List.not_mem_nil
  · exact absurd hx List.not_mem_nil

theorem turn_receive (hopen : s.Open c u k) (frame : Frame) (outcome : SendOutcome) :
    s.turn (.receive k frame outcome) = some (s.receive k c u frame outcome) := by
  unfold St.Open at hopen
  simp [St.turn, hopen]

theorem isOpen_of_open (hopen : s.Open c u k) : s.isOpen k = true := by
  unfold St.Open at hopen
  simp [St.isOpen, hopen]

theorem log_take (s : St) (t : Turn) : ∃ events, (s.take t).log = s.log ++ (t.sent.map (.sent t.channelId) ++ events) ∧
    events.filterMap Event.delivery = [] := by
  unfold St.take
  cases t.after with
  | listening => exact ⟨[], by simp [St.finish, St.record], rfl⟩
  | disconnected =>
    exact ⟨[.disconnected t.channelId t.userId], by simp [St.finish, St.record, St.zrem], rfl⟩
  | crashed => exact ⟨[], by simp [St.finish, St.record], rfl⟩

theorem delivered_take (t : Turn) : delivered s (s.take t) = t.sent.map fun x => (t.channelId, x) := by
  obtain ⟨events, hlog, hevents⟩ := log_take s t
  rw [delivered, hlog, List.drop_left, List.filterMap_append, hevents, List.append_nil, List.filterMap_map]
  simp [Event.delivery, Function.comp_def]

/-- the frame's one delivery, if its send goes through -/
theorem delivered_receive (env : Env) (outcome : SendOutcome) (hopen : s.Open c u k)
    (htarget : getItem "target_user_id" message = some (.str target)) (hne : target ≠ "") :
    delivered s (step env s (.receive k (.json (.obj message)) outcome)) =
      if outcome = .ok ∧ s.isOpen (reply s.active c u k message target).socket = true
        then [(c, reply s.active c u k message target)] else [] := by
  obtain ⟨-, hc, -⟩ := receive_socket s k c u (.json (.obj message)) outcome
  rw [step_of_turn (turn_receive hopen _ _), delivered_take, receive_object htarget hne, hc]
  split_ifs <;> rfl

end

/-! ## Relaying -/

/-- what a frame with a target delivers, when it comes in on socket `k` of user `u` on channel `c`: at most the object that
was sent, in `u`'s name and on the socket registered for the target; the error instead, to the socket itself, exactly where
nobody is registered -/
structure Relayed (s s' : St) (c u : String) (k : ℕ) (message : List (String × Value)) (target : String)
    (outcome : SendOutcome) : Prop where
  only : ∀ d ∈ delivered s s', (d.1 = c ∧ s.active.peer c target = some d.2.socket ∧ Relays u message d.2.message) ∨
    (s.active.peer c target = none ∧ d = (c, ⟨u, k, none, peerNotConnected⟩))
  /-- if the send goes through -/
  error_iff : outcome = .ok →
    ((c, ⟨u, k, none, peerNotConnected⟩) ∈ delivered s s' ↔ s.active.peer c target = none)
  /-- if the send goes through -/
  arrives : outcome = .ok → ∀ ws, s.active.peer c target = some ws → s.isOpen ws = true →
    ∃ x, delivered s s' = [(c, x)] ∧ x.socket = ws ∧ Relays u message x.message

/-! ## Whole runs -/

def reached (env : Env) (now : ℕ) (ops : List Op) : St := run (step env) (start now) ops

section

variable (env : Env) (now : ℕ)

/-- socket `k` was accepted on the channel for the user, by a token of the user's -/
def Accepted (ops : List Op) (c u : String) (k : ℕ) : Prop :=
  ∃ a authorization token b, ops = a ++ .connect c authorization token :: b ∧
    env.signalUserId (reached env now a).now authorization token = some u ∧ (reached env now a).sockets.length = k

/-- the sender that a message names is the user of the socket on which the frame came in -/
def Genuine (ops : List Op) (c : String) (x : Sent ℕ) : Prop :=
  ∀ v, senderOf x.message = some v → ∃ a k frame outcome b u, ops = a ++ .receive k frame outcome :: b ∧
    (reached env now a).Open c u k ∧ Accepted env now a c u k ∧ v = .str u

variable {env now}

theorem Accepted.snoc {ops : List Op} {c u : String} {k : ℕ} (h : Accepted env now ops c u k) (o : Op) :
    Accepted env now (ops ++ [o]) c u k := by
  obtain ⟨a, authorization, token, b, rfl, hu, hk⟩ := h
  exact ⟨a, authorization, token, b ++ [o], by simp, hu, hk⟩

theorem Genuine.snoc {ops : List Op} {c : String} {x : Sent ℕ} (h : Genuine env now ops c x) (o : Op) :
    Genuine env now (ops ++ [o]) c x := by
  intro v hv
  obtain ⟨a, k, frame, outcome, b, u, rfl, hopen, hacc, hvu⟩ := h v hv
  exact ⟨a, k, frame, outcome, b ++ [o], u, by simp, hopen, hacc, hvu⟩

theorem sockets_take (s : St) (t : Turn) : (s.take t).sockets = s.sockets ∨
    (s.take t).sockets = s.sockets.set t.socket ⟨t.channelId, t.userId, true⟩ := by
  unfold St.take
  cases t.after with
  | listening => exact .inl rfl
  | disconnected => exact .inr rfl
  | crashed => exact .inr rfl

/-- an open socket was open before, or has just been accepted -/
theorem open_step {s : St} {o : Op} {c u : String} {k : ℕ} (h : (step env s o).Open c u k) :
    s.Open c u k ∨ ∃ authorization token, o = .connect c authorization token ∧
      env.signalUserId s.now authorization token = some u ∧ s.sockets.length = k := by
  cases ht : s.turn o with
  | some t =>
    rw [step_of_turn ht] at h
    left
    unfold St.Open at h ⊢
    rcases sockets_take s t with hs | hs
    · rwa [hs] at h
    · rw [hs] at h
      exact (open_set.1 h).1
  | none =>
    cases o with
    | join c' authorization allowed failing =>
      left
      unfold St.Open at h ⊢
      rwa [step, (join_frame env s c' authorization allowed failing).2] at h
    | leave c' authorization failing =>
      left
      unfold St.Open at h ⊢
      rwa [step, (leave_frame env s c' authorization failing).2] at h
    | connect c' authorization token =>
      cases hu : env.signalUserId s.now authorization token with
      | none =>
        left
        simpa [step, connect, hu] using h
      | some u' =>
        rcases (open_connect hu).1 h with h | ⟨rfl, rfl, rfl⟩
        · exact .inl h
        · exact .inr ⟨authorization, token, rfl, hu, rfl⟩
    | tick elapsed => exact .inl h
    | receive | hangup =>
      simp only [step, ht] at h
      exact .inl h

theorem accepted_of_open {ops : List Op} {c u : String} {k : ℕ} (h : (reached env now ops).Open c u k) :
    Accepted env now ops c u k := by
  induction ops using List.reverseRecOn with
  | nil => cases h
  | append_singleton ops o ih =>
    rw [reached, run_snoc, ← reached] at h
    rcases open_step h with h | ⟨authorization, token, rfl, hu, hk⟩
    · exact (ih h).snoc o
    · exact ⟨ops, authorization, token, [], rfl, hu, hk⟩

/-- a turn's messages name the user of its socket, or nobody -/
theorem turn_named {s : St} {o : Op} {t : Turn} (ht : s.turn o = some t) {x : Sent ℕ} (hx : x ∈ t.sent) {v : Value}
    (hv : senderOf x.message = some v) : ∃ frame outcome, o = .receive t.socket frame outcome ∧ v = .str t.userId := by
  cases o with
  | receive k frame outcome =>
    obtain ⟨y, -, rfl⟩ := Option.map_eq_some_iff.1 ht
    obtain ⟨hk, -, hu⟩ := receive_socket s k y.channelId y.userId frame outcome
    rw [hk, hu]
    refine ⟨frame, outcome, rfl, ?_⟩
    have hsub : x ∈ (relay s.active y.channelId y.userId k frame outcome).2 := by
      unfold St.receive at hx
      simp only at hx
      split_ifs at hx
      · exact hx
      · exact absurd hx List.not_mem_nil
    exact relay_named hsub hv
  | hangup k =>
    obtain ⟨y, -, rfl⟩ := Option.map_eq_some_iff.1 ht
    exact absurd hx List.not_mem_nil
  | join | leave | connect | tick => cases ht

theorem mem_log_broadcast {s : St} {message : Value} {c exclude c' : String} {failing : List ℕ} {x : Sent ℕ}
    (h : .sent c' x ∈ (s.broadcast message c exclude failing).log) : .sent c' x ∈ s.log ∨ x.message = message := by
  rcases List.mem_append.1 h with h | h
  · exact .inl h
  · obtain ⟨p, -, heq⟩ := List.mem_map.1 h
    cases heq
    exact .inr rfl

/-- what is sent after a turn was sent before it, or in it -/
theorem mem_log_take {s : St} {t : Turn} {c : String} {x : Sent ℕ} (h : .sent c x ∈ (s.take t).log) :
    .sent c x ∈ s.log ∨ t.channelId = c ∧ x ∈ t.sent := by
  obtain ⟨events, hlog, hevents⟩ := log_take s t
  rw [hlog, List.mem_append, List.mem_append] at h
  rcases h with h | h | h
  · exact .inl h
  · obtain ⟨y, hy, heq⟩ := List.mem_map.1 h
    cases heq
    exact .inr ⟨rfl, hy⟩
  · have hmem : (c, x) ∈ events.filterMap Event.delivery := List.mem_filterMap.2 ⟨_, h, rfl⟩
    rw [hevents] at hmem
    cases hmem

/-- a notification names no sender -/
theorem senderOf_participant (u : String) :
    senderOf (participantJoined u) = none ∧ senderOf (participantLeft u) = none := by
  simp [participantJoined, participantLeft, senderOf, getItem]

/-- what a step has sent is a broadcast, which names no sender, or a turn's -/
theorem mem_log_step {s : St} {o : Op} {c : String} {x : Sent ℕ} (h : .sent c x ∈ (step env s o).log) :
    .sent c x ∈ s.log ∨ senderOf x.message = none ∨ ∃ t, s.turn o = some t ∧ t.channelId = c ∧ x ∈ t.sent := by
  cases ht : s.turn o with
  | some t =>
    rw [step_of_turn ht] at h
    rcases mem_log_take h with hold | hsent
    · exact .inl hold
    · exact .inr (.inr ⟨t, rfl, hsent⟩)
  | none =>
    cases o with
    | join c' authorization allowed failing =>
      simp only [step, join] at h
      cases hu : env.getUserId s.now authorization with
      | none =>
        rw [hu] at h
        exact .inl h
      | some u =>
        rw [hu] at h
        cases allowed with
        | false => exact .inl (by simpa [St.record] using h)
        | true =>
          obtain ⟨-, -, -, hlog⟩ := enter_frame (s.record [.checked c' u true]) c' u
          have hmem : .sent c x ∈ ((((s.record [.checked c' u true]).enter c' u).2).broadcast (participantJoined u) c' u
              failing).log := by simpa [St.record] using h
          rcases mem_log_broadcast hmem with hmem | hmessage
          · rw [hlog] at hmem
            exact .inl (by simpa [St.record] using hmem)
          · exact .inr (.inl (hmessage ▸ (senderOf_participant u).1))
    | leave c' authorization failing =>
      simp only [step, leave] at h
      cases hu : env.getUserId s.now authorization with
      | none =>
        rw [hu] at h
        exact .inl h
      | some u =>
        rw [hu] at h
        have hmem : .sent c x ∈ (((s.zrem c' u).delete c' u).broadcast (participantLeft u) c' u failing).log := by
          simpa [St.record] using h
        rcases mem_log_broadcast hmem with hmem | hmessage
        · exact .inl hmem
        · exact .inr (.inl (hmessage ▸ (senderOf_participant u).2))
    | connect c' authorization token =>
      obtain ⟨-, -, -, hlog⟩ := connect_frame env s c' authorization token
      exact .inl (hlog ▸ h)
    | tick elapsed => exact .inl h
    | receive | hangup =>
      simp only [step, ht] at h
      exact .inl h

/-- **No message names another sender** than the user of the socket it came in on. -/
theorem genuine_of_mem {ops : List Op} {c : String} {x : Sent ℕ} (h : .sent c x ∈ (reached env now ops).log) :
    Genuine env now ops c x := by
  induction ops using List.reverseRecOn with
  | nil => cases h
  | append_singleton ops o ih =>
    rw [reached, run_snoc, ← reached] at h
    rcases mem_log_step h with h | hnone | ⟨t, ht, rfl, hx⟩
    · exact (ih h).snoc o
    · intro v hv
      rw [hnone] at hv
      cases hv
    · intro v hv
      obtain ⟨frame, outcome, rfl, rfl⟩ := turn_named ht hx hv
      have hopen := turn_open ht
      exact ⟨ops, t.socket, frame, outcome, [], t.userId, rfl, hopen, accepted_of_open hopen, rfl⟩

theorem relayed {s : St} {c u target : String} {k : ℕ} {message : List (String × Value)} (outcome : SendOutcome)
    (hopen : s.Open c u k) (htarget : getItem "target_user_id" message = some (.str target)) (hne : target ≠ "") :
    Relayed s (step env s (.receive k (.json (.obj message)) outcome)) c u k message target outcome := by
  have hdelivered := delivered_receive env outcome hopen htarget hne
  cases hpeer : s.active.peer c target with
  | some ws =>
    have hreply : reply s.active c u k message target =
        ⟨target, ws, some u, .obj (setItem "sender_user_id" (.str u) message)⟩ := by rw [reply, hpeer]
    have hrelays := relays_setItem u message
    rw [hreply] at hdelivered
    refine ⟨?_, ?_, ?_⟩
    · intro d hd
      rw [hdelivered] at hd
      split_ifs at hd
      · obtain rfl := List.mem_singleton.1 hd
        exact .inl ⟨rfl, hpeer, hrelays⟩
      · cases hd
    · intro _
      refine iff_of_false ?_ (by rw [hpeer]; simp)
      intro herror
      rw [hdelivered] at herror
      split_ifs at herror
      · have hmessage := congrArg (fun d : String × Sent ℕ => d.2.message) (List.mem_singleton.1 herror)
        exact hrelays.ne_error hmessage.symm
      · cases herror
    · intro hok ws' hws' hwsopen
      rw [hpeer] at hws'
      cases hws'
      exact ⟨_, by rw [hdelivered, if_pos ⟨hok, hwsopen⟩], rfl, hrelays⟩
  | none =>
    have hreply : reply s.active c u k message target = ⟨u, k, none, peerNotConnected⟩ := by rw [reply, hpeer]
    rw [hreply] at hdelivered
    refine ⟨?_, ?_, ?_⟩
    · intro d hd
      rw [hdelivered] at hd
      split_ifs at hd
      · exact .inr ⟨hpeer, List.mem_singleton.1 hd⟩
      · cases hd
    · intro hok
      refine iff_of_true ?_ hpeer
      rw [hdelivered, if_pos ⟨hok, isOpen_of_open hopen⟩]
      exact List.mem_singleton.2 rfl
    · intro _ ws hws
      rw [hpeer] at hws
      cases hws

end

/-- In every run, a frame with a target that comes in on a socket of user `u` on channel `c` is relayed as it should, and
every message that has ever been delivered and names a sender names the user of the socket it came in on. -/
theorem relay_integrity (env : Env) (now : ℕ) (ops : List Op) (c u : String) (k : ℕ) (message : List (String × Value))
    (target : String) (outcome : SendOutcome) (hopen : (reached env now ops).Open c u k)
    (htarget : getItem "target_user_id" message = some (.str target)) (hne : target ≠ "") :
    Relayed (reached env now ops) (reached env now (ops ++ [.receive k (.json (.obj message)) outcome])) c u k message
        target outcome ∧
      ∀ d x, .sent d x ∈ (reached env now (ops ++ [.receive k (.json (.obj message)) outcome])).log →
        Genuine env now (ops ++ [.receive k (.json (.obj message)) outcome]) d x := by
  refine ⟨?_, fun d x hx => genuine_of_mem hx⟩
  rw [reached, reached, run_snoc]
  exact relayed outcome hopen htarget hne

/-- mallory writes to alice in bob's name; the message arrives in mallory's -/
theorem relay_integrity_spoof :
    let s := reached readable 0 [.connect "lounge" none (some "alice"), .connect "lounge" none (some "mallory")]
    let frame : List (String × Value) := [("target_user_id", .str "alice"), ("sender_user_id", .str "bob")]
    Relayed s (step readable s (.receive 1 (.json (.obj frame)) .ok)) "lounge" "mallory" 1 frame "alice" .ok :=
  (relay_integrity readable 0 [.connect "lounge" none (some "alice"), .connect "lounge" none (some "mallory")] "lounge"
    "mallory" 1 [("target_user_id", .str "alice"), ("sender_user_id", .str "bob")] "alice" .ok (by decide) rfl
    (by decide)).1

end Concordia.Voice
