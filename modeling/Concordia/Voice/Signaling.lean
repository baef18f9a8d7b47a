/-
The signaling side of the voice service (`services/voice/signaling.py`): the registry of sockets, and one turn of the loop
in `signaling_endpoint`.

- `Registry` is `active_connections`, generic in the sockets; `connect`, `disconnect`, `sendToPeer` and `recipients` are the
  methods of `ConnectionManager`. `peer` is the socket registered for a user on a channel.
- `relay` is one turn of the loop: a frame comes in, and the handler goes on listening or ends. It ends by a
  `WebSocketDisconnect`, which `signaling_endpoint` catches, or by any other exception, which nobody catches.
- `Env` is the environment variable JWT_SECRET and `jwt.decode`; `signalUserId` is the check before `connect`.

A frame stands for what `json.loads` makes of it: a dictionary is a list of members with distinct keys, in their order.
-/
import Concordia.Lib.Dict
import Concordia.Lib.Json

namespace Concordia.Voice

open Concordia.Lib

/-! ## Credentials -/

structure Env where
  /-- the environment variable -/
  jwtSecret : Option String
  /-- `jwt.decode` at a time, under a secret: the claim `sub`, where it does not raise -/
  decode : ℕ → String → String → Option (Option String)

/-- the text after `Bearer ` -/
def bearer (authorization : String) : Option String :=
  if "Bearer ".toList.isPrefixOf authorization.toList then some (String.ofList (authorization.toList.drop 7)) else none

/-- the first word of a text -/
def firstWord (s : String) : String := String.ofList (s.toList.takeWhile (· ≠ ' '))

/-- the user that `signaling_endpoint` accepts, by the header `authorization` or the parameter `token` -/
def Env.signalUserId (env : Env) (now : ℕ) (authorization token : Option String) : Option String := do
  let token ← ((authorization.bind bearer).map firstWord).orElse fun _ => token
  guard (token ≠ "")
  let sub ← env.decode now (env.jwtSecret.getD "default_secret") token
  sub.filter (· ≠ "")

/-! ## Registry -/

/-- channel to user to socket -/
abbrev Registry (σ : Type) := Dict String (Dict String σ)

namespace Registry

variable {σ : Type}

def connect (r : Registry σ) (channelId userId : String) (websocket : σ) : Registry σ :=
  let r := if (r.get channelId).isSome then r else r.set channelId Dict.empty
  r.set channelId (((r.get channelId).getD Dict.empty).set userId websocket)

def disconnect (r : Registry σ) (channelId userId : String) : Registry σ :=
  match r.get channelId with
  | none => r
  | some conns =>
    let r := r.set channelId (conns.pop userId)
    if (conns.pop userId).items.isEmpty then r.pop channelId else r

/-- the socket registered for a user on a channel -/
def peer (r : Registry σ) (channelId userId : String) : Option σ := (r.get channelId).bind (·.get userId)

/-- whom `broadcast` sends to, in order -/
def recipients (r : Registry σ) (channelId excludeUserId : String) : List (String × σ) :=
  ((r.get channelId).getD Dict.empty).items.filter fun p => p.1 ≠ excludeUserId

theorem peer_connect (r : Registry σ) (c u : String) (ws : σ) (c' u' : String) :
    (r.connect c u ws).peer c' u' = if c' = c ∧ u' = u then some ws else r.peer c' u' := by
  unfold connect peer
  by_cases hc : c' = c
  · subst hc
    by_cases hu : u' = u
    · subst hu
      simp
    · cases h : r.get c' with
      | none => simp [hu]
      | some conns => simp [h, hu]
  · cases h : r.get c with
    | none => simp [hc]
    | some conns => simp [h, hc]

theorem peer_disconnect (r : Registry σ) (c u c' u' : String) :
    (r.disconnect c u).peer c' u' = if c' = c ∧ u' = u then none else r.peer c' u' := by
  unfold disconnect peer
  cases h : r.get c with
  | none =>
    by_cases hc : c' = c
    · subst hc
      simp [h]
    · simp [hc]
  | some conns =>
    simp only
    by_cases hc : c' = c
    swap
    · split_ifs <;> simp_all
    subst hc
    split_ifs with hempty hu hu
    · simp
    · -- nobody else is left on the channel
      have hnone : conns.get u' = none := by
        rw [← Dict.get_pop_of_ne (d := conns) (k := u) (fun h => hu ⟨rfl, h⟩)]
        exact Dict.eq_empty_iff.1 (List.isEmpty_iff.1 hempty) u'
      simp [h, hnone]
    · simp [hu.2]
    · have hne : u' ≠ u := fun heq => hu ⟨rfl, heq⟩
      simp [h, hne]

theorem mem_recipients {r : Registry σ} {c exclude : String} {p : String × σ} :
    p ∈ r.recipients c exclude ↔ r.peer c p.1 = some p.2 ∧ p.1 ≠ exclude := by
  unfold recipients peer
  rw [List.mem_filter, show p = (p.1, p.2) from rfl, Dict.mem_items]
  cases r.get c <;> simp

/-- no channel is kept without a socket -/
def NoEmpty (r : Registry σ) : Prop := ∀ c conns, r.get c = some conns → conns.items ≠ []

theorem noEmpty_empty : NoEmpty (Dict.empty : Registry σ) := by
  intro c conns h
  cases h

theorem NoEmpty.connect {r : Registry σ} (h : r.NoEmpty) (c u : String) (ws : σ) : (r.connect c u ws).NoEmpty := by
  intro c' conns hget
  unfold Registry.connect at hget
  by_cases hc : c' = c
  · subst hc
    simp only [Dict.get_set_self, Option.some.injEq] at hget
    rw [← hget]
    exact Dict.set_items_ne _ _ _
  · rw [Dict.get_set_of_ne hc] at hget
    split_ifs at hget
    · exact h c' conns hget
    · rw [Dict.get_set_of_ne hc] at hget
      exact h c' conns hget

theorem NoEmpty.disconnect {r : Registry σ} (h : r.NoEmpty) (c u : String) : (r.disconnect c u).NoEmpty := by
  intro c' conns' hget
  unfold Registry.disconnect at hget
  cases hr : r.get c with
  | none =>
    rw [hr] at hget
    exact h c' conns' hget
  | some conns =>
    simp only [hr] at hget
    by_cases hc : c' = c
    · subst hc
      split_ifs at hget with hempty
      · simp at hget
      · simp only [Dict.get_set_self, Option.some.injEq] at hget
        rw [← hget]
        simpa using hempty
    · split_ifs at hget with hempty
      · rw [Dict.get_pop_of_ne hc, Dict.get_set_of_ne hc] at hget
        exact h c' conns' hget
      · rw [Dict.get_set_of_ne hc] at hget
        exact h c' conns' hget

end Registry

/-! ## Messages -/

/-- a number as `json.loads` returns it -/
inductive Number where
  | int (n : ℤ)
  /-- the 64 bits of a double -/
  | float (bits : ℕ)
deriving DecidableEq, Repr

def Number.truthy : Number → Bool
  | .int n => n ≠ 0
  -- the sign of a zero does not count
  | .float bits => bits % 2 ^ 63 ≠ 0

abbrev Value := Json Number

/-- `if value:` -/
def truthy : Value → Bool
  | .null => false
  | .bool b => b
  | .num n => n.truthy
  | .str s => s ≠ ""
  | .arr items => !items.isEmpty
  | .obj members => !members.isEmpty

/-- lists and dictionaries are no keys of a dictionary -/
def hashable : Value → Bool
  | .arr _ | .obj _ => false
  | _ => true

def peerNotConnected : Value := .obj [("type", .str "error"), ("reason", .str "peer not connected")]

def participantJoined (userId : String) : Value := .obj [("type", .str "participant_joined"), ("user_id", .str userId)]

def participantLeft (userId : String) : Value := .obj [("type", .str "participant_left"), ("user_id", .str userId)]

/-! ## The loop -/

/-- what `receive_text` and `json.loads` make of a frame -/
inductive Frame where
  | malformed
  | json (value : Value)
  /-- no text, or `json.loads` raises something else than JSONDecodeError -/
  | raises

/-- what a `send_json` comes to -/
inductive SendOutcome where
  | ok
  /-- it raises WebSocketDisconnect -/
  | disconnect
  /-- it raises another exception -/
  | error
deriving DecidableEq, Repr

/-- whether a handler goes on -/
inductive After where
  | listening
  /-- it ends by a WebSocketDisconnect -/
  | disconnected
  /-- it ends by another exception -/
  | crashed
deriving DecidableEq, Repr

/-- a message put on a socket, and for whom; `sender` is whose message it relays -/
structure Sent (σ : Type) where
  recipient : String
  socket : σ
  sender : Option String
  message : Value

variable {σ : Type}

def sendJson (outcome : SendOutcome) (x : Sent σ) : After × List (Sent σ) :=
  match outcome with
  | .ok => (.listening, [x])
  | .disconnect => (.disconnected, [])
  | .error => (.crashed, [])

/-- `send_to_peer` up to its send: the target's socket; nothing where it raises TypeError -/
def Registry.sendToPeer (r : Registry σ) (channelId : String) (target : Value) : Option (Option (String × σ)) :=
  if hashable target then
    match target with
    | .str targetUserId => some ((r.peer channelId targetUserId).map fun ws => (targetUserId, ws))
    | _ => some none
  else none

/-- one turn of the loop in `signaling_endpoint`; `outcome` is what its one send comes to -/
def relay (r : Registry σ) (channelId userId : String) (websocket : σ) (frame : Frame) (outcome : SendOutcome) :
    After × List (Sent σ) :=
  match frame with
  | .malformed => (.listening, [])
  | .raises => (.crashed, [])
  | .json (.obj message) =>
    let target := (getItem "target_user_id" message).getD .null
    if truthy target then
      let message := setItem "sender_user_id" (.str userId) message
      match r.sendToPeer channelId target with
      | none => (.crashed, [])
      | some (some (targetUserId, ws)) => sendJson outcome ⟨targetUserId, ws, some userId, .obj message⟩
      | some none => sendJson outcome ⟨userId, websocket, none, peerNotConnected⟩
    else (.listening, [])
  -- only a dictionary has `get`
  | .json _ => (.crashed, [])

theorem mem_sendJson {outcome : SendOutcome} {x y : Sent σ} (h : x ∈ (sendJson outcome y).2) : x = y := by
  cases outcome with
  | ok => exact List.mem_singleton.1 h
  | disconnect => exact absurd h List.not_mem_nil
  | error => exact absurd h List.not_mem_nil

/-- **relay** sends to the target's socket in the user's name, or the error to the user, or nothing. -/
theorem relay_sent {r : Registry σ} {c u : String} {ws : σ} {frame : Frame} {outcome : SendOutcome} {x : Sent σ}
    (h : x ∈ (relay r c u ws frame outcome).2) :
    (r.peer c x.recipient = some x.socket ∧ x.sender = some u) ∨
      (x.recipient = u ∧ x.socket = ws ∧ x.sender = none ∧ x.message = peerNotConnected) := by
  unfold relay at h
  split at h
  · exact absurd h List.not_mem_nil
  · exact absurd h List.not_mem_nil
  · simp only at h
    split_ifs at h
    · split at h
      · exact absurd h List.not_mem_nil
      · rename_i targetUserId ws' hto
        obtain rfl := mem_sendJson h
        refine Or.inl ⟨?_, rfl⟩
        unfold Registry.sendToPeer at hto
        split_ifs at hto
        split at hto
        · rename_i t
          obtain ⟨w, hw, heq⟩ := Option.map_eq_some_iff.1 (Option.some.inj hto)
          cases heq
          exact hw
        · cases hto
      · obtain rfl := mem_sendJson h
        exact Or.inr ⟨rfl, rfl, rfl, rfl⟩
    · exact absurd h List.not_mem_nil
  · exact absurd h List.not_mem_nil

end Concordia.Voice
