/-
The voice service (`services/voice/main.py`, `signaling.py`) as one state: its two kinds of Redis keys, its sockets, and
what it has answered and sent.

- `Key` is a Redis key with its expiry; `tick` lets time pass and removes what has expired. Keys are named by the channel
  and the user, whose texts name one key only since a user id, a UUID, has no colon (`sessionKey_inj`).
- `join`, `leave` and `participants` are the HTTP endpoints, each carried out at once.
- `connect`, `receive` and `hangup` are a signaling socket's handshake, a frame that comes in, and its end; `finish` is what
  `signaling_endpoint` does when its loop ends.
- An operation carries what the outside decides: CheckPerm's answer, and which sends fail.
- Times are in microseconds, as `datetime` has them. `joined_at` and the score of a member are such a time; as text and as a
  double they read back exactly. Audit events are left out.
-/
import Concordia.Lib.Run
import Concordia.Voice.Signaling

namespace Concordia.Voice

open Concordia.Lib

/-! ## Data -/

structure Key (α : Type) where
  value : α
  expiresAt : Option ℕ

def Key.expired {α : Type} (k : Key α) (now : ℕ) : Bool := k.expiresAt.any (· ≤ now)

/-- the hash of a session -/
structure Session where
  sessionId : ℕ
  joinedAt : ℕ
deriving DecidableEq, Repr

/-- 4 hours -/
def sessionTtl : ℕ := 4 * 60 * 60 * 10 ^ 6

structure Socket where
  channelId : String
  userId : String
  /-- its handler has ended -/
  ended : Bool
deriving DecidableEq, Repr

inductive Event where
  /-- CheckPerm's answer for VOICE_JOIN -/
  | checked (channelId userId : String) (allowed : Bool)
  /-- the answer of a join -/
  | joined (channelId userId : String) (joinedAt : ℕ)
  | left (channelId userId : String)
  /-- a handler has ended by a WebSocketDisconnect -/
  | disconnected (channelId userId : String)
  | sent (channelId : String) (x : Sent ℕ)

structure St where
  now : ℕ
  /-- how many UUIDs have been drawn -/
  drawn : ℕ
  active : Registry ℕ
  /-- accepted sockets, by number -/
  sockets : List Socket
  /-- `voice:channel:{c}:users` -/
  members : String → Option (Key (Dict String ℕ))
  /-- `voice:session:{c}:{u}` -/
  sessions : String × String → Option (Key Session)
  log : List Event

def start (now : ℕ) : St := ⟨now, 0, Dict.empty, [], fun _ => none, fun _ => none, []⟩

/-- the text that names a session's key -/
def sessionKey (channelId userId : String) : String := "voice:session:" ++ channelId ++ ":" ++ userId

theorem sessionKey_inj {c c' u u' : String} (hu : ':' ∉ u.toList) (hu' : ':' ∉ u'.toList)
    (h : sessionKey c u = sessionKey c' u') : c = c' ∧ u = u' := by
  change "voice:session:" ++ c ++ ":" ++ u = "voice:session:" ++ c' ++ ":" ++ u' at h
  have hlist := congrArg String.toList h
  simp only [String.toList_append, List.append_assoc, List.append_cancel_left_eq] at hlist
  -- read from the end, the first colon ends the user id
  have htake : ∀ {u c : List Char}, ':' ∉ u → (u.reverse ++ ':' :: c).takeWhile (· ≠ ':') = u.reverse := by
    intro u c hu
    rw [List.takeWhile_append_of_pos, List.takeWhile_cons_of_neg, List.append_nil]
    · simp
    · intro x hx
      have hne : x ≠ ':' := fun heq => hu (heq ▸ List.mem_reverse.1 hx)
      simpa using hne
  have hrev := congrArg List.reverse hlist
  simp only [List.reverse_append, List.append_assoc] at hrev
  change u.toList.reverse ++ ':' :: c.toList.reverse = u'.toList.reverse ++ ':' :: c'.toList.reverse at hrev
  have huu : u.toList.reverse = u'.toList.reverse := by
    rw [← htake (c := c.toList.reverse) hu, ← htake (c := c'.toList.reverse) hu', hrev]
  rw [huu, List.append_cancel_left_eq, List.cons.injEq] at hrev
  exact ⟨String.toList_inj.1 (List.reverse_injective hrev.2), String.toList_inj.1 (List.reverse_injective huu)⟩

/-- the order of a sorted set: by score, and by name where the scores are equal -/
def byScore (users : Dict String ℕ) : List (String × ℕ) :=
  users.items.insertionSort fun a b => a.2 < b.2 ∨ (a.2 = b.2 ∧ a.1 ≤ b.1)

namespace St

/-! ## Redis -/

def hgetall (s : St) (channelId userId : String) : Option Session := (s.sessions (channelId, userId)).map Key.value

def hset (s : St) (channelId userId : String) (session : Session) : St :=
  { s with
    sessions := Function.update s.sessions (channelId, userId)
      (some ⟨session, (s.sessions (channelId, userId)).bind Key.expiresAt⟩) }

/-- DEL of a session -/
def delete (s : St) (channelId userId : String) : St :=
  { s with sessions := Function.update s.sessions (channelId, userId) none }

def zadd (s : St) (channelId userId : String) (score : ℕ) : St :=
  { s with
    members := Function.update s.members channelId
      (some ⟨(((s.members channelId).map Key.value).getD Dict.empty).set userId score,
        (s.members channelId).bind Key.expiresAt⟩) }

/-- a sorted set without members is no key -/
def zrem (s : St) (channelId userId : String) : St :=
  { s with
    members := Function.update s.members channelId ((s.members channelId).bind fun k =>
      if (k.value.pop userId).items.isEmpty then none else some { k with value := k.value.pop userId }) }

/-- ZRANGE 0 -1 WITHSCORES -/
def zrange (s : St) (channelId : String) : List (String × ℕ) :=
  byScore (((s.members channelId).map Key.value).getD Dict.empty)

def expireMembers (s : St) (channelId : String) : St :=
  { s with
    members := Function.update s.members channelId
      ((s.members channelId).map fun k => { k with expiresAt := some (s.now + sessionTtl) }) }

def expireSession (s : St) (channelId userId : String) : St :=
  { s with
    sessions := Function.update s.sessions (channelId, userId)
      ((s.sessions (channelId, userId)).map fun k => { k with expiresAt := some (s.now + sessionTtl) }) }

def tick (s : St) (elapsed : ℕ) : St :=
  { s with
    now := s.now + elapsed
    members := fun c => (s.members c).filter fun k => !k.expired (s.now + elapsed)
    sessions := fun x => (s.sessions x).filter fun k => !k.expired (s.now + elapsed) }

/-! ## Sockets -/

/-- socket `k` is an open one of the user on the channel -/
def Open (s : St) (channelId userId : String) (k : ℕ) : Prop := s.sockets[k]? = some ⟨channelId, userId, false⟩

instance (s : St) (c u : String) (k : ℕ) : Decidable (s.Open c u k) := by unfold Open; infer_instance

def isOpen (s : St) (k : ℕ) : Bool := s.sockets[k]?.any fun x => !x.ended

def record (s : St) (events : List Event) : St := { s with log := s.log ++ events }

/-- what a `broadcast` sends; a send that fails is passed over -/
def broadcast (s : St) (message : Value) (channelId excludeUserId : String) (failing : List ℕ) : St :=
  s.record (((s.active.recipients channelId excludeUserId).filter fun p => s.isOpen p.2 && !failing.contains p.2).map
    fun p => .sent channelId ⟨p.1, p.2, none, message⟩)

end St

/-! ## HTTP -/

/-- the check in front of the HTTP endpoints; a request without the header counts as one with an empty header -/
def Env.getUserId (env : Env) (now : ℕ) (authorization : Option String) : Option String := do
  let token ← bearer (authorization.getD "")
  let secret := env.jwtSecret.getD ""
  guard (secret ≠ "")
  let sub ← env.decode now secret token
  sub.filter (· ≠ "")

structure HttpException where
  statusCode : ℕ
  detail : String
deriving DecidableEq, Repr

structure JoinResponse where
  sessionId : ℕ
  channelId : String
  userId : String
  joinedAt : ℕ
deriving DecidableEq, Repr

structure ParticipantEntry where
  userId : String
  joinedAt : ℕ
deriving DecidableEq, Repr

/-- the stores' part of a join, and the session it answers with -/
def St.enter (s : St) (channelId userId : String) : Session × St :=
  match s.hgetall channelId userId with
  | some existing =>
    (existing, (((s.zadd channelId userId s.now).expireMembers channelId).expireSession channelId userId))
  | none =>
    let session : Session := ⟨s.drawn, s.now⟩
    let s := { s.hset channelId userId session with drawn := s.drawn + 1 }
    (session, ((s.zadd channelId userId s.now).expireMembers channelId).expireSession channelId userId)

/-- `allowed` is CheckPerm's answer, false where the call fails -/
def join (env : Env) (s : St) (channelId : String) (authorization : Option String) (allowed : Bool) (failing : List ℕ) :
    Except HttpException JoinResponse × St :=
  match env.getUserId s.now authorization with
  | none => (.error ⟨401, "unauthorized"⟩, s)
  | some userId =>
    let s := s.record [.checked channelId userId allowed]
    if allowed then
      let (session, s) := s.enter channelId userId
      let s := s.broadcast (participantJoined userId) channelId userId failing
      (.ok ⟨session.sessionId, channelId, userId, session.joinedAt⟩, s.record [.joined channelId userId session.joinedAt])
    else (.error ⟨403, "forbidden"⟩, s)

def leave (env : Env) (s : St) (channelId : String) (authorization : Option String) (failing : List ℕ) :
    Except HttpException Unit × St :=
  match env.getUserId s.now authorization with
  | none => (.error ⟨401, "unauthorized"⟩, s)
  | some userId =>
    let s := (s.zrem channelId userId).delete channelId userId
    let s := s.broadcast (participantLeft userId) channelId userId failing
    (.ok (), s.record [.left channelId userId])

/-- `allowed` is CheckPerm's answer for READ -/
def participants (env : Env) (s : St) (channelId : String) (authorization : Option String) (allowed : Bool) :
    Except HttpException (List ParticipantEntry) :=
  match env.getUserId s.now authorization with
  | none => .error ⟨401, "unauthorized"⟩
  | some _ =>
    if allowed then .ok ((s.zrange channelId).map fun p => ⟨p.1, p.2⟩) else .error ⟨403, "forbidden"⟩

/-! ## Signaling -/

/-- the handshake of a signaling socket -/
def connect (env : Env) (s : St) (channelId : String) (authorization token : Option String) : St :=
  match env.signalUserId s.now authorization token with
  | none => s
  | some userId => { s with
    sockets := s.sockets ++ [⟨channelId, userId, false⟩]
    active := s.active.connect channelId userId s.sockets.length }

/-- the end of socket `k`'s loop: only a WebSocketDisconnect is caught, and cleaned up after -/
def St.finish (s : St) (k : ℕ) (channelId userId : String) : After → St
  | .listening => s
  | .disconnected =>
    let s := { s with active := s.active.disconnect channelId userId, sockets := s.sockets.set k ⟨channelId, userId, true⟩ }
    (s.zrem channelId userId).record [.disconnected channelId userId]
  | .crashed => { s with sockets := s.sockets.set k ⟨channelId, userId, true⟩ }

inductive Op where
  | join (channelId : String) (authorization : Option String) (allowed : Bool) (failing : List ℕ)
  | leave (channelId : String) (authorization : Option String) (failing : List ℕ)
  | connect (channelId : String) (authorization token : Option String)
  | receive (k : ℕ) (frame : Frame) (outcome : SendOutcome)
  | hangup (k : ℕ)
  | tick (elapsed : ℕ)

/-- a turn of an open socket's loop: what it sends, and whether it is the last -/
structure Turn where
  socket : ℕ
  channelId : String
  userId : String
  after : After
  sent : List (Sent ℕ)

/-- a frame that comes in; a send to a socket that has ended raises -/
def St.receive (s : St) (k : ℕ) (channelId userId : String) (frame : Frame) (outcome : SendOutcome) : Turn :=
  let (after, sent) := relay s.active channelId userId k frame outcome
  if sent.all fun x => s.isOpen x.socket then ⟨k, channelId, userId, after, sent⟩ else ⟨k, channelId, userId, .crashed, []⟩

/-- the turn that an operation is -/
def St.turn (s : St) : Op → Option Turn
  | .receive k frame outcome =>
    (s.sockets[k]?.filter fun x => !x.ended).map fun x => s.receive k x.channelId x.userId frame outcome
  | .hangup k => (s.sockets[k]?.filter fun x => !x.ended).map fun x => ⟨k, x.channelId, x.userId, .disconnected, []⟩
  | _ => none

/-- the turn carried out -/
def St.take (s : St) (t : Turn) : St :=
  (s.record (t.sent.map (.sent t.channelId))).finish t.socket t.channelId t.userId t.after

def step (env : Env) (s : St) (o : Op) : St :=
  match o with
  | .join channelId authorization allowed failing => (join env s channelId authorization allowed failing).2
  | .leave channelId authorization failing => (leave env s channelId authorization failing).2
  | .connect channelId authorization token => connect env s channelId authorization token
  | .receive _ _ _ | .hangup _ => ((s.turn o).map s.take).getD s
  | .tick elapsed => s.tick elapsed

/-! ## What an operation leaves alone -/

theorem enter_frame (s : St) (c u : String) : (s.enter c u).2.active = s.active ∧ (s.enter c u).2.sockets = s.sockets ∧
    (s.enter c u).2.now = s.now ∧ (s.enter c u).2.log = s.log := by
  unfold St.enter
  cases s.hgetall c u with
  | none => exact ⟨rfl, rfl, rfl, rfl⟩
  | some existing => exact ⟨rfl, rfl, rfl, rfl⟩

theorem join_frame (env : Env) (s : St) (c : String) (authorization : Option String) (allowed : Bool)
    (failing : List ℕ) : (join env s c authorization allowed failing).2.active = s.active ∧
      (join env s c authorization allowed failing).2.sockets = s.sockets := by
  unfold join
  cases env.getUserId s.now authorization with
  | none => exact ⟨rfl, rfl⟩
  | some userId =>
    cases allowed with
    | false => exact ⟨rfl, rfl⟩
    | true =>
      obtain ⟨hactive, hsockets, -, -⟩ := enter_frame (s.record [.checked c userId true]) c userId
      exact ⟨hactive, hsockets⟩

theorem leave_frame (env : Env) (s : St) (c : String) (authorization : Option String) (failing : List ℕ) :
    (leave env s c authorization failing).2.active = s.active ∧
      (leave env s c authorization failing).2.sockets = s.sockets := by
  unfold leave
  cases env.getUserId s.now authorization with
  | none => exact ⟨rfl, rfl⟩
  | some userId => exact ⟨rfl, rfl⟩

/-- a handshake without a user changes nothing -/
theorem connect_refused {env : Env} {s : St} {authorization token : Option String}
    (hu : env.signalUserId s.now authorization token = none) (c : String) : connect env s c authorization token = s := by
  rw [connect, hu]

theorem connect_active {env : Env} {s : St} {authorization token : Option String} {u : String}
    (hu : env.signalUserId s.now authorization token = some u) (c : String) :
    (connect env s c authorization token).active = s.active.connect c u s.sockets.length := by
  rw [connect, hu]

/-- a handshake changes the registry and the sockets -/
theorem connect_frame (env : Env) (s : St) (c : String) (authorization token : Option String) :
    (connect env s c authorization token).members = s.members ∧
      (connect env s c authorization token).sessions = s.sessions ∧
      (connect env s c authorization token).now = s.now ∧ (connect env s c authorization token).log = s.log := by
  unfold connect
  cases env.signalUserId s.now authorization token with
  | none => exact ⟨rfl, rfl, rfl, rfl⟩
  | some userId => exact ⟨rfl, rfl, rfl, rfl⟩

theorem receive_socket (s : St) (k : ℕ) (c u : String) (frame : Frame) (outcome : SendOutcome) :
    (s.receive k c u frame outcome).socket = k ∧ (s.receive k c u frame outcome).channelId = c ∧
      (s.receive k c u frame outcome).userId = u := by
  unfold St.receive
  cases relay s.active c u k frame outcome with
  | mk after sent =>
    simp only
    split_ifs
    · exact ⟨rfl, rfl, rfl⟩
    · exact ⟨rfl, rfl, rfl⟩

/-- **A turn** is of an open socket. -/
theorem turn_open {s : St} {o : Op} {t : Turn} (h : s.turn o = some t) : s.Open t.channelId t.userId t.socket := by
  have hopen : ∀ {k : ℕ} {x : Socket}, s.sockets[k]?.filter (fun x => !x.ended) = some x →
      s.Open x.channelId x.userId k := by
    intro k x hx
    obtain ⟨hk, hended⟩ := Option.filter_eq_some_iff.1 hx
    unfold St.Open
    rw [hk]
    cases x with
    | mk c u ended =>
      cases ended with
      | false => rfl
      | true => cases hended
  cases o with
  | receive k frame outcome =>
    obtain ⟨x, hx, rfl⟩ := Option.map_eq_some_iff.1 h
    obtain ⟨hk, hc, hu⟩ := receive_socket s k x.channelId x.userId frame outcome
    rw [hk, hc, hu]
    exact hopen hx
  | hangup k =>
    obtain ⟨x, hx, rfl⟩ := Option.map_eq_some_iff.1 h
    exact hopen hx
  | join | leave | connect | tick => cases h

theorem step_of_turn {env : Env} {s : St} {o : Op} {t : Turn} (h : s.turn o = some t) : step env s o = s.take t := by
  cases o with
  | receive | hangup =>
    unfold step
    rw [h]
    rfl
  | join | leave | connect | tick => cases h

end Concordia.Voice
