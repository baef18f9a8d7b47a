/-
The push path: the gateway's sockets (`services/gateway/ws/handler.go`), presence's index
(`services/presence/handler.go`), the fan-out of chat (`services/chat/src/handlers/messages.rs`) and the servers
service's database, as one system.

- A connection is one goroutine with a `Phase`: it registers, acknowledges, reads frames, and at the end deregisters. Its
  requests to presence are made one Redis round trip a step, so other connections and chat come between any two of them.
- A message is one run of `create_message` and of the `fanout_new_message` it spawns, with a `MsgPhase`. Looking up the
  channel's server is one step, SMEMBERS and the HGETALLs that follow are two, and each write of `deliverLocal` is one.
- A user is the UUID that a token names, so `register` never refuses an empty `user_id`. Connection ids are never reused.
- Frames other than the two modelled only write an answer to their own connection: a `message.send` is forwarded without
  an Authorization header, which chat refuses. Storing the message and publishing it to Kafka change nothing here.
- There is one gateway, and no process or network failure.
-/
import Concordia.Presence.Redis
import Concordia.Servers.CheckPerm

namespace Concordia.Push

open Concordia.Lib Concordia.Presence
open Concordia.Servers (Db Uuid Permission Request checkPerm)
open Function (update update_self update_of_ne)

/-! ## Data -/

/-- what `updateSubscription`, or `ServeHTTP`, writes once the session is registered -/
inductive Ack where
  | connected
  | subscribed (channelId : String)
  | unsubscribed (channelId : String)
deriving DecidableEq, Repr

inductive Out where
  | ack (a : Ack)
  | error (message : String)
  /-- the `new_message` event; `message` stands for the rest of its payload -/
  | newMessage (message : ℕ) (channelId : Uuid)
deriving DecidableEq, Repr

/-- something written to a connection, with the connection's authenticated user -/
structure Frame where
  conn : ConnId
  userId : Uuid
  out : Out
deriving DecidableEq, Repr

/-- where a connection's goroutine stands -/
inductive Phase where
  | absent
  /-- `register`, before HGETALL -/
  | lookup (ack : Ack) (channels : List String)
  /-- `register`, before the first pipeline -/
  | clean (ack : Ack) (channels oldChannels : List String)
  /-- `register`, before the second pipeline -/
  | write (ack : Ack) (channels oldChannels : List String)
  | respond (ack : Ack)
  /-- in the read loop -/
  | reading
  /-- `deregister`, before HGETALL -/
  | closing
  /-- `deregister`, before its pipeline -/
  | forget (data : Session)
  /-- deregistered; still in the connection table -/
  | leaving
  | gone
deriving DecidableEq, Repr

/-- where a message stands -/
inductive MsgPhase where
  | idle
  | began (userId channelId : Uuid)
  /-- before CheckPerm -/
  | resolved (userId channelId : Uuid) (serverId : Option Uuid)
  | forbidden
  /-- before SMEMBERS -/
  | fanout (channelId : Uuid)
  /-- before the HGETALLs -/
  | listed (channelId : Uuid) (connIds : List ConnId)
  /-- `deliverLocal`, at the first of the remaining sessions -/
  | pushing (channelId : Uuid) (sessionIds : List ConnId)
  | finished (channelId : Uuid)
deriving DecidableEq, Repr

structure St where
  db : Db
  channelServerCache : Uuid → Option Uuid
  /-- the user a connection was authenticated as -/
  user : ConnId → Uuid
  conns : ConnId → Bool
  subs : ConnId → Option (List String)
  phase : ConnId → Phase
  redis : Redis
  messages : ℕ → MsgPhase
  /-- what has been written to connections, in order -/
  sent : List Frame
  /-- in nanoseconds -/
  now : ℕ

def init : St where
  db := .empty
  channelServerCache _ := none
  user _ := 0
  conns _ := false
  subs _ := none
  phase _ := .absent
  redis := .empty
  messages _ := .idle
  sent := []
  now := 0

/-- a client's frame -/
inductive In where
  | subscribe (channelId : String)
  | unsubscribe (channelId : String)
deriving DecidableEq, Repr

inductive Op where
  /-- a request to the servers service -/
  | servers (q : Request)
  | open (k : ConnId) (userId : Uuid)
  | frame (k : ConnId) (inMsg : In)
  | close (k : ConnId)
  /-- the next step of a connection -/
  | advance (k : ConnId)
  | heartbeat (k : ConnId)
  | create (m : ℕ) (userId channelId : Uuid)
  /-- the next step of a message; `cached` is what the role lookup's cache answers if CheckPerm asks it -/
  | chat (m : ℕ) (cached : Option (Finset Permission))
  | tick (nanos : ℕ)
deriving DecidableEq

/-! ## The gateway -/

def St.setPhase (s : St) (k : ConnId) (p : Phase) : St := { s with phase := update s.phase k p }

def St.setMessage (s : St) (m : ℕ) (p : MsgPhase) : St := { s with messages := update s.messages m p }

def St.writeJSON (s : St) (k : ConnId) (out : Out) : St := { s with sent := s.sent ++ [⟨k, s.user k, out⟩] }

/-- `updateSubscription`, up to the request to presence -/
def updateSubscription (s : St) (k : ConnId) (channelId : String) (subscribe : Bool) : St :=
  match s.subs k with
  | none => s
  | some set =>
    let channels := if subscribe then addRow channelId set else set.filter (· ≠ channelId)
    let ack := if subscribe then .subscribed channelId else .unsubscribed channelId
    { s with subs := update s.subs k (some channels), phase := update s.phase k (.lookup ack channels) }

def dispatch (s : St) (k : ConnId) : In → St
  | .subscribe channelId =>
    if channelId = "" then s.writeJSON k (.error "channel_id required") else updateSubscription s k channelId true
  | .unsubscribe channelId =>
    if channelId = "" then s.writeJSON k (.error "channel_id required") else updateSubscription s k channelId false

/-- the next step of a connection: `register`, `deregister`, and what `ServeHTTP` does around them -/
def advance (s : St) (k : ConnId) : St :=
  match s.phase k with
  | .lookup ack channels =>
    match s.redis.hgetall s.now k with
    | some prev => s.setPhase k (.clean ack channels prev.subscribedChannels)
    | none => s.setPhase k (.write ack channels [])
  | .clean ack channels oldChannels =>
    { s with redis := s.redis.cleanPipe k oldChannels, phase := update s.phase k (.write ack channels oldChannels) }
  | .write ack channels _ =>
    { s with
      redis := s.redis.writePipe s.now k (Servers.Uuid.toString (s.user k)) channels
      phase := update s.phase k (.respond ack) }
  | .respond ack => (s.writeJSON k (.ack ack)).setPhase k .reading
  | .closing =>
    match s.redis.hgetall s.now k with
    | some data => s.setPhase k (.forget data)
    | none => s.setPhase k .leaving
  | .forget data => { s with redis := s.redis.deletePipe k data, phase := update s.phase k .leaving }
  | .leaving =>
    { s with conns := update s.conns k false, subs := update s.subs k none, phase := update s.phase k .gone }
  | .absent | .reading | .gone => s

/-! ## Chat -/

/-- `resolve_server_id` -/
def resolveServerId (s : St) (channelId : Uuid) : St × Option Uuid :=
  match s.channelServerCache channelId with
  | some sid => (s, some sid)
  | none =>
    match s.db.findChannel channelId with
    | some channel =>
      ({ s with channelServerCache := update s.channelServerCache channelId (some channel.serverId) },
        some channel.serverId)
    | none => (s, none)

/-- the permission check of `create_message` -/
def mayWrite (s : St) (userId channelId : Uuid) (serverId : Option Uuid) (cached : Option (Finset Permission)) : Bool :=
  let permissionsForUser := match cached with
    | some permissions => fun _ _ => permissions
    | none => s.db.effective
  (checkPerm s.db permissionsForUser ⟨Servers.Uuid.toString userId, (serverId.map Servers.Uuid.toString).getD "",
    Servers.Uuid.toString channelId, .write⟩).allowed

/-- the next step of a message: `create_message`, `fanout_new_message`, `queryByChannel`, `deliverLocal` -/
def chat (s : St) (m : ℕ) (cached : Option (Finset Permission)) : St :=
  match s.messages m with
  | .began userId channelId =>
    let (s, serverId) := resolveServerId s channelId
    s.setMessage m (.resolved userId channelId serverId)
  | .resolved userId channelId serverId =>
    if mayWrite s userId channelId serverId cached then s.setMessage m (.fanout channelId)
    else s.setMessage m .forbidden
  | .fanout channelId => s.setMessage m (.listed channelId (s.redis.smembers (Servers.Uuid.toString channelId)))
  | .listed channelId connIds =>
    let sessionIds := connIds.filter fun id => (s.redis.hgetall s.now id).isSome
    if sessionIds = [] then s.setMessage m (.finished channelId) else s.setMessage m (.pushing channelId sessionIds)
  | .pushing channelId (id :: sessionIds) =>
    (if s.conns id then s.writeJSON id (.newMessage m channelId) else s).setMessage m (.pushing channelId sessionIds)
  | .pushing channelId [] => s.setMessage m (.finished channelId)
  | .idle | .forbidden | .finished _ => s

/-! ## The system -/

def step (s : St) : Op → St
  | .servers q => { s with db := Servers.step s.db q }
  | .open k userId =>
    if s.phase k = .absent then
      { s with
        user := update s.user k userId
        conns := update s.conns k true
        subs := update s.subs k (some [])
        phase := update s.phase k (.lookup .connected []) }
    else s
  | .frame k inMsg => if s.phase k = .reading then dispatch s k inMsg else s
  | .close k => if s.phase k = .reading then s.setPhase k .closing else s
  | .advance k => advance s k
  | .heartbeat k => { s with redis := s.redis.heartbeat s.now k }
  | .create m userId channelId =>
    if s.messages m = .idle then s.setMessage m (.began userId channelId) else s
  | .chat m cached => chat s m cached
  | .tick nanos => { s with now := s.now + nanos }

abbrev reached (ops : List Op) : St := run step init ops

end Concordia.Push
