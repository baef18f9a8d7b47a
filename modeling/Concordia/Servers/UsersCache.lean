/-
The names in the list of a server's members (`service/KafkaConsumerService.java`, `UserCacheRepository.upsertUser`,
`MembershipService.getServerMembers`).

The topic `user-registered` has one partition and the table `users_cache` outlives the process, so the consumer is a feed:
a message is an upsert of one name, or nothing if it cannot be read or stored. A failed upsert leaves the transaction of
`consumeUserRegisteredEvent` marked for rollback, and its message is delivered again several times before it is skipped:
`consume false` passes over the message, and a redelivery is a `restart` at its offset.

- `readEvent`: what Jackson reads from a message; `storable`: what the table takes.
- `members_named`: after every run of requests and deliveries each member is listed once, under the name registered last
  or, if there is none, under "Unknown_User_" and the id; until the consumer has caught up, under an earlier one.
-/
import Concordia.Lib.Json
import Concordia.Lib.Replay
import Concordia.Servers.Listings

namespace Concordia.Servers

open Concordia.Lib

section

/- `readTree` is Jackson's parser on a message, `none` where it throws; `numText` the text of a number node -/
variable {β ν : Type} (readTree : β → Option (Json ν)) (numText : ν → String)

/-! ## The consumer -/

/-- `JsonNode.asText` -/
def asText : Json ν → String
  | .null => "null"
  | .bool b => if b then "true" else "false"
  | .num n => numText n
  | .str s => s
  | .arr _ | .obj _ => ""

/-- `JsonNode.get`: a field of an object -/
def getField (node : Json ν) (name : String) : Option (Json ν) :=
  match node with
  | .obj members => members.lookup name
  | _ => none

/-- the id and the name in a message; a field that is missing ends in a `NullPointerException` -/
def readEvent (message : β) : Option (String × String) := do
  let jsonNode ← readTree message
  let userId ← getField jsonNode "user_id"
  let username ← getField jsonNode "username"
  return (asText numText userId, asText numText username)

/-- `INSERT .. ON CONFLICT (user_id) DO UPDATE SET username = EXCLUDED.username` -/
def upsertUser (usersCache : String → Option String) (userId username : String) : Tx (String → Option String) :=
  if varchar255 userId ∧ varchar255 username then .ok (Function.update usersCache userId (some username))
  else .error .constraintViolation

/-- `consumeUserRegisteredEvent`: the table after one message; `available` says whether the database answers -/
def consumeUserRegisteredEvent (usersCache : String → Option String) (message : β) (available : Bool) :
    String → Option String :=
  match readEvent readTree numText message with
  | none => usersCache
  | some (userId, username) =>
    if available then
      match upsertUser usersCache userId username with
      | .ok usersCache' => usersCache'
      | .error _ => usersCache
    else usersCache

/-- the name a message registers, if it can be read and stored -/
def registered (message : β) : Option (String × String) :=
  (readEvent readTree numText message).filter fun e => varchar255 e.1 ∧ varchar255 e.2

/-- the consumer applies an upsert of a feed -/
theorem consume_eq (usersCache : String → Option String) (message : β) (available : Bool) :
    consumeUserRegisteredEvent readTree numText usersCache message available =
      if available then upsert (registered readTree numText) usersCache message else usersCache := by
  unfold consumeUserRegisteredEvent upsert registered
  cases readEvent readTree numText message with
  | none => simp
  | some e =>
    obtain ⟨userId, username⟩ := e
    by_cases h : varchar255 userId ∧ varchar255 username <;> simp [Option.filter, upsertUser, h]

/-! ## Requests and deliveries -/

structure RegistrySystem (β : Type) where
  db : Db
  feed : Feed β String String

inductive RegistryOp (β : Type) where
  | request (q : Request)
  /-- a user is registered: auth publishes the message -/
  | publish (message : β)
  /-- the consumer is given the next message, with the database available or not -/
  | consume (available : Bool)
  /-- the offsets of what was consumed are committed -/
  | commit
  /-- the consumer resumes at the committed offset: it is started again, or a message is redelivered -/
  | restart

def RegistrySystem.empty : RegistrySystem β := ⟨.empty, .empty⟩

def registryStep (s : RegistrySystem β) : RegistryOp β → RegistrySystem β
  | .request q => { s with db := step s.db q }
  | .publish message => { s with feed := { s.feed with log := s.feed.log ++ [message] } }
  | .consume available =>
    match s.feed.log[s.feed.position]? with
    | none => s
    | some message =>
      { s with feed := { s.feed with
          position := s.feed.position + 1
          store := consumeUserRegisteredEvent readTree numText s.feed.store message available } }
  | .commit => { s with feed := { s.feed with committed := s.feed.position } }
  | .restart => { s with feed := { s.feed with position := s.feed.committed } }

/-- the requests of a run -/
def requestOf : RegistryOp β → Option Request
  | .request q => some q
  | _ => none

/-- the steps of a run that concern the feed -/
def feedOpOf : RegistryOp β → Option (FeedOp β)
  | .request _ => none
  | .publish message => some (.publish message)
  | .consume available => some (.deliver available)
  | .commit => some .commit
  | .restart => some .restart

theorem registryStep_db (s : RegistrySystem β) (o : RegistryOp β) :
    (registryStep readTree numText s o).db = ((requestOf o).map (step s.db)).getD s.db := by
  cases o with
  | consume available =>
    unfold registryStep requestOf
    cases s.feed.log[s.feed.position]? <;> rfl
  | _ => rfl

theorem registryStep_feed (s : RegistrySystem β) (o : RegistryOp β) :
    (registryStep readTree numText s o).feed =
      ((feedOpOf o).map (feedStep (registered readTree numText) s.feed)).getD s.feed := by
  cases o with
  | consume available =>
    unfold registryStep feedOpOf
    cases hnext : s.feed.log[s.feed.position]? with
    | none => exact (deliver_none hnext available).symm
    | some message =>
      rw [Option.map_some, Option.getD_some, deliver_some hnext, ← consume_eq]
  | _ => rfl

/-- the state after a run -/
abbrev registryReached (ops : List (RegistryOp β)) : RegistrySystem β := run (registryStep readTree numText) .empty ops

/-- the next message registers a name of the user, and the upsert fails -/
def LosesName (userId : String) (s : RegistrySystem β) (o : RegistryOp β) : Prop :=
  o = .consume false ∧ ∃ message username, s.feed.log[s.feed.position]? = some message ∧
    registered readTree numText message = some (userId, username)

/-- the name that was registered last in these messages -/
def lastName (messages : List β) (userId : String) : String :=
  ((messages.reverse.filterMap (registered readTree numText)).lookup userId).getD ("Unknown_User_" ++ userId)

variable {readTree numText}

theorem reached_db (ops : List (RegistryOp β)) :
    (registryReached readTree numText ops).db = reached (ops.filterMap requestOf) :=
  run_view (registryStep_db readTree numText) .empty ops

theorem reached_feed (ops : List (RegistryOp β)) :
    (registryReached readTree numText ops).feed =
      run (feedStep (registered readTree numText)) .empty (ops.filterMap feedOpOf) :=
  run_view (registryStep_feed readTree numText) .empty ops

theorem displayName_replay (messages : List β) {usersCache : String → Option String} {userId : String}
    (h : usersCache userId = replay (registered readTree numText) messages userId) :
    displayName usersCache userId = lastName readTree numText messages userId := by
  unfold displayName lastName
  rw [h, replay_eq_lookup]

/-- as long as no name of the user is lost, the table is abreast of the log for it -/
theorem reached_abreast {ops : List (RegistryOp β)} {userId : String}
    (h : Along (registryStep readTree numText) (fun s o => ¬ LosesName readTree numText userId s o) .empty ops) :
    Abreast (registered readTree numText) userId (registryReached readTree numText ops).feed := by
  rw [reached_feed]
  refine abreast (@along_view _ _ _ _ _ _ RegistrySystem.feed _ (registryStep_feed readTree numText) _ _ _ (h.mono ?_))
  rintro s o hkept b hb ⟨rfl, message, hnext, username, hname⟩
  cases o with
  | consume available =>
    cases hb
    exact hkept ⟨rfl, message, username, hnext, hname⟩
  | _ => cases hb

end

/-! ## The list of members -/

/-- **The list of a server's members.** After every run of requests, registrations and deliveries, a server that is not
live has no list; the list of a live one has each user who created or joined it and has not left since, once, and every
name in it but the made-up one was registered for that user. If no upsert of a user's name failed, the name shown is the
one registered last in some beginning of the log that the consumer is not behind of, and in the whole log once the consumer
has caught up. -/
theorem members_named {β ν : Type} (readTree : β → Option (Json ν)) (numText : ν → String) (ops : List (RegistryOp β))
    (serverId : Uuid) :
    let s := registryReached readTree numText ops
    let requests := ops.filterMap requestOf
    (¬ Live requests serverId →
      getServerMembers s.db s.feed.store serverId = .error (.status 404 "Server not found")) ∧
    (Live requests serverId → ∃ members, getServerMembers s.db s.feed.store serverId = .ok members ∧
      (members.map Prod.fst).Nodup ∧
      (∀ userId, userId ∈ members.map Prod.fst ↔ MemberSince requests serverId userId) ∧
      ∀ userId username, (userId, username) ∈ members →
        (username = "Unknown_User_" ++ userId ∨
          ∃ message ∈ s.feed.log, registered readTree numText message = some (userId, username)) ∧
        (Along (registryStep readTree numText) (fun s o => ¬ LosesName readTree numText userId s o) .empty ops →
          (∃ m, s.feed.position ≤ m ∧ m ≤ s.feed.log.length ∧
            username = lastName readTree numText (s.feed.log.take m) userId) ∧
          (s.feed.position = s.feed.log.length → username = lastName readTree numText s.feed.log userId))) := by
  intro s requests
  have hdb : s.db = reached requests := reached_db ops
  have hlive := live_iff requests serverId
  rw [hdb]
  refine ⟨fun h => getServerMembers_missing (Bool.eq_false_iff.2 (mt hlive.1 h)) _, fun h => ?_⟩
  refine ⟨_, getServerMembers_live (hlive.2 h) _, ?_, ?_, ?_⟩
  · rw [List.map_map]
    exact members_nodup _ serverId
  · intro userId
    rw [List.map_map]
    exact mem_findMembershipsByServer.trans (member_iff requests serverId userId)
  · intro userId username hmem
    have hname : username = displayName s.feed.store userId := by
      obtain ⟨m, -, hm⟩ := List.mem_map.1 hmem
      cases hm
      rfl
    refine ⟨?_, fun hkept => ⟨?_, fun hend => ?_⟩⟩
    · -- a name of the table comes from a message
      cases hstore : s.feed.store userId with
      | none =>
        rw [displayName, hstore] at hname
        exact .inl hname
      | some v =>
        rw [displayName, hstore] at hname
        have hsourced : Sourced (registered readTree numText) s.feed := by
          rw [show s.feed = _ from reached_feed ops]
          exact sourced _
        rw [show username = v from hname]
        exact .inr (hsourced userId v hstore)
    · obtain ⟨m, hm, hlen, hcurrent⟩ := (reached_abreast hkept).current
      exact ⟨m, hm, hlen, hname.trans (displayName_replay _ hcurrent)⟩
    · exact hname.trans (displayName_replay _ (caught_up (reached_abreast hkept) hend))

/-- alice's registration is consumed again after a restart, bob's is still to come -/
example :
    let registration := fun userId username : String => (Json.obj [("user_id", .str userId), ("username", .str username)] : Json ℕ)
    let s := registryReached some toString [.publish (registration "u1" "alice"), .publish (registration "u2" "bob"),
      .consume true, .restart, .request (.createServer (some "room") "u1"), .consume true, .request (.joinServer 0 "u2")]
    getServerMembers s.db s.feed.store 0 = .ok [("u1", "alice"), ("u2", "Unknown_User_u2")] := by
  decide

end Concordia.Servers
