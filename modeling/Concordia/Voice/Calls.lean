/-
Calls on one voice channel: the clients that run `handleJoin`
(`apps/web-app/app/components/VoiceChannelView.tsx`) against the signaling of the voice service.

- A client's `Progress` is how far `handleJoin` has come: the join is answered, the participants are listed, the server has
  accepted the socket, `onopen` has run. Nobody leaves and nothing fails.
- `frames u` is what client `u` has sent on its socket and the server has not received; `inbox u` is what the server has put
  on that socket and the client has not handled. Both keep their order.
- `createOffer` and `createAnswer` take their time: `offering` and `answering` are for whom they are pending.
- The server's part is that of `Voice.Signaling`: the registry, here of sockets named by their user, and `relay`.
- `relayed` and `delivered` record what has become of the messages.
- The participants do not expire (`SESSION_TTL`), and no `setLocalDescription` is rejected because the peer's offer has come
  in first.

The list of participants on the screen, the audio and the buffered candidates are left out.
-/
import Concordia.Voice.Agreement

namespace Concordia.Voice.Calls

open Concordia.Lib

/-! ## Messages -/

def offer (targetUserId sdp : String) : Value :=
  .obj [("type", .str "offer"), ("target_user_id", .str targetUserId), ("sdp", .str sdp)]

def answer (targetUserId sdp : String) : Value :=
  .obj [("type", .str "answer"), ("target_user_id", .str targetUserId), ("sdp", .str sdp)]

def iceCandidate (targetUserId : String) (candidate : Value) : Value :=
  .obj [("type", .str "ice-candidate"), ("target_user_id", .str targetUserId), ("candidate", candidate)]

/-- a member of a message that is a text -/
def text (k : String) (message : Value) : Option String :=
  match message with
  | .obj members =>
    match getItem k members with
    | some (.str s) => some s
    | _ => none
  | _ => none

def isOfferTo (targetUserId : String) (message : Value) : Bool :=
  text "type" message = some "offer" && text "target_user_id" message = some targetUserId

def isOfferFrom (senderUserId : String) (message : Value) : Bool :=
  text "type" message = some "offer" && text "sender_user_id" message = some senderUserId

/-! ## Data -/

structure Progress where
  joined : Bool
  /-- the others of the list of participants, once it is answered -/
  existingUserIds : Option (List String)
  /-- the server has accepted the socket -/
  connected : Bool
  /-- `onopen` has run -/
  opened : Bool
deriving DecidableEq, Repr

structure Client where
  progress : Progress
  /-- to whom `onopen` has yet to send an offer -/
  offering : List String
  /-- to whom an answer has yet to be sent -/
  answering : List String
  /-- the keys of `peersRef` -/
  peers : List String
deriving DecidableEq, Repr

/-- the client has listed the participants, and the user was not among them -/
def Client.lacks (client : Client) (userId : String) : Bool := client.progress.existingUserIds.any fun ids => userId ∉ ids

/-- an offer that the server has received -/
structure Relayed where
  offerer : String
  target : String
  /-- the target had a socket -/
  put : Bool
  /-- the target had listed the participants without the offerer -/
  lacked : Bool
deriving DecidableEq, Repr

structure St where
  /-- the sorted set of the channel's users -/
  members : Dict String ℕ
  active : Registry String
  client : String → Client
  frames : String → List Value
  inbox : String → List Value
  relayed : List Relayed
  /-- what clients have handled, and which client -/
  delivered : List (String × Value)

def start : St := ⟨Dict.empty, Dict.empty, fun _ => ⟨⟨false, none, false, false⟩, [], [], []⟩, fun _ => [], fun _ => [], [], []⟩

inductive Op where
  /-- the join is answered, at a time -/
  | join (u : String) (now : ℕ)
  /-- the participants are listed -/
  | list (u : String)
  /-- the server accepts the socket -/
  | connect (u : String)
  | onopen (u : String)
  /-- `createOffer` is done and the offer is sent -/
  | offer (u v sdp : String)
  | answer (u v sdp : String)
  | candidate (u v : String) (candidate : Value)
  /-- the server receives a frame -/
  | relay (u : String)
  /-- the client handles a message -/
  | deliver (u : String)

/-! ## Steps -/

namespace St

def setClient (s : St) (u : String) (client : Client) : St := { s with client := Function.update s.client u client }

/-- messages put on their sockets -/
def put (s : St) (sent : List (Sent String)) : St :=
  { s with inbox := fun u => s.inbox u ++ (sent.filter fun x => x.socket = u).map Sent.message }

/-- a frame sent by a client -/
def post (s : St) (u : String) (message : Value) : St :=
  { s with frames := Function.update s.frames u (s.frames u ++ [message]) }

end St

/-- `handleMessage` up to the awaits -/
def handleMessage (client : Client) (message : Value) : Client :=
  match text "type" message with
  | some "participant_joined" => client
  | some "participant_left" =>
    match text "user_id" message with
    | some uid => if uid ≠ "" then { client with peers := client.peers.filter (· ≠ uid) } else client
    | none => client
  | type =>
    match text "sender_user_id" message with
    | some sender =>
      if sender ≠ "" ∧ type = some "offer" then
        { client with peers := addRow sender client.peers, answering := client.answering ++ [sender] }
      else client
    | none => client

/-- an offer as the server receives it -/
def St.receive (s : St) (channelId u : String) (message : Value) : List Relayed :=
  if text "type" message = some "offer" then
    match text "target_user_id" message with
    | some v => [⟨u, v, (s.active.peer channelId v).isSome, (s.client v).lacks u⟩]
    | none => []
  else []

/-- `handleJoin` goes on -/
def Progress.ready (p : Progress) : Op → Bool
  | .join _ _ => !p.joined
  | .list _ => p.joined && p.existingUserIds.isNone
  | .connect _ => p.existingUserIds.isSome && !p.connected
  | .onopen _ => p.connected && !p.opened
  | _ => p.opened

def step (channelId : String) (s : St) (o : Op) : St :=
  match o with
  | .join u now =>
    let client := s.client u
    if u ≠ "" ∧ client.progress.ready o then
      let s := { s with members := s.members.set u now }
      let s := s.setClient u { client with progress := { client.progress with joined := true } }
      s.put ((s.active.recipients channelId u).map fun p => ⟨p.1, p.2, none, participantJoined u⟩)
    else s
  | .list u =>
    let client := s.client u
    if client.progress.ready o then
      let existingUserIds := ((byScore s.members).map Prod.fst).filter (· ≠ u)
      s.setClient u { client with progress := { client.progress with existingUserIds := some existingUserIds } }
    else s
  | .connect u =>
    let client := s.client u
    if client.progress.ready o then
      let s := { s with active := s.active.connect channelId u u }
      s.setClient u { client with progress := { client.progress with connected := true } }
    else s
  | .onopen u =>
    let client := s.client u
    if client.progress.ready o then
      let existingUserIds := client.progress.existingUserIds.getD []
      s.setClient u { client with
        progress := { client.progress with opened := true }
        offering := existingUserIds
        peers := existingUserIds.foldl (fun peers uid => addRow uid peers) client.peers }
    else s
  | .offer u v sdp =>
    let client := s.client u
    if v ∈ client.offering then
      (s.setClient u { client with offering := client.offering.erase v }).post u (Calls.offer v sdp)
    else s
  | .answer u v sdp =>
    let client := s.client u
    if v ∈ client.answering then
      (s.setClient u { client with answering := client.answering.erase v }).post u (Calls.answer v sdp)
    else s
  | .candidate u v candidate =>
    if (s.client u).progress.opened ∧ v ∈ (s.client u).peers then s.post u (iceCandidate v candidate) else s
  | .relay u =>
    match s.frames u with
    | [] => s
    | message :: frames =>
      let s := { s with
        frames := Function.update s.frames u frames
        relayed := s.relayed ++ s.receive channelId u message }
      s.put (Voice.relay s.active channelId u u (.json message) .ok).2
  | .deliver u =>
    let client := s.client u
    if client.progress.opened then
      match s.inbox u with
      | [] => s
      | message :: inbox =>
        let s := { s with inbox := Function.update s.inbox u inbox, delivered := s.delivered ++ [(u, message)] }
        s.setClient u (handleMessage client message)
    else s

/-! ## One offer for each pair -/

/-- both sockets are open, and neither client nor the server has anything to send or to handle -/
structure Settled (s : St) (u v : String) : Prop where
  opened : (s.client u).progress.opened = true ∧ (s.client v).progress.opened = true
  offered : (s.client u).offering = [] ∧ (s.client v).offering = []
  received : s.frames u = [] ∧ s.frames v = []
  handled : s.inbox u = [] ∧ s.inbox v = []

/-- an offer from one of the two that the other has handled -/
def offerBetween (u v : String) (d : String × Value) : Bool :=
  (d.1 = v && isOfferFrom u d.2) || (d.1 = u && isOfferFrom v d.2)

def OneOffer (s : St) (u v : String) : Prop := s.delivered.countP (offerBetween u v) = 1

def Relayed.between (e : Relayed) (u v : String) : Bool :=
  (e.offerer = u && e.target = v) || (e.offerer = v && e.target = u)

/-- the offers that the server receives in an operation -/
def St.receives (s : St) (channelId : String) : Op → List Relayed
  | .relay u => (s.frames u).head?.elim [] (s.receive channelId u)
  | _ => []

/-- the first offer of the two that the server receives finds the target's socket exactly if the target has listed the
participants without the offerer, and so does not offer itself -/
def InTime (channelId u v : String) (s : St) (o : Op) : Prop :=
  (∀ e ∈ s.relayed, e.between u v = false) →
    ∀ e ∈ s.receives channelId o, e.between u v = true →
      ((s.active.peer channelId e.target).isSome = (s.client e.target).lacks e.offerer)

instance (channelId u v : String) (s : St) (o : Op) : Decidable (InTime channelId u v s o) :=
  inferInstanceAs (Decidable ((∀ e ∈ s.relayed, e.between u v = false) →
    ∀ e ∈ s.receives channelId o, e.between u v = true →
      ((s.active.peer channelId e.target).isSome = (s.client e.target).lacks e.offerer)))

end Concordia.Voice.Calls
