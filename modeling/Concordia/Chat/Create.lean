/-
Sending a message (`services/chat/src/handlers/messages.rs` `create_message`, `services/chat/src/auth.rs`, the route in
`main.rs`).

`serve` is one POST below `/channels`; the extractors run in the order of the handler's arguments: path, user, body.
Everything chat asks is in its `Backend`: the JWT library, the UUID parser, axum's `Json` extractor, the servers service
and Cassandra. Message ids are never used twice.

- `authUser_some`: a user comes from a valid token in an Authorization header, and from nothing else.
- `serve_cases`: a request stores one message of its user and is answered 201, or leaves the table alone.
- `serve_unauthorized`: without that header it is refused.
-/
import Concordia.Lib.Rows
import Concordia.Lib.ServeMux
import Concordia.Chat.Messages
import Concordia.Servers.CheckPerm

namespace Concordia.Chat

open Concordia.Lib
open Concordia.Servers (Uuid CheckPermRequest CheckPermResponse)

/-! ## Model -/

structure CreateMessageBody where
  content : String
  attachments : List String
deriving DecidableEq, Repr

/-- a POST as it reaches chat; nothing reads `userId` -/
structure HttpRequest where
  path : List Char
  contentType : Option String
  authorization : Option String
  /-- X-User-ID -/
  userId : Option String
  body : String
deriving DecidableEq, Repr

/-- axum's `JsonRejection` -/
inductive JsonRejection where
  | dataError
  | syntaxError
  | missingContentType
  | lengthLimit
  | unknownBodyError
deriving DecidableEq, Repr

def JsonRejection.status : JsonRejection → ℕ
  | .dataError => 422
  | .syntaxError => 400
  | .missingContentType => 415
  | .lengthLimit => 413
  | .unknownBodyError => 400

structure Backend where
  /-- the subject of a valid token -/
  validateJwt : String → Option String
  parseUuid : String → Option Uuid
  /-- `Json<CreateMessageBody>` on a content type and a body -/
  parseBody : Option String → String → Except JsonRejection CreateMessageBody
  /-- from the cache or from the servers service -/
  resolveServerId : Uuid → Option Uuid
  /-- none: the call failed -/
  checkPerm : CheckPermRequest → Option CheckPermResponse
  /-- Cassandra takes the INSERT -/
  insert : Bool
  /-- `Uuid::now_v7` -/
  messageId : Uuid
  /-- milliseconds since the epoch -/
  now : ℤ

inductive Answer where
  | created (message : MessageResponse)
  | error (e : ErrorResponse)
  /-- by axum, before the handler -/
  | rejected (status : ℕ)
deriving DecidableEq, Repr

def Answer.status : Answer → ℕ
  | .created _ => 201
  | .error e => e.status
  | .rejected status => status

def unauthorized : ErrorResponse := ⟨401, "unauthorized"⟩

def stripPrefix (pre s : String) : Option String :=
  if pre.toList.isPrefixOf s.toList then some (String.ofList (s.toList.drop pre.toList.length)) else none

/-- `HeaderValue::to_str` succeeds -/
def isVisible (value : String) : Bool := value.toList.all fun c => c = '\t' || (32 ≤ c.toNat && c.toNat < 127)

/-- `AuthUser::from_request_parts`; each of its errors is `unauthorized` -/
def authUser (b : Backend) (authorization : Option String) : Option Uuid := do
  let headerValue ← authorization
  guard (isVisible headerValue)
  let token ← stripPrefix "Bearer " headerValue
  let sub ← b.validateJwt token
  b.parseUuid sub

/-- the parameter of `/channels/:channel_id/messages` -/
def channelParam (path : List Char) : Option (List Char) :=
  if "/channels/".toList.isPrefixOf path then
    let rest := path.drop 10
    let segment := rest.takeWhile (· ≠ '/')
    if segment ≠ [] ∧ rest.dropWhile (· ≠ '/') = "/messages".toList then some segment else none
  else none

theorem putRow_descending {l : List MessageRow} (h : l.Pairwise fun a b => b.messageId < a.messageId)
    (row : MessageRow) : (putRow (fun a b : ℕ => b < a) MessageRow.messageId row l).Pairwise
      fun a b => b.messageId < a.messageId := by
  refine putRow_ordered (r := fun a b : ℕ => b < a) (k := MessageRow.messageId) ?_ ?_ h
  · intro a b c hab hbc
    omega
  · intro a b hab hne
    omega

/-- INSERT INTO messages -/
def MessageTable.insert (t : MessageTable) (channelId : Uuid) (row : MessageRow) : MessageTable where
  partition := Function.update t.partition channelId
    (putRow (fun a b : ℕ => b < a) MessageRow.messageId row (t.partition channelId))
  descending c := by
    by_cases hc : c = channelId
    · rw [hc, Function.update_self]
      exact putRow_descending (t.descending channelId) row
    · rw [Function.update_of_ne hc]
      exact t.descending c

/-- the row of a new message; Cassandra keeps no empty list -/
def newRow (b : Backend) (userId : Uuid) (body : CreateMessageBody) : MessageRow where
  messageId := b.messageId
  authorId := userId
  content := body.content
  attachments := if body.attachments = [] then none else some body.attachments
  createdAt := b.now
  deletedAt := none

/-- `create_message` -/
def createMessage (b : Backend) (t : MessageTable) (channelId userId : Uuid) (body : CreateMessageBody) :
    Answer × MessageTable :=
  let serverId := b.resolveServerId channelId
  match b.checkPerm ⟨Servers.Uuid.toString userId, (serverId.map Servers.Uuid.toString).getD "",
      Servers.Uuid.toString channelId, .write⟩ with
  | none => (.error ⟨500, "permission check failed"⟩, t)
  | some resp =>
    if !resp.allowed then (.error ⟨403, "insufficient permissions"⟩, t)
    else if !b.insert then (.error ⟨500, "failed to persist message"⟩, t)
    else
      (.created ⟨b.messageId, channelId, userId, body.content, body.attachments, b.now⟩,
        t.insert channelId (newRow b userId body))

/-- a POST to the messages of a channel -/
def serve (b : Backend) (t : MessageTable) (req : HttpRequest) : Answer × MessageTable :=
  match channelParam req.path with
  | none => (.rejected 404, t)
  | some segment => match (ServeMux.unescape? segment).bind fun s => b.parseUuid (String.ofList s) with
    | none => (.rejected 400, t)
    | some channelId => match authUser b req.authorization with
      | none => (.error unauthorized, t)
      | some userId => match b.parseBody req.contentType req.body with
        | .error rejection => (.rejected rejection.status, t)
        | .ok body => createMessage b t channelId userId body

/-! ## What a request does -/

/-- a user comes from a valid token in an Authorization header -/
theorem authUser_some {b : Backend} {authorization : Option String} {userId : Uuid}
    (h : authUser b authorization = some userId) : ∃ headerValue token sub, authorization = some headerValue ∧
      stripPrefix "Bearer " headerValue = some token ∧ b.validateJwt token = some sub ∧
      b.parseUuid sub = some userId := by
  unfold authUser at h
  simp only [Option.bind_eq_bind, Option.bind_eq_some_iff] at h
  obtain ⟨headerValue, hheader, -, -, token, htoken, sub, hsub, huser⟩ := h
  exact ⟨headerValue, token, sub, hheader, htoken, hsub, huser⟩

theorem createMessage_cases (b : Backend) (t : MessageTable) (channelId userId : Uuid) (body : CreateMessageBody) :
    ((createMessage b t channelId userId body).1.status ≠ 201 ∧ (createMessage b t channelId userId body).2 = t) ∨
    ((createMessage b t channelId userId body).1.status = 201 ∧
      (createMessage b t channelId userId body).2 = t.insert channelId (newRow b userId body)) := by
  unfold createMessage
  dsimp only
  split
  · exact .inl ⟨by simp [Answer.status], rfl⟩
  · split_ifs
    · exact .inl ⟨by simp [Answer.status], rfl⟩
    · exact .inl ⟨by simp [Answer.status], rfl⟩
    · exact .inr ⟨rfl, rfl⟩

/-- a request stores one message of the user its header names, or nothing -/
theorem serve_cases (b : Backend) (t : MessageTable) (req : HttpRequest) :
    ((serve b t req).1.status ≠ 201 ∧ (serve b t req).2 = t) ∨
    ∃ channelId userId body, authUser b req.authorization = some userId ∧ (serve b t req).1.status = 201 ∧
      (serve b t req).2 = t.insert channelId (newRow b userId body) := by
  unfold serve
  split
  · exact .inl ⟨by simp [Answer.status], rfl⟩
  · split
    · exact .inl ⟨by simp [Answer.status], rfl⟩
    · next channelId _ =>
      split
      · exact .inl ⟨by simp [Answer.status, unauthorized], rfl⟩
      · next userId huser =>
        split
        · next rejection _ =>
          refine .inl ⟨?_, rfl⟩
          cases rejection <;> simp [Answer.status, JsonRejection.status]
        · next body _ =>
          rcases createMessage_cases b t channelId userId body with h | h
          · exact .inl h
          · exact .inr ⟨channelId, userId, body, huser, h⟩

/-- without an Authorization header nothing is stored -/
theorem serve_unauthorized (b : Backend) (t : MessageTable) (req : HttpRequest) (h : req.authorization = none) :
    (serve b t req).1.status ∈ [404, 400, 401] ∧ (serve b t req).2 = t := by
  have huser : authUser b req.authorization = none := by rw [h]; rfl
  unfold serve
  split
  · exact ⟨by simp [Answer.status], rfl⟩
  · split
    · exact ⟨by simp [Answer.status], rfl⟩
    · rw [huser]
      exact ⟨by simp [Answer.status, unauthorized], rfl⟩

end Concordia.Chat
