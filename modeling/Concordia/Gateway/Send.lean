/-
A message sent over the WebSocket (`services/gateway/ws/handler.go` `dispatch`, `forwardToChat`) against the same message
sent with POST through the gateway (`serve`, then the reverse proxy of `server.go`).

Chat cannot be reached, or answers every request that reaches it. `forwardToChat` sends the user's id, but no
Authorization header, and does not look at the status of the answer.

- `send_agrees_iff`: the two agree, and the frame's answer tells what was stored, exactly when chat cannot be reached.
- `postMessage_cases`: POST stores one message of the token's user, or nothing.
- `posted_not_sent`: a message that POST stores is acknowledged over the socket and lost.
-/
import Mathlib.Data.List.TakeWhile
import Concordia.Chat.Create
import Concordia.Gateway.Access

namespace Concordia.Gateway

open Concordia.Lib.ServeMux
open Concordia.Chat (MessageTable)

/-! ## Model -/

/-- `inMsg`; the payload is JSON text, none when absent -/
structure InMsg where
  type : String
  channelId : String
  payload : Option String
deriving DecidableEq, Repr

/-- `outMsg`; an absent error is "" -/
structure OutMsg where
  type : String
  error : String
deriving DecidableEq, Repr

def errorMsg (error : String) : OutMsg := ⟨"error", error⟩

/-- the gateway, chat, and what is between them -/
structure World where
  env : Env
  backend : Chat.Backend
  /-- a connection to chat can be made -/
  reachable : Bool
  /-- the reverse proxy's circuit breaker for chat is open -/
  breakerOpen : Bool

def messagesEndpoint (channelId : String) : List Char := "/channels/".toList ++ channelId.toList ++ "/messages".toList

def isControl (c : Char) : Bool := c.toNat < 32 || c.toNat = 127

/-- the path of the URL that `http.NewRequest` parses: none for a control character or a broken escape -/
def requestPath (endpoint : List Char) : Option (List Char) :=
  let u := endpoint.takeWhile (· ≠ '#')
  let fragment := (endpoint.dropWhile (· ≠ '#')).tail
  let path := u.takeWhile (· ≠ '?')
  if u.any isControl || (unescape? path).isNone || (unescape? fragment).isNone then none else some path

/-- what a frame leads to -/
structure Sent where
  out : OutMsg
  /-- chat's answer, if it was asked; the gateway does not look at it -/
  answer : Option Chat.Answer
  table : MessageTable

/-- the request that `forwardToChat` makes -/
def chatRequest (path : List Char) (userId : String) (inMsg : InMsg) : Chat.HttpRequest where
  path := path
  contentType := some "application/json"
  authorization := none
  userId := some userId
  body := inMsg.payload.getD "\x7b\x7d"

/-- `forwardToChat` -/
def forwardToChat (w : World) (t : MessageTable) (userId : String) (inMsg : InMsg) : Sent :=
  match requestPath (messagesEndpoint inMsg.channelId) with
  | none => ⟨errorMsg "internal error", none, t⟩
  | some path =>
    if w.reachable then
      let (answer, t) := Chat.serve w.backend t (chatRequest path userId inMsg)
      ⟨⟨"message.ack", ""⟩, some answer, t⟩
    else ⟨errorMsg "upstream unavailable", none, t⟩

/-- `dispatch` of a `message.send` -/
def messageSend (w : World) (t : MessageTable) (userId : String) (inMsg : InMsg) : Sent :=
  if inMsg.channelId = "" then ⟨errorMsg "channel_id required", none, t⟩ else forwardToChat w t userId inMsg

/-- POST /channels/{id}/messages with a token, through the gateway; no answer when chat is not asked -/
def postMessage (w : World) (t : MessageTable) (token channelId body : String) : Option Chat.Answer × MessageTable :=
  let authorization := "Bearer " ++ token
  match (serve w.env ⟨"POST", messagesEndpoint channelId, authorization, "", none⟩).1 with
  | .routed .chat =>
    if w.breakerOpen || !w.reachable then (none, t)
    else
      let (answer, t) := Chat.serve w.backend t
        { path := messagesEndpoint channelId, contentType := some "application/json",
          authorization := some authorization, userId := w.env.validateJWT token, body := body }
      (some answer, t)
  | _ => (none, t)

/-- the frame is acknowledged exactly when `create_message` has answered 201 and stored one message of the user, POST
would have done the same to the table, and a frame that is not acknowledged is answered with an error and stores
nothing -/
structure Agrees (w : World) (t : MessageTable) (userId token : String) (inMsg : InMsg) : Prop where
  acked : (messageSend w t userId inMsg).out.type = "message.ack" ↔
    ∃ message channelId row, (messageSend w t userId inMsg).answer = some (.created message) ∧
      w.backend.parseUuid inMsg.channelId = some channelId ∧ w.backend.parseUuid userId = some row.authorId ∧
      (messageSend w t userId inMsg).table = t.insert channelId row
  posted : (messageSend w t userId inMsg).table =
    (postMessage w t token inMsg.channelId (inMsg.payload.getD "\x7b\x7d")).2
  refused : (messageSend w t userId inMsg).out.type ≠ "message.ack" →
    (messageSend w t userId inMsg).out.type = "error" ∧ (messageSend w t userId inMsg).table = t

/-! ## The endpoint of a channel -/

/-- a character that needs no care in a URL -/
def Plain (c : Char) : Prop := c ∉ ['#', '?', '%'] ∧ isControl c = false

instance (c : Char) : Decidable (Plain c) := inferInstanceAs (Decidable (_ ∧ _))

theorem unescape_plain {cs : List Char} (h : ∀ c ∈ cs, Plain c) : unescape? cs = some cs := by
  induction cs with
  | nil => rfl
  | cons c cs ih =>
    have hc : c ≠ '%' := by
      rintro rfl
      exact absurd (h '%' List.mem_cons_self) (by decide)
    have htail := ih fun x hx => h x (List.mem_cons_of_mem c hx)
    simp [unescape?, hc, htail]

theorem requestPath_plain {endpoint : List Char} (h : ∀ c ∈ endpoint, Plain c) : requestPath endpoint = some endpoint := by
  have hne : ∀ mark ∈ ['#', '?', '%'], ∀ c ∈ endpoint, c ≠ mark := by
    rintro mark hmark c hc rfl
    exact (h c hc).1 hmark
  have hhash : endpoint.takeWhile (· ≠ '#') = endpoint ∧ endpoint.dropWhile (· ≠ '#') = [] :=
    ⟨List.takeWhile_eq_self_iff.2 (by simpa using hne '#' (by decide)),
      List.dropWhile_eq_nil_iff.2 (by simpa using hne '#' (by decide))⟩
  have hquery : endpoint.takeWhile (· ≠ '?') = endpoint :=
    List.takeWhile_eq_self_iff.2 (by simpa using hne '?' (by decide))
  have hcontrol : endpoint.any isControl = false := by
    rw [List.any_eq_false]
    intro c hc
    simp [(h c hc).2]
  unfold requestPath
  dsimp only
  rw [hhash.1, hhash.2, hquery, hcontrol, unescape_plain h]
  rfl

theorem hexDigits_plain {w n : ℕ} {c : Char} (h : c ∈ Servers.hexDigits w n) : Plain c := by
  have hdigit : ∀ d < 16, Plain (Nat.digitChar d) := by decide
  induction w generalizing n with
  | zero => cases h
  | succ w ih =>
    rcases List.mem_append.1 h with h | h
    · exact ih h
    · rw [List.mem_singleton.1 h]
      exact hdigit _ (Nat.mod_lt _ (by norm_num))

theorem plain_append {xs ys : List Char} (hxs : ∀ c ∈ xs, Plain c) (hys : ∀ c ∈ ys, Plain c) :
    ∀ c ∈ xs ++ ys, Plain c := fun c hc => (List.mem_append.1 hc).elim (hxs c) (hys c)

theorem plain_group (w n : ℕ) : ∀ c ∈ '-' :: Servers.hexDigits w n, Plain c := by
  intro c hc
  rcases List.mem_cons.1 hc with rfl | hc
  · decide
  · exact hexDigits_plain hc

theorem uuid_plain (id : Servers.Uuid) : ∀ c ∈ (Servers.Uuid.toString id).toList, Plain c := by
  unfold Servers.Uuid.toString
  rw [String.toList_ofList]
  exact plain_append (plain_append (plain_append (plain_append (fun c => hexDigits_plain) (plain_group _ _))
    (plain_group _ _)) (plain_group _ _)) (plain_group _ _)

/-- the endpoint of such a channel is a path as it stands -/
theorem requestPath_endpoint {channelId : String} (h : ∀ c ∈ channelId.toList, Plain c) :
    requestPath (messagesEndpoint channelId) = some (messagesEndpoint channelId) := by
  have hpre : ("/channels/".toList.all fun c => Plain c) = true := by decide
  have hpost : ("/messages".toList.all fun c => Plain c) = true := by decide
  apply requestPath_plain
  intro c hc
  unfold messagesEndpoint at hc
  rcases List.mem_append.1 hc with hc | hc
  · rcases List.mem_append.1 hc with hc | hc
    · exact of_decide_eq_true (List.all_eq_true.1 hpre c hc)
    · exact h c hc
  · exact of_decide_eq_true (List.all_eq_true.1 hpost c hc)

theorem uuid_ne (id : Servers.Uuid) : Servers.Uuid.toString id ≠ "" := by
  intro h
  have hlist := congrArg String.toList h
  simp [Servers.Uuid.toString] at hlist

/-! ## What the two do -/

section

variable {w : World} (t : MessageTable) (userId : String) (inMsg : InMsg) (hne : inMsg.channelId ≠ "")
  (hplain : ∀ c ∈ inMsg.channelId.toList, Plain c)

include hne hplain

theorem messageSend_reachable (h : w.reachable = true) :
    messageSend w t userId inMsg =
      ⟨⟨"message.ack", ""⟩, some (Chat.serve w.backend t (chatRequest (messagesEndpoint inMsg.channelId) userId inMsg)).1,
        (Chat.serve w.backend t (chatRequest (messagesEndpoint inMsg.channelId) userId inMsg)).2⟩ := by
  unfold messageSend forwardToChat
  rw [if_neg hne, requestPath_endpoint hplain, h]
  rfl

/-- chat refuses the frame, and the frame is acknowledged -/
theorem messageSend_refused (h : w.reachable = true) :
    (messageSend w t userId inMsg).out.type = "message.ack" ∧ (messageSend w t userId inMsg).table = t ∧
      ∀ message, (messageSend w t userId inMsg).answer ≠ some (.created message) := by
  have hserve := Chat.serve_unauthorized w.backend t (chatRequest (messagesEndpoint inMsg.channelId) userId inMsg) rfl
  rw [messageSend_reachable t userId inMsg hne hplain h]
  refine ⟨rfl, hserve.2, ?_⟩
  intro message hmessage
  have hstatus := hserve.1
  rw [Option.some.inj hmessage] at hstatus
  simp [Chat.Answer.status] at hstatus

theorem messageSend_unreachable (h : w.reachable = false) :
    messageSend w t userId inMsg = ⟨errorMsg "upstream unavailable", none, t⟩ := by
  unfold messageSend forwardToChat
  rw [if_neg hne, requestPath_endpoint hplain, h]
  rfl

end

theorem postMessage_unreachable {w : World} (t : MessageTable) (token : String) (h : w.reachable = false)
    (channelId body : String) : (postMessage w t token channelId body).2 = t := by
  unfold postMessage
  dsimp only
  split
  · simp [h]
  · rfl

/-- POST stores one message of the user that chat finds in the token, or nothing -/
theorem postMessage_cases (w : World) (t : MessageTable) (token channelId body : String) :
    (postMessage w t token channelId body).2 = t ∨
    ∃ channel userId content, Chat.authUser w.backend (some ("Bearer " ++ token)) = some userId ∧
      (postMessage w t token channelId body).1.map Chat.Answer.status = some 201 ∧
      (postMessage w t token channelId body).2 = t.insert channel (Chat.newRow w.backend userId content) := by
  unfold postMessage
  dsimp only
  split
  · split_ifs
    · exact .inl rfl
    · rcases Chat.serve_cases w.backend t ⟨messagesEndpoint channelId, some "application/json",
        some ("Bearer " ++ token), w.env.validateJWT token, body⟩ with h | ⟨channel, userId, content, huser, hstatus, htable⟩
      · exact .inl h.2
      · exact .inr ⟨channel, userId, content, huser, congrArg some hstatus, htable⟩
  · exact .inl rfl

/-- **Sending.** A frame agrees with POST, and its answer tells what was stored, exactly when chat cannot be reached. -/
theorem send_agrees_iff (w : World) (t : MessageTable) (userId token : String) (channelId : Servers.Uuid)
    (payload : Option String) :
    Agrees w t userId token ⟨"message.send", Servers.Uuid.toString channelId, payload⟩ ↔ w.reachable = false := by
  have hne := uuid_ne channelId
  have hplain := uuid_plain channelId
  generalize Servers.Uuid.toString channelId = text at hne hplain
  refine ⟨?_, ?_⟩
  · intro hagrees
    by_contra hreach
    obtain ⟨hack, -, hanswer⟩ := messageSend_refused t userId ⟨"message.send", text, payload⟩ hne hplain
      (Bool.not_eq_false _ ▸ hreach)
    obtain ⟨message, -, -, hmessage, -⟩ := hagrees.acked.1 hack
    exact hanswer message hmessage
  · intro hreach
    have hsend := messageSend_unreachable t userId ⟨"message.send", text, payload⟩ hne hplain hreach
    refine ⟨?_, ?_, ?_⟩
    · rw [hsend]
      refine ⟨?_, ?_⟩
      · intro h
        simp [errorMsg] at h
      · intro ⟨message, channelId, row, hmessage, _⟩
        cases hmessage
    · rw [hsend, postMessage_unreachable t token hreach]
    · intro _
      rw [hsend]
      exact ⟨rfl, rfl⟩

/-! ## One message -/

def alice : String := "00000000-0000-0000-0000-00000000000a"

def general : String := "00000000-0000-0000-0000-000000000007"

/-- everything is up, and alice may write to the channel -/
def oneWorld : World where
  env :=
    { validateJWT := fun token => if token = "t" then some alice else none
      limited := fun _ => false
      backplane := false
      redisUp := false
      conns := []
      replicas := [[]] }
  backend :=
    { validateJwt := fun token => if token = "t" then some alice else none
      parseUuid := fun s => if s = alice then some 10 else if s = general then some 7 else none
      parseBody := fun _ body => if body = "\x7b\"content\":\"hi\"\x7d" then .ok ⟨"hi", []⟩ else .error .dataError
      resolveServerId := fun _ => some 1
      checkPerm := fun _ => some ⟨true, ""⟩
      insert := true
      messageId := 99
      now := 0 }
  reachable := true
  breakerOpen := false

def emptyTable : MessageTable := ⟨fun _ => [], fun _ => .nil⟩

def hi : InMsg := ⟨"message.send", general, some "\x7b\"content\":\"hi\"\x7d"⟩

theorem posted_not_sent :
    oneWorld.env.validateJWT "t" = some alice ∧ general = Servers.Uuid.toString 7 ∧
      ¬ Agrees oneWorld emptyTable alice "t" hi ∧
      (messageSend oneWorld emptyTable alice hi).out.type = "message.ack" ∧
      (messageSend oneWorld emptyTable alice hi).answer = some (.error ⟨401, "unauthorized"⟩) ∧
      (messageSend oneWorld emptyTable alice hi).table.partition 7 = [] ∧
      (postMessage oneWorld emptyTable "t" general "\x7b\"content\":\"hi\"\x7d").2.partition 7 =
        [⟨99, 10, "hi", none, 0, none⟩] := by
  have hanswer : (messageSend oneWorld emptyTable alice hi).answer = some (.error ⟨401, "unauthorized"⟩) := by decide
  refine ⟨by decide, by decide, ?_, by decide, hanswer, by decide, by decide⟩
  intro h
  obtain ⟨message, -, -, hmessage, -⟩ := h.acked.1 (by decide)
  rw [hanswer] at hmessage
  cases hmessage

end Concordia.Gateway
