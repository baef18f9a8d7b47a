/-
One message as `create_message` answers, stores, publishes and pushes it, and as `list_messages` shows it
(`services/chat/src/handlers/messages.rs`: `create_message`, `publish_message_created`, `list_messages`, `cql_to_datetime`).

- A clock reading has nanoseconds (`DateTime`); the column `created_at` keeps milliseconds. A JSON body writes it as RFC 3339
  text: the derived `Serialize` of `MessageResponse` with `Z`, `to_rfc3339` with `+00:00`.
- A body is its JSON value. `json!` keeps the members by their names, the derived `Serialize` in the order of the fields.
- `Message.ofJson` reads a body. `Op` is an INSERT of `create_message`, or an UPDATE of `delete_message`; no id is used twice.

`renderings_agree`: whatever is written afterwards, every page shows the message as it was answered, `created_at` rounded
down to the millisecond; the push payload and the event say what was answered. `finer_than_stored`: a clock reading that
loses what is below the millisecond.
-/
import Concordia.Lib.Json
import Concordia.Lib.Rfc3339
import Concordia.Servers.UuidText
import Concordia.Chat.Walk
import Concordia.Chat.Requests

namespace Concordia.Chat.Renderings

open Concordia.Lib
open Concordia.Servers (Uuid)
open Requests (Outcome)

/-! ## Records -/

/-- `chrono::DateTime<Utc>`, in nanoseconds since the epoch -/
structure DateTime where
  nanos : ℤ
  range : -8334601228800000 * 1000000 ≤ nanos ∧ nanos < 8210266876800000 * 1000000
deriving DecidableEq

def DateTime.timestampMillis (t : DateTime) : ℤ := t.nanos / 1000000

/-- `MessageResponse`, with `created_at` in nanoseconds -/
structure Message where
  messageId : Uuid
  channelId : Uuid
  authorId : Uuid
  content : String
  attachments : List String
  createdAt : ℤ
deriving DecidableEq, Repr

/-- what `create_message` has when it stores the message -/
structure Creation where
  userId : Uuid
  channelId : Uuid
  serverId : Option Uuid
  body : CreateMessageBody
  messageId : Uuid
  createdAt : DateTime
  uuids : userId < 2 ^ 128 ∧ channelId < 2 ^ 128 ∧ messageId < 2 ^ 128
deriving DecidableEq

/-- the answer to `create_message` -/
def Creation.message (x : Creation) : Message :=
  ⟨x.messageId, x.channelId, x.userId, x.body.content, x.body.attachments, x.createdAt.nanos⟩

/-- the row that it stores -/
def Creation.row (x : Creation) : MessageRow where
  messageId := x.messageId
  authorId := x.userId
  content := x.body.content
  attachments := if x.body.attachments = [] then none else some x.body.attachments
  createdAt := x.createdAt.timestampMillis
  deletedAt := none

/-- a message of a page, which has milliseconds -/
def ofPage (r : MessageResponse) : Message :=
  ⟨r.messageId, r.channelId, r.authorId, r.content, r.attachments, r.createdAt * 1000000⟩

/-- `created_at` rounded down to the millisecond -/
def Message.toMillis (m : Message) : Message := { m with createdAt := m.createdAt / 1000000 * 1000000 }

/-! ## JSON -/

def uuidJson (id : Uuid) : Json ℕ := .str (Servers.Uuid.toString id)

def timeJson (utc : Rfc3339.Utc) (nanos : ℤ) : Json ℕ := .str (String.ofList (Rfc3339.write utc nanos))

def stringsJson (l : List String) : Json ℕ := .arr (l.map Json.str)

/-- a message in the body of an answer -/
def Message.toJson (m : Message) : Json ℕ :=
  .obj [("message_id", uuidJson m.messageId), ("channel_id", uuidJson m.channelId), ("author_id", uuidJson m.authorId),
    ("content", .str m.content), ("attachments", stringsJson m.attachments), ("created_at", timeJson .zulu m.createdAt)]

/-- `push_payload` -/
def Creation.pushPayload (x : Creation) : Json ℕ :=
  .obj [("attachments", stringsJson x.body.attachments), ("author_id", uuidJson x.userId),
    ("channel_id", uuidJson x.channelId), ("content", .str x.body.content),
    ("created_at", timeJson .zero x.createdAt.nanos), ("message_id", uuidJson x.messageId)]

/-- the payload of `publish_message_created` -/
def Creation.messageCreated (x : Creation) : Json ℕ :=
  .obj [("attachments", stringsJson x.body.attachments), ("author_id", uuidJson x.userId),
    ("channel_id", uuidJson x.channelId), ("content", .str x.body.content),
    ("created_at", timeJson .zero x.createdAt.nanos), ("message_id", uuidJson x.messageId),
    ("server_id", (x.serverId.map uuidJson).getD .null)]

def member (name : String) : Json ℕ → Option (Json ℕ)
  | .obj members => members.lookup name
  | _ => none

def stringOf : Json ℕ → Option String
  | .str s => some s
  | _ => none

def stringsOf : Json ℕ → Option (List String)
  | .arr items => items.mapM stringOf
  | _ => none

def uuidOf (v : Json ℕ) : Option Uuid := (stringOf v).bind fun s => (Servers.Uuid.fromString s).toOption

def timeOf (v : Json ℕ) : Option ℤ := (stringOf v).bind fun s => Rfc3339.read s.toList

def Message.ofJson (v : Json ℕ) : Option Message := do
  let messageId ← (member "message_id" v).bind uuidOf
  let channelId ← (member "channel_id" v).bind uuidOf
  let authorId ← (member "author_id" v).bind uuidOf
  let content ← (member "content" v).bind stringOf
  let attachments ← (member "attachments" v).bind stringsOf
  let createdAt ← (member "created_at" v).bind timeOf
  return ⟨messageId, channelId, authorId, content, attachments, createdAt⟩

theorem uuidOf_uuidJson {id : Uuid} (h : id < 2 ^ 128) : uuidOf (uuidJson id) = some id := by
  rw [uuidOf, uuidJson, stringOf, Option.bind_some, Servers.fromString_toString h]
  rfl

theorem timeOf_timeJson (utc : Rfc3339.Utc) (nanos : ℤ) : timeOf (timeJson utc nanos) = some nanos := by
  rw [timeOf, timeJson, stringOf, Option.bind_some, String.toList_ofList, Rfc3339.read_write]

theorem stringsOf_stringsJson (l : List String) : stringsOf (stringsJson l) = some l := by
  simp only [stringsOf, stringsJson]
  induction l with
  | nil => rfl
  | cons s l ih => simp [stringOf, ih]

/-- the members that say what the message is -/
structure Says (utc : Rfc3339.Utc) (m : Message) (v : Json ℕ) : Prop where
  messageId : member "message_id" v = some (uuidJson m.messageId)
  channelId : member "channel_id" v = some (uuidJson m.channelId)
  authorId : member "author_id" v = some (uuidJson m.authorId)
  content : member "content" v = some (.str m.content)
  attachments : member "attachments" v = some (stringsJson m.attachments)
  createdAt : member "created_at" v = some (timeJson utc m.createdAt)

theorem Says.ofJson {utc : Rfc3339.Utc} {m : Message} {v : Json ℕ} (h : Says utc m v)
    (huuids : m.authorId < 2 ^ 128 ∧ m.channelId < 2 ^ 128 ∧ m.messageId < 2 ^ 128) : Message.ofJson v = some m := by
  simp only [Message.ofJson, h.messageId, h.channelId, h.authorId, h.content, h.attachments, h.createdAt,
    Option.bind_eq_bind, Option.bind_some, uuidOf_uuidJson huuids.1, uuidOf_uuidJson huuids.2.1,
    uuidOf_uuidJson huuids.2.2, timeOf_timeJson, stringsOf_stringsJson, stringOf]
  rfl

theorem says_toJson (m : Message) : Says .zulu m m.toJson := by
  constructor <;> rfl

theorem says_pushPayload (x : Creation) : Says .zero x.message x.pushPayload := by
  constructor <;> rfl

theorem says_messageCreated (x : Creation) : Says .zero x.message x.messageCreated := by
  constructor <;> rfl

/-! ## The table -/

structure St where
  table : MessageTable
  /-- the ids of all INSERTs -/
  used : List Uuid
  /-- those that were answered 201 -/
  created : List Creation

def init : St := ⟨⟨fun _ => [], Requests.noRows_descending⟩, [], []⟩

inductive Op where
  /-- INSERT -/
  | create (x : Creation) (outcome : Outcome)
  /-- UPDATE .. SET deleted_at -/
  | softDelete (channelId messageId : Uuid) (deletedAt : ℤ)

def step (s : St) : Op → St
  | .create x outcome =>
    if x.messageId ∈ s.used then s
    else match outcome with
      | .done => ⟨s.table.insert x.channelId x.row, x.messageId :: s.used, x :: s.created⟩
      | .lost => ⟨s.table.insert x.channelId x.row, x.messageId :: s.used, s.created⟩
      | .failed => { s with used := x.messageId :: s.used }
  | .softDelete channelId messageId deletedAt => { s with table := s.table.softDelete channelId messageId deletedAt }

abbrev reached (ops : List Op) : St := run step init ops

/-- the row of a message, perhaps marked deleted -/
def IsRowOf (x : Creation) (c : Uuid) (row : MessageRow) : Prop :=
  c = x.channelId ∧ ∃ deletedAt, row = { x.row with deletedAt }

structure Kept (s : St) : Prop where
  rows : ∀ c, ∀ row ∈ s.table.partition c, row.messageId ∈ s.used
  created : ∀ x ∈ s.created, x.messageId ∈ s.used
  stored : ∀ x ∈ s.created, ∀ c, ∀ row ∈ s.table.partition c, row.messageId = x.messageId → IsRowOf x c row

theorem kept_init : Kept init := by
  constructor <;> simp [init]

/-- a new row says what its message is, and nothing of the others -/
theorem kept_insert {s : St} (h : Kept s) {x : Creation} (hfresh : x.messageId ∉ s.used) {created : List Creation}
    (hcreated : ∀ y ∈ created, y = x ∨ y ∈ s.created) :
    Kept ⟨s.table.insert x.channelId x.row, x.messageId :: s.used, created⟩ := by
  have hnew : x.row.messageId ∉ (s.table.partition x.channelId).map MessageRow.messageId := by
    intro hmem
    obtain ⟨row, hrow, hid⟩ := List.mem_map.1 hmem
    have hused := h.rows x.channelId row hrow
    rw [hid] at hused
    exact hfresh hused
  refine ⟨?_, ?_, ?_⟩
  · intro c row hrow
    rcases (MessageTable.mem_insert hnew).1 hrow with ⟨-, rfl⟩ | hold
    · exact List.mem_cons_self ..
    · exact List.mem_cons_of_mem _ (h.rows c row hold)
  · intro y hy
    rcases hcreated y hy with rfl | hold
    · exact List.mem_cons_self ..
    · exact List.mem_cons_of_mem _ (h.created y hold)
  · intro y hy c row hrow hid
    rcases (MessageTable.mem_insert hnew).1 hrow with ⟨rfl, rfl⟩ | hold
    · rcases hcreated y hy with rfl | hy
      · exact ⟨rfl, none, rfl⟩
      · -- the new id is nobody else's
        have hused := h.created y hy
        rw [← hid] at hused
        exact absurd hused hfresh
    · rcases hcreated y hy with rfl | hy
      · have hused := h.rows c row hold
        rw [hid] at hused
        exact absurd hused hfresh
      · exact h.stored y hy c row hold hid

theorem kept_step (s : St) (o : Op) (h : Kept s) : Kept (step s o) := by
  cases o with
  | create x outcome =>
    simp only [step]
    split_ifs with hfresh
    · exact h
    · cases outcome with
      | done => exact kept_insert h hfresh fun y hy => List.mem_cons.1 hy
      | lost => exact kept_insert h hfresh fun y hy => .inr hy
      | failed =>
        exact ⟨fun c row hrow => List.mem_cons_of_mem _ (h.rows c row hrow),
          fun y hy => List.mem_cons_of_mem _ (h.created y hy), h.stored⟩
  | softDelete c' m ts =>
    refine ⟨?_, h.created, ?_⟩
    · intro c row hrow
      obtain ⟨row', hrow', rfl⟩ := MessageTable.mem_softDelete.1 hrow
      split_ifs
      · rw [MessageRow.softDelete_messageId]
        exact h.rows c row' hrow'
      · exact h.rows c row' hrow'
    · intro x hx c row hrow hid
      obtain ⟨row', hrow', rfl⟩ := MessageTable.mem_softDelete.1 hrow
      have hid' : row'.messageId = x.messageId := by
        rw [← hid]
        split_ifs <;> simp
      obtain ⟨hc, deletedAt, hrow''⟩ := h.stored x hx c row' hrow' hid'
      refine ⟨hc, ?_⟩
      split_ifs
      · unfold MessageRow.softDelete
        split_ifs
        · exact ⟨some ts, by rw [hrow'']⟩
        · exact ⟨deletedAt, hrow''⟩
      · exact ⟨deletedAt, hrow''⟩

/-! ## Pages -/

/-- the page has the row as it was stored -/
theorem ofPage_row (x : Creation) (now : ℤ) (deletedAt : Option ℤ) :
    ofPage (toResponse x.channelId now { x.row with deletedAt }) = x.message.toMillis := by
  have hrange := x.createdAt.range
  have htime : cqlToDatetime now x.createdAt.timestampMillis = x.createdAt.timestampMillis := by
    rw [cqlToDatetime, if_pos]
    unfold DateTime.timestampMillis
    omega
  have hattachments : x.row.attachments.getD [] = x.body.attachments := by
    simp only [Creation.row]
    split_ifs with hnil
    · exact hnil.symm
    · rfl
  have hcreated : x.row.createdAt = x.createdAt.timestampMillis := rfl
  simp only [ofPage, toResponse, hattachments, hcreated, htime]
  rfl

theorem page_row {t : MessageTable} {perm : Option Bool} {c : Uuid} {params : ListMessagesQuery} {now : ℤ}
    {page : ListMessagesResponse} (hpage : listMessages t perm c params now = .ok page) {r : MessageResponse}
    (hr : r ∈ page.messages) : ∃ row ∈ t.partition c, r = toResponse c now row := by
  match perm with
  | none => cases hpage
  | some false => cases hpage
  | some true =>
    obtain rfl := Except.ok.inj hpage
    obtain ⟨⟨row, hrow, -, rfl⟩, -⟩ := mem_loadMessages ((buildPage_messages_sublist _ _).subset hr)
    exact ⟨row, hrow, rfl⟩

/-- **Renderings.** A message that `create_message` has answered: every page from then on shows it as it was answered, up to
the millisecond, and the push payload and the event say what was answered. -/
theorem renderings_agree (ops : List Op) {x : Creation} (hx : x ∈ (reached ops).created) :
    (∀ perm c params now page, listMessages (reached ops).table perm c params now = .ok page →
      ∀ r ∈ page.messages, r.messageId = x.messageId → ofPage r = x.message.toMillis) ∧
    Message.ofJson x.message.toJson = some x.message ∧ Message.ofJson x.pushPayload = some x.message ∧
    Message.ofJson x.messageCreated = some x.message := by
  refine ⟨?_, (says_toJson x.message).ofJson x.uuids, (says_pushPayload x).ofJson x.uuids,
    (says_messageCreated x).ofJson x.uuids⟩
  intro perm c params now page hpage r hr hid
  obtain ⟨row, hrow, rfl⟩ := page_row hpage hr
  obtain ⟨rfl, deletedAt, rfl⟩ := (run_inv' kept_step kept_init ops).stored x hx c row hrow hid
  exact ofPage_row x now deletedAt

/-- created at 2024-05-01T00:00:00.123456789Z -/
def hello : Creation where
  userId := 7
  channelId := 1
  serverId := some 2
  body := ⟨"hello", []⟩
  messageId := 10
  createdAt := ⟨1714521600123456789, by norm_num⟩
  uuids := by norm_num

theorem hello_agrees : ∃ page, listMessages (reached [.create hello .done]).table (some true) 1 ⟨none, none⟩ 0 = .ok page ∧
    (∀ r ∈ page.messages, r.messageId = 10 → ofPage r = hello.message.toMillis) ∧
    Message.ofJson hello.pushPayload = some hello.message := by
  have hagree := renderings_agree [.create hello .done] (x := hello) (List.mem_singleton_self _)
  exact ⟨_, rfl, hagree.1 (some true) 1 ⟨none, none⟩ 0 _ rfl, hagree.2.2.1⟩

/-- the page does not have the 456789 nanoseconds of the answer -/
theorem finer_than_stored : hello ∈ (reached [.create hello .done]).created ∧
    ∃ page, listMessages (reached [.create hello .done]).table (some true) 1 ⟨none, none⟩ 0 = .ok page ∧
      ∃ r ∈ page.messages, r.messageId = hello.messageId ∧ ofPage r ≠ hello.message := by
  refine ⟨List.mem_singleton_self _, _, rfl, _, List.mem_singleton_self _, rfl, ?_⟩
  decide

end Concordia.Chat.Renderings
