/-
Reading messages (`services/chat/src/handlers/messages.rs`, `list_messages`) over the `messages` table of `init.cql`.

- A partition holds a channel's rows, newest first: its clustering key is `message_id DESC`, so `MessageTable` carries
  the strict order. Ids are compared as the column compares them; only that order matters.
- `listMessages` is one request: permission answer, clamped limit, one row more than the page, soft-deleted rows
  dropped after the fetch, `has_more` and `next_cursor` from what is left.
- `walk` is a client that starts without `before` and follows `next_cursor` while `has_more` is true.

The page cache is disabled here (`state.cache` is `None`).
-/
import Concordia.Lib.Paging
import Concordia.Servers.Db

namespace Concordia.Chat

open Concordia.Servers (Uuid)

/-! ## The table -/

structure MessageRow where
  messageId : Uuid
  authorId : Uuid
  content : String
  attachments : Option (List String)
  /-- milliseconds since the epoch -/
  createdAt : ℤ
  deletedAt : Option ℤ
deriving DecidableEq, Repr

/-- the `messages` table: a partition for each channel, in clustering order -/
structure MessageTable where
  partition : Uuid → List MessageRow
  descending : ∀ c, (partition c).Pairwise fun a b => b.messageId < a.messageId

/-- SELECT .. WHERE channel_id = ? [AND message_id < ?] LIMIT ? -/
def MessageTable.select (t : MessageTable) (channelId : Uuid) (before : Option Uuid) (limit : ℕ) : List MessageRow :=
  ((t.partition channelId).filter fun row => before.all (row.messageId < ·)).take limit

/-! ## One request -/

structure MessageResponse where
  messageId : Uuid
  channelId : Uuid
  authorId : Uuid
  content : String
  attachments : List String
  /-- milliseconds since the epoch -/
  createdAt : ℤ
deriving DecidableEq, Repr

structure ListMessagesQuery where
  /-- an `i32`: the query string of a larger number is refused before the handler -/
  limit : Option ℤ
  before : Option Uuid

structure ListMessagesResponse where
  messages : List MessageResponse
  nextCursor : Option Uuid
  hasMore : Bool
deriving DecidableEq, Repr

/-- an error answer: the status and the text under "error" -/
structure ErrorResponse where
  status : ℕ
  error : String
deriving DecidableEq, Repr

def defaultLimit : ℤ := 50
def maxLimit : ℤ := 100

/-- `params.limit.unwrap_or(DEFAULT_LIMIT).clamp(1, MAX_LIMIT)` -/
def clampLimit (limit : Option ℤ) : ℕ := (max 1 (min maxLimit (limit.getD defaultLimit))).toNat

/-- a timestamp that chrono can represent is kept, any other becomes the present -/
def cqlToDatetime (now ts : ℤ) : ℤ := if -8334601228800000 ≤ ts ∧ ts ≤ 8210266876799999 then ts else now

def toResponse (channelId : Uuid) (now : ℤ) (row : MessageRow) : MessageResponse where
  messageId := row.messageId
  channelId := channelId
  authorId := row.authorId
  content := row.content
  attachments := row.attachments.getD []
  createdAt := cqlToDatetime now row.createdAt

/-- the rows of the SELECT that are not deleted, as responses -/
def loadMessages (t : MessageTable) (channelId : Uuid) (before : Option Uuid) (fetchLimit : ℕ) (now : ℤ) :
    List MessageResponse :=
  ((t.select channelId before fetchLimit).filter (·.deletedAt.isNone)).map (toResponse channelId now)

/-- the page of the loaded messages -/
def buildPage (limit : ℕ) (messages : List MessageResponse) : ListMessagesResponse :=
  let hasMore := decide (limit < messages.length)
  let messages := if hasMore then messages.take limit else messages
  { messages := messages
    nextCursor := if hasMore then messages.getLast?.map MessageResponse.messageId else none
    hasMore := hasMore }

/-- `list_messages`; `perm` is CheckPerm's answer, `none` when the call failed -/
def listMessages (t : MessageTable) (perm : Option Bool) (channelId : Uuid) (params : ListMessagesQuery) (now : ℤ) :
    Except ErrorResponse ListMessagesResponse :=
  match perm with
  | none => .error ⟨500, "permission check failed"⟩
  | some false => .error ⟨403, "insufficient permissions"⟩
  | some true =>
    let limit := clampLimit params.limit
    .ok (buildPage limit (loadMessages t channelId params.before (limit + 1) now))

/-! ## A walk -/

/-- the pages from `before` on, `none` if a request fails or the fuel runs out; `i` counts the requests -/
def walk (get : ℕ → Option Uuid → Except ErrorResponse ListMessagesResponse) :
    ℕ → ℕ → Option Uuid → Option (List ListMessagesResponse)
  | 0, _, _ => none
  | fuel + 1, i, before =>
    match get i before with
    | .error _ => none
    | .ok page => if page.hasMore then (page :: ·) <$> walk get fuel (i + 1) page.nextCursor else some [page]

/-- the walk of a reader who is allowed READ, over a table nobody writes; request `i` is made at `clock i` -/
def walkChannel (t : MessageTable) (channelId : Uuid) (limit : Option ℤ) (clock : ℕ → ℤ) (fuel : ℕ) :
    Option (List ListMessagesResponse) :=
  walk (fun i before => listMessages t (some true) channelId ⟨limit, before⟩ (clock i)) fuel 0 none

/-! ## Limits and selections -/

theorem clampLimit_bounds (limit : Option ℤ) : 1 ≤ clampLimit limit ∧ clampLimit limit ≤ 100 := by
  unfold clampLimit maxLimit
  omega

/-- what a cursor leaves of a partition -/
def MessageTable.remaining (t : MessageTable) (channelId : Uuid) (before : Option Uuid) : List MessageRow :=
  (t.partition channelId).filter fun row => before.all (row.messageId < ·)

@[simp] theorem MessageTable.remaining_none (t : MessageTable) (c : Uuid) : t.remaining c none = t.partition c := by
  simp [MessageTable.remaining]

/-- the rows below the last row of a run of rows are those that follow it -/
theorem MessageTable.remaining_some {t : MessageTable} {c : Uuid} {shown rest : List MessageRow} {x : MessageRow}
    (h : t.partition c = shown ++ x :: rest) : t.remaining c (some x.messageId) = rest := by
  have := t.descending c
  rw [h] at this
  rw [MessageTable.remaining, h]
  exact Lib.Paging.filter_lt_of_descending this

end Concordia.Chat
