/-
Chat's four message endpoints as requests that are under way together (`services/chat/src/handlers/messages.rs`:
`create_message`, `list_messages`, `delete_message`; `handlers/attachments.rs`: `upload_attachment`), over the `messages`
table, the page cache in Redis and the object store.

- A request waits for one answer at a time: CheckPerm's, Cassandra's, Redis', S3's. Each answer, and the moment at which
  the request returns, is a step; the steps of all requests and the passing of time come in any order. The user is the
  one `AuthUser` has read from the token.
- What is asked may fail, and a write whose answer is an error may have been carried out nevertheless.
- A cached body is kept as the response it encodes. An entry lives for `cache_ttl_secs` from the SET; a SET with a time
  of zero, which Redis refuses, leaves an entry that is never alive.
- `log` records, for the statements only, what the requests have asked and done, with the time.
- Ids are 128-bit UUIDs, which the path and query extractors see to; message ids are never used twice.

`step_effect` is all that a step can do.
-/
import Concordia.Chat.Writes
import Concordia.Servers.UuidText
import Concordia.Lib.Decimal

namespace Concordia.Chat.Requests

open Concordia.Lib
open Concordia.Servers (Uuid Action)
open Function (update update_self update_of_ne)

/-! ## Requests -/

/-- a field of a multipart body; a chunk is its bytes, none if it cannot be read -/
structure Field where
  name : Option String
  fileName : Option String
  contentType : Option String
  chunks : List (Option (List UInt8))
deriving DecidableEq, Repr

deriving instance DecidableEq, Repr for ListMessagesQuery

inductive Request where
  | create (channelId : Uuid) (body : CreateMessageBody)
  | list (channelId : Uuid) (params : ListMessagesQuery)
  | delete (channelId messageId : Uuid)
  /-- the fields in order, none where the body cannot be read -/
  | upload (channelId : Uuid) (multipart : List (Option Field))
deriving DecidableEq, Repr

def Request.channelId : Request → Uuid
  | .create c _ | .list c _ | .delete c _ | .upload c _ => c

/-- the ids that the extractors read are UUIDs -/
def Request.Uuids : Request → Prop
  | .create c _ | .upload c _ => c < 2 ^ 128
  | .list c params => c < 2 ^ 128 ∧ ∀ k ∈ params.before, k < 2 ^ 128
  | .delete c m => c < 2 ^ 128 ∧ m < 2 ^ 128

instance : (q : Request) → Decidable q.Uuids
  | .create c _ | .upload c _ => inferInstanceAs (Decidable (c < 2 ^ 128))
  | .list c params => inferInstanceAs (Decidable (c < 2 ^ 128 ∧ ∀ k ∈ params.before, k < 2 ^ 128))
  | .delete c m => inferInstanceAs (Decidable (c < 2 ^ 128 ∧ m < 2 ^ 128))

/-- what `upload_attachment` has read of the body -/
structure File where
  filename : String
  contentType : String
  bytes : List UInt8
deriving DecidableEq, Repr

structure AttachmentResponse where
  attachmentId : Uuid
  url : String
  filename : String
  sizeBytes : ℕ
deriving DecidableEq, Repr

inductive Answer where
  | created (message : MessageResponse)
  | page (page : ListMessagesResponse)
  | noContent
  | uploaded (attachment : AttachmentResponse)
  | error (e : ErrorResponse)
deriving DecidableEq, Repr

/-- what a request waits for -/
inductive Phase where
  /-- CheckPerm's answer -/
  | checking
  /-- `create_message`: INSERT -/
  | inserting
  /-- `list_messages`: GET from the cache -/
  | reading
  /-- `list_messages`: SELECT -/
  | selecting
  /-- `list_messages`: SET in the cache -/
  | filling (page : ListMessagesResponse)
  /-- `delete_message`: SELECT -/
  | looking
  /-- `delete_message`: UPDATE -/
  | marking
  /-- `upload_attachment`: PUT -/
  | storing (file : File)
  | responding (a : Answer)
  | answered (a : Answer)
deriving DecidableEq, Repr

structure Task where
  userId : Uuid
  request : Request
  phase : Phase

/-! ## The log -/

inductive Event where
  | checked (userId channelId : Uuid) (action : Action) (answer : Option Bool)
  | inserted (userId channelId messageId : Uuid)
  | markedDeleted (userId channelId messageId : Uuid)
  | stored (userId channelId : Uuid) (key : String)
  | returned (userId : Uuid) (request : Request) (answer : Answer)
deriving DecidableEq, Repr

structure Entry where
  request : ℕ
  /-- in milliseconds -/
  time : ℕ
  event : Event
deriving DecidableEq, Repr

/-! ## State -/

structure Config where
  /-- `state.cache` is not None -/
  cached : Bool
  cacheTtlSecs : ℕ
  s3PublicEndpoint : String
  s3Bucket : String

structure Cached where
  page : ListMessagesResponse
  deadline : ℕ
deriving DecidableEq, Repr

/-- an object of the bucket -/
structure Object where
  key : String
  contentType : String
  bytes : List UInt8
deriving DecidableEq, Repr

def Object.size (o : Object) : ℕ := o.bytes.length

structure St where
  /-- in milliseconds -/
  now : ℕ
  table : MessageTable
  cache : String → Option Cached
  objects : List Object
  requests : ℕ → Option Task
  log : List Entry

theorem noRows_descending (_ : Uuid) : ([] : List MessageRow).Pairwise fun a b => b.messageId < a.messageId :=
  List.Pairwise.nil

def init : St := ⟨0, ⟨fun _ => [], noRows_descending⟩, fun _ => none, [], fun _ => none, []⟩

/-- what becomes of a SELECT -/
inductive Reply where
  | rows
  | failed
  | undecodable
deriving DecidableEq, Repr

/-- what becomes of a write -/
inductive Outcome where
  | done
  /-- carried out, and answered with an error -/
  | lost
  | failed
deriving DecidableEq, Repr

inductive Op where
  | arrive (r : ℕ) (userId : Uuid) (request : Request)
  | check (r : ℕ) (answer : Option Bool)
  | insert (r : ℕ) (messageId : Uuid) (outcome : Outcome)
  /-- `ok` is false when Redis answers with an error -/
  | get (r : ℕ) (ok : Bool)
  | select (r : ℕ) (reply : Reply)
  | set (r : ℕ) (outcome : Outcome)
  | look (r : ℕ) (reply : Reply)
  | mark (r : ℕ) (outcome : Outcome)
  | put (r : ℕ) (attachmentId : Uuid) (outcome : Outcome)
  | respond (r : ℕ)
  | tick (millis : ℕ)

/-! ## `upload_attachment`: reading the body -/

def maxFileBytes : ℕ := 25 * 1024 * 1024

/-- `char::is_whitespace` -/
def isWhitespace (c : Char) : Bool :=
  let n := c.toNat
  (0x9 ≤ n ∧ n ≤ 0xD) ∨ n = 0x20 ∨ n = 0x85 ∨ n = 0xA0 ∨ n = 0x1680 ∨ (0x2000 ≤ n ∧ n ≤ 0x200A) ∨ n = 0x2028 ∨
    n = 0x2029 ∨ n = 0x202F ∨ n = 0x205F ∨ n = 0x3000

def trim (cs : List Char) : List Char := ((cs.dropWhile isWhitespace).reverse.dropWhile isWhitespace).reverse

def isAllowedMime (ct : String) : Bool :=
  let mime := trim ((ct.toList.map Char.toLower).takeWhile (· ≠ ';'))
  if "image/".toList.isPrefixOf mime then mime.drop 6 ≠ [] else mime = "video/mp4".toList ∨ mime = "application/pdf".toList

/-- the rest of the file, with `buf` of it read -/
def readChunks (buf : List UInt8) : List (Option (List UInt8)) → Except ErrorResponse (List UInt8)
  | [] => .ok buf
  | none :: _ => .error ⟨400, "failed to read upload"⟩
  | some chunk :: chunks =>
    if maxFileBytes < buf.length + chunk.length then .error ⟨413, "file exceeds 25 MB limit"⟩
    else readChunks (buf ++ chunk) chunks

def readField (field : Field) : Except ErrorResponse File :=
  match field.fileName with
  | none => .error ⟨400, "missing filename"⟩
  | some filename =>
    let contentType := field.contentType.getD "application/octet-stream"
    if isAllowedMime contentType then do
      let bytes ← readChunks [] field.chunks
      return ⟨filename, contentType, bytes⟩
    else .error ⟨415, "unsupported media type"⟩

/-- the first field that is named `file` -/
def readFile : List (Option Field) → Except ErrorResponse File
  | [] => .error ⟨400, "missing file field"⟩
  | none :: _ => .error ⟨400, "invalid multipart body"⟩
  | some field :: fields => if field.name = some "file" then readField field else readFile fields

def objectKey (channelId attachmentId : Uuid) (filename : String) : String :=
  Servers.Uuid.toString channelId ++ "/" ++ Servers.Uuid.toString attachmentId ++ "/" ++ filename

/-- `trim_end_matches('/')` -/
def trimEndSlashes (s : String) : String := String.ofList (s.toList.reverse.dropWhile (· = '/')).reverse

def attachmentUrl (cfg : Config) (key : String) : String :=
  trimEndSlashes cfg.s3PublicEndpoint ++ "/" ++ cfg.s3Bucket ++ "/" ++ key

/-! ## The handlers, one answer at a time -/

def error (status : ℕ) (text : String) : Phase := .responding (.error ⟨status, text⟩)

/-- where a request begins -/
def firstPhase : Request → Phase
  | .create _ _ | .list _ _ => .checking
  | .delete _ _ => .looking
  | .upload _ multipart =>
    match readFile multipart with
    | .ok file => .storing file
    | .error e => .responding (.error e)

/-- what a request asks CheckPerm for, and where it goes on when that is allowed -/
def checks (cfg : Config) : Request → Option (Action × Phase)
  | .create _ _ => some (.write, .inserting)
  | .list _ _ => some (.read, if cfg.cached then .reading else .selecting)
  | .delete _ _ => some (.manage, .marking)
  | .upload _ _ => none

def afterCheck (next : Phase) : Option Bool → Phase
  | some true => next
  | some false => error 403 "insufficient permissions"
  | none => error 500 "permission check failed"

def messageRow (messageId userId : Uuid) (body : CreateMessageBody) (now : ℕ) : MessageRow where
  messageId := messageId
  authorId := userId
  content := body.content
  attachments := if body.attachments = [] then none else some body.attachments
  createdAt := now
  deletedAt := none

/-- it is the row that `create_message` stores in one step -/
theorem newRow_eq (b : Backend) (userId : Uuid) (body : CreateMessageBody) {now : ℕ} (h : b.now = now) :
    newRow b userId body = messageRow b.messageId userId body now := by
  simp [newRow, messageRow, h]

/-- format!("msg:{}:{}:{}", channel_id, limit, before or "_") -/
def cacheKey (channelId : Uuid) (params : ListMessagesQuery) : String :=
  "msg:" ++ Servers.Uuid.toString channelId ++ ":" ++ toString (clampLimit params.limit) ++ ":" ++
    (params.before.map Servers.Uuid.toString).getD "_"

/-- the page of the rows that SELECT finds now -/
def readPage (t : MessageTable) (channelId : Uuid) (params : ListMessagesQuery) (now : ℕ) : ListMessagesResponse :=
  buildPage (clampLimit params.limit)
    (loadMessages t channelId params.before (clampLimit params.limit + 1) now)

/-! ## Steps -/

/-- the entry of a key that is alive; it ends at its deadline, where Redis has up to a millisecond more -/
def St.lookup (s : St) (key : String) : Option Cached := (s.cache key).filter fun e => s.now < e.deadline

/-- a message id that some INSERT has used -/
def Event.newMessage : Event → Option Uuid
  | .inserted _ _ m => some m
  | _ => none

def St.used (s : St) : List Uuid := s.log.filterMap fun e => e.event.newMessage

def St.move (s : St) (r : ℕ) (task : Task) (phase : Phase) : St :=
  { s with requests := update s.requests r (some { task with phase }) }

def St.record (s : St) (r : ℕ) (event : Event) : St := { s with log := s.log ++ [⟨r, s.now, event⟩] }

/-- the phase after a write that was carried out -/
def written (ok : Bool) (a : Answer) (text : String) : Phase := if ok then .responding a else error 500 text

def insertMessage (s : St) (r : ℕ) (task : Task) (channelId messageId : Uuid) (body : CreateMessageBody)
    (ok : Bool) : St :=
  { (s.record r (.inserted task.userId channelId messageId)).move r task
      (written ok (.created ⟨messageId, channelId, task.userId, body.content, body.attachments, s.now⟩)
        "failed to persist message") with
    table := s.table.insert channelId (messageRow messageId task.userId body s.now) }

def markDeleted (s : St) (r : ℕ) (task : Task) (channelId messageId : Uuid) (ok : Bool) : St :=
  { (s.record r (.markedDeleted task.userId channelId messageId)).move r task
      (written ok .noContent "failed to delete message") with
    table := s.table.softDelete channelId messageId s.now }

def setCache (cfg : Config) (s : St) (r : ℕ) (task : Task) (channelId : Uuid) (params : ListMessagesQuery)
    (page : ListMessagesResponse) : St :=
  { s.move r task (.responding (.page page)) with
    cache := update s.cache (cacheKey channelId params) (some ⟨page, s.now + 1000 * cfg.cacheTtlSecs⟩) }

def putObject (cfg : Config) (s : St) (r : ℕ) (task : Task) (channelId attachmentId : Uuid) (file : File)
    (ok : Bool) : St :=
  let key := objectKey channelId attachmentId file.filename
  { (s.record r (.stored task.userId channelId key)).move r task
      (written ok (.uploaded ⟨attachmentId, attachmentUrl cfg key, file.filename, file.bytes.length⟩)
        "failed to upload file") with
    objects := s.objects ++ [⟨key, file.contentType, file.bytes⟩] }

/-- `delete_message`, from the row it has selected -/
def afterLook (userId : Uuid) : Option MessageRow → Phase
  | none => error 404 "not found"
  | some row =>
    if row.deletedAt.isSome then error 404 "not found" else if row.authorId = userId then .marking else .checking

/-- the request returns -/
def respond (s : St) (r : ℕ) (task : Task) (a : Answer) : St :=
  (s.record r (.returned task.userId task.request a)).move r task (.answered a)

/-- the next step of a request that waits for this answer; any other leaves it where it is -/
def answer (cfg : Config) (s : St) (r : ℕ) (task : Task) : Op → St
  | .check _ reply =>
    match task.phase, checks cfg task.request with
    | .checking, some (action, next) =>
      (s.record r (.checked task.userId task.request.channelId action reply)).move r task (afterCheck next reply)
    | _, _ => s
  | .insert _ messageId outcome =>
    match task.phase, task.request with
    | .inserting, .create channelId body =>
      if messageId ∈ s.used then s
      else match outcome with
        | .done => insertMessage s r task channelId messageId body true
        | .lost => insertMessage s r task channelId messageId body false
        | .failed => s.move r task (error 500 "failed to persist message")
    | _, _ => s
  | .get _ ok =>
    match task.phase, task.request with
    | .reading, .list channelId params =>
      match if ok then s.lookup (cacheKey channelId params) else none with
      | some entry => s.move r task (.responding (.page entry.page))
      | none => s.move r task .selecting
    | _, _ => s
  | .select _ reply =>
    match task.phase, task.request with
    | .selecting, .list channelId params =>
      match reply with
      | .rows =>
        let page := readPage s.table channelId params s.now
        s.move r task (if cfg.cached then .filling page else .responding (.page page))
      | .failed => s.move r task (error 500 "failed to load messages")
      | .undecodable => s.move r task (error 500 "failed to decode messages")
    | _, _ => s
  | .set _ outcome =>
    match task.phase, task.request with
    | .filling page, .list channelId params =>
      match outcome with
      | .failed => s.move r task (.responding (.page page))
      | _ => setCache cfg s r task channelId params page
    | _, _ => s
  | .look _ reply =>
    match task.phase, task.request with
    | .looking, .delete channelId messageId =>
      match reply with
      | .rows => s.move r task
        (afterLook task.userId ((s.table.partition channelId).find? fun row => row.messageId = messageId))
      | .failed => s.move r task (error 500 "failed to load message")
      | .undecodable => s.move r task (error 500 "failed to decode message")
    | _, _ => s
  | .mark _ outcome =>
    match task.phase, task.request with
    | .marking, .delete channelId messageId =>
      match outcome with
      | .done => markDeleted s r task channelId messageId true
      | .lost => markDeleted s r task channelId messageId false
      | .failed => s.move r task (error 500 "failed to delete message")
    | _, _ => s
  | .put _ attachmentId outcome =>
    match task.phase with
    | .storing file =>
      match outcome with
      | .done => putObject cfg s r task task.request.channelId attachmentId file true
      | .lost => putObject cfg s r task task.request.channelId attachmentId file false
      | .failed => s.move r task (error 500 "failed to upload file")
    | _ => s
  | .respond _ =>
    match task.phase with
    | .responding a => respond s r task a
    | _ => s
  | .arrive _ _ _ | .tick _ => s

/-- the request that a step is about -/
def Op.request : Op → Option ℕ
  | .arrive r _ _ | .check r _ | .insert r _ _ | .get r _ | .select r _ | .set r _ | .look r _ | .mark r _
  | .put r _ _ | .respond r => some r
  | .tick _ => none

def step (cfg : Config) (s : St) (o : Op) : St :=
  match o with
  | .tick millis => { s with now := s.now + millis }
  | .arrive r userId q =>
    match s.requests r with
    | some _ => s
    | none =>
      if q.Uuids then { s with requests := update s.requests r (some ⟨userId, q, firstPhase q⟩) } else s
  | o =>
    match o.request.bind fun r => (s.requests r).map fun task => (r, task) with
    | some (r, task) => answer cfg s r task o
    | none => s

abbrev reached (cfg : Config) (ops : List Op) : St := run (step cfg) init ops

/-! ## What a step can do -/

/-- answers that change nothing but the phase -/
inductive Quiet (cfg : Config) (s : St) (task : Task) : Op → Phase → Prop where
  | insertFailed (r : ℕ) (m : Uuid) (hphase : task.phase = .inserting) :
      Quiet cfg s task (.insert r m .failed) (error 500 "failed to persist message")
  | hit {r : ℕ} {c : Uuid} {params : ListMessagesQuery} {entry : Cached} (hphase : task.phase = .reading)
      (hq : task.request = .list c params) (hentry : s.lookup (cacheKey c params) = some entry) :
      Quiet cfg s task (.get r true) (.responding (.page entry.page))
  | miss (r : ℕ) (ok : Bool) {c : Uuid} {params : ListMessagesQuery} (hphase : task.phase = .reading)
      (hq : task.request = .list c params) : Quiet cfg s task (.get r ok) .selecting
  | selected (r : ℕ) {c : Uuid} {params : ListMessagesQuery} (hphase : task.phase = .selecting)
      (hq : task.request = .list c params) : Quiet cfg s task (.select r .rows)
        (if cfg.cached then .filling (readPage s.table c params s.now)
          else .responding (.page (readPage s.table c params s.now)))
  | selectFailed (r : ℕ) (reply : Reply) (text : String) (hphase : task.phase = .selecting) :
      Quiet cfg s task (.select r reply) (error 500 text)
  | notSet (r : ℕ) {page : ListMessagesResponse} (hphase : task.phase = .filling page) :
      Quiet cfg s task (.set r .failed) (.responding (.page page))
  | lookFailed (r : ℕ) (reply : Reply) (status : ℕ) (text : String) (hphase : task.phase = .looking) :
      Quiet cfg s task (.look r reply) (error status text)
  | author (r : ℕ) {c m : Uuid} {row : MessageRow} (hphase : task.phase = .looking) (hq : task.request = .delete c m)
      (hrow : row ∈ s.table.partition c) (hid : row.messageId = m) (hauthor : row.authorId = task.userId) :
      Quiet cfg s task (.look r .rows) .marking
  | notAuthor (r : ℕ) {c m : Uuid} {row : MessageRow} (hphase : task.phase = .looking)
      (hq : task.request = .delete c m) (hrow : row ∈ s.table.partition c) (hid : row.messageId = m) :
      Quiet cfg s task (.look r .rows) .checking
  | markFailed (r : ℕ) (hphase : task.phase = .marking) :
      Quiet cfg s task (.mark r .failed) (error 500 "failed to delete message")
  | putFailed (r : ℕ) (attachmentId : Uuid) {file : File} (hphase : task.phase = .storing file) :
      Quiet cfg s task (.put r attachmentId .failed) (error 500 "failed to upload file")

inductive Effect (cfg : Config) (s : St) : Op → St → Prop where
  | tick (millis : ℕ) : Effect cfg s (.tick millis) { s with now := s.now + millis }
  | arrive {r : ℕ} {userId : Uuid} {q : Request} (hnone : s.requests r = none) (huuids : q.Uuids) :
      Effect cfg s (.arrive r userId q)
        { s with requests := update s.requests r (some ⟨userId, q, firstPhase q⟩) }
  | quiet {o : Op} {r : ℕ} {task : Task} {phase : Phase} (htask : s.requests r = some task) (ho : o.request = some r)
      (h : Quiet cfg s task o phase) : Effect cfg s o (s.move r task phase)
  | check {r : ℕ} {task : Task} {action : Action} {next : Phase} (reply : Option Bool)
      (htask : s.requests r = some task) (hphase : task.phase = .checking)
      (hchecks : checks cfg task.request = some (action, next)) : Effect cfg s (.check r reply)
        ((s.record r (.checked task.userId task.request.channelId action reply)).move r task (afterCheck next reply))
  | insert {r : ℕ} {task : Task} {c m : Uuid} {body : CreateMessageBody} {outcome : Outcome} (ok : Bool)
      (htask : s.requests r = some task) (hphase : task.phase = .inserting) (hq : task.request = .create c body)
      (hfresh : m ∉ s.used) (happlied : outcome ≠ .failed) :
      Effect cfg s (.insert r m outcome) (insertMessage s r task c m body ok)
  | mark {r : ℕ} {task : Task} {c m : Uuid} {outcome : Outcome} (ok : Bool) (htask : s.requests r = some task)
      (hphase : task.phase = .marking) (hq : task.request = .delete c m) (happlied : outcome ≠ .failed) :
      Effect cfg s (.mark r outcome) (markDeleted s r task c m ok)
  | set {r : ℕ} {task : Task} {c : Uuid} {params : ListMessagesQuery} {page : ListMessagesResponse} {outcome : Outcome}
      (htask : s.requests r = some task) (hphase : task.phase = .filling page) (hq : task.request = .list c params)
      (happlied : outcome ≠ .failed) : Effect cfg s (.set r outcome) (setCache cfg s r task c params page)
  | put {r : ℕ} {task : Task} {file : File} {attachmentId : Uuid} {outcome : Outcome} (ok : Bool)
      (htask : s.requests r = some task) (hphase : task.phase = .storing file) (happlied : outcome ≠ .failed) :
      Effect cfg s (.put r attachmentId outcome) (putObject cfg s r task task.request.channelId attachmentId file ok)
  | respond {r : ℕ} {task : Task} {a : Answer} (htask : s.requests r = some task) (hphase : task.phase = .responding a) :
      Effect cfg s (.respond r) (respond s r task a)

theorem afterLook_cases {s : St} {cfg : Config} {task : Task} {c m : Uuid} (r : ℕ) (hphase : task.phase = .looking)
    (hq : task.request = .delete c m) : Quiet cfg s task (.look r .rows)
      (afterLook task.userId ((s.table.partition c).find? fun row => row.messageId = m)) := by
  cases hfind : (s.table.partition c).find? fun row => row.messageId = m with
  | none => exact .lookFailed r _ _ _ hphase
  | some row =>
    obtain ⟨hrow, hid⟩ := find?_some_iff_mem hfind
    simp only [afterLook]
    split_ifs with hdeleted hauthor
    · exact .lookFailed r _ _ _ hphase
    · exact .author r hphase hq hrow (of_decide_eq_true hid) hauthor
    · exact .notAuthor r hphase hq hrow (of_decide_eq_true hid)

theorem answer_effect {cfg : Config} {s : St} {r : ℕ} {task : Task} {o : Op} (htask : s.requests r = some task)
    (ho : o.request = some r) : answer cfg s r task o = s ∨ Effect cfg s o (answer cfg s r task o) := by
  cases o with
  | arrive => exact .inl rfl
  | tick => exact .inl rfl
  | check r' reply =>
    obtain rfl : r' = r := Option.some.inj ho
    simp only [answer]
    split
    · next action next hphase hchecks => exact .inr (.check reply htask hphase hchecks)
    · exact .inl rfl
  | insert r' m outcome =>
    obtain rfl : r' = r := Option.some.inj ho
    simp only [answer]
    split
    · next c body hphase hq =>
      split_ifs with hused
      · exact .inl rfl
      · cases outcome with
        | done => exact .inr (.insert true htask hphase hq hused (by simp))
        | lost => exact .inr (.insert false htask hphase hq hused (by simp))
        | failed => exact .inr (.quiet htask rfl (.insertFailed r' m hphase))
    · exact .inl rfl
  | get r' ok =>
    obtain rfl : r' = r := Option.some.inj ho
    simp only [answer]
    split
    · next c params hphase hq =>
      split
      · next entry hentry =>
        split_ifs at hentry with hok
        subst hok
        exact .inr (.quiet htask rfl (.hit hphase hq hentry))
      · exact .inr (.quiet htask rfl (.miss r' ok hphase hq))
    · exact .inl rfl
  | select r' reply =>
    obtain rfl : r' = r := Option.some.inj ho
    simp only [answer]
    split
    · next c params hphase hq =>
      cases reply with
      | rows => exact .inr (.quiet htask rfl (.selected r' hphase hq))
      | failed => exact .inr (.quiet htask rfl (.selectFailed r' _ _ hphase))
      | undecodable => exact .inr (.quiet htask rfl (.selectFailed r' _ _ hphase))
    · exact .inl rfl
  | set r' outcome =>
    obtain rfl : r' = r := Option.some.inj ho
    simp only [answer]
    split
    · next page c params hphase hq =>
      cases outcome with
      | done => exact .inr (.set htask hphase hq (by simp))
      | lost => exact .inr (.set htask hphase hq (by simp))
      | failed => exact .inr (.quiet htask rfl (.notSet r' hphase))
    · exact .inl rfl
  | look r' reply =>
    obtain rfl : r' = r := Option.some.inj ho
    simp only [answer]
    split
    · next c m hphase hq =>
      cases reply with
      | rows => exact .inr (.quiet htask rfl (afterLook_cases r' hphase hq))
      | failed => exact .inr (.quiet htask rfl (.lookFailed r' _ _ _ hphase))
      | undecodable => exact .inr (.quiet htask rfl (.lookFailed r' _ _ _ hphase))
    · exact .inl rfl
  | mark r' outcome =>
    obtain rfl : r' = r := Option.some.inj ho
    simp only [answer]
    split
    · next c m hphase hq =>
      cases outcome with
      | done => exact .inr (.mark true htask hphase hq (by simp))
      | lost => exact .inr (.mark false htask hphase hq (by simp))
      | failed => exact .inr (.quiet htask rfl (.markFailed r' hphase))
    · exact .inl rfl
  | put r' attachmentId outcome =>
    obtain rfl : r' = r := Option.some.inj ho
    simp only [answer]
    split
    · next file hphase =>
      cases outcome with
      | done => exact .inr (.put true htask hphase (by simp))
      | lost => exact .inr (.put false htask hphase (by simp))
      | failed => exact .inr (.quiet htask rfl (.putFailed r' attachmentId hphase))
    · exact .inl rfl
  | respond r' =>
    obtain rfl : r' = r := Option.some.inj ho
    simp only [answer]
    split
    · next a hphase => exact .inr (.respond htask hphase)
    · exact .inl rfl

/-- the step of a request that is under way -/
theorem step_answer (cfg : Config) {s : St} {r : ℕ} {task : Task} {o : Op} (htask : s.requests r = some task)
    (ho : o.request = some r) : step cfg s o = answer cfg s r task o := by
  cases o with
  | tick => cases ho
  | arrive r' u q =>
    obtain rfl := Option.some.inj ho
    simp [step, answer, htask]
  | _ =>
    obtain rfl := Option.some.inj ho
    simp [step, Op.request, htask]

theorem step_effect (cfg : Config) (s : St) (o : Op) : step cfg s o = s ∨ Effect cfg s o (step cfg s o) := by
  -- the step of a request that is under way
  have hanswer : ∀ r, o.request = some r → (∀ r u q, o ≠ .arrive r u q) →
      step cfg s o = s ∨ Effect cfg s o (step cfg s o) := by
    intro r ho harrive
    cases htask : s.requests r with
    | none =>
      have heq : step cfg s o = s := by
        unfold step
        split
        · cases ho
        · exact absurd rfl (harrive _ _ _)
        · simp [ho, htask]
      exact .inl heq
    | some task =>
      rw [step_answer cfg htask ho]
      exact answer_effect htask ho
  cases o with
  | tick millis => exact .inr (.tick millis)
  | arrive r userId q =>
    simp only [step]
    split
    · exact .inl rfl
    · next hnone =>
      split_ifs with huuids
      · exact .inr (.arrive hnone huuids)
      · exact .inl rfl
  | _ => exact hanswer _ rfl (by simp)

/-- where CheckPerm's reply brings a request -/
inductive Checked (cfg : Config) : Request → Action → Option Bool → Phase → Prop where
  | refused (q : Request) (action : Action) {reply : Option Bool} (status : ℕ) (text : String) (h : reply ≠ some true) :
      Checked cfg q action reply (error status text)
  | create (c : Uuid) (body : CreateMessageBody) : Checked cfg (.create c body) .write (some true) .inserting
  | list (c : Uuid) (params : ListMessagesQuery) :
      Checked cfg (.list c params) .read (some true) (if cfg.cached then .reading else .selecting)
  | delete (c m : Uuid) : Checked cfg (.delete c m) .manage (some true) .marking

theorem afterCheck_checked {cfg : Config} {q : Request} {action : Action} {next : Phase}
    (hchecks : checks cfg q = some (action, next)) (reply : Option Bool) :
    Checked cfg q action reply (afterCheck next reply) := by
  match reply with
  | none => exact .refused q action _ _ (by simp)
  | some false => exact .refused q action _ _ (by simp)
  | some true =>
    cases q with
    | create c body =>
      obtain ⟨rfl, rfl⟩ := Prod.mk.inj (Option.some.inj hchecks)
      exact .create c body
    | list c params =>
      obtain ⟨rfl, rfl⟩ := Prod.mk.inj (Option.some.inj hchecks)
      exact .list c params
    | delete c m =>
      obtain ⟨rfl, rfl⟩ := Prod.mk.inj (Option.some.inj hchecks)
      exact .delete c m
    | upload c multipart => cases hchecks

/-- the log only grows -/
theorem log_step (cfg : Config) (s : St) (o : Op) : s.log <+: (step cfg s o).log := by
  rcases step_effect cfg s o with heq | he
  · rw [heq]
  generalize step cfg s o = t at he
  cases he with
  | check => exact List.prefix_append _ _
  | insert => exact List.prefix_append _ _
  | mark => exact List.prefix_append _ _
  | put => exact List.prefix_append _ _
  | respond => exact List.prefix_append _ _
  | _ => exact List.prefix_refl _

theorem log_run (cfg : Config) (s : St) (ops : List Op) : s.log <+: (run (step cfg) s ops).log :=
  run_rel (R := fun s t : St => s.log <+: t.log) (fun s => List.prefix_refl s.log) (fun _ _ _ h h' => h.trans h')
    (log_step cfg) s ops

/-! ## The table of requests -/

theorem move_cases {s : St} {r r' : ℕ} {task task' : Task} {phase : Phase}
    (h : (s.move r task phase).requests r' = some task') :
    (r' = r ∧ task' = { task with phase }) ∨ (r' ≠ r ∧ s.requests r' = some task') := by
  rcases update_cases h with ⟨rfl, hself⟩ | hother
  · exact .inl ⟨rfl, (Option.some.inj hself).symm⟩
  · exact .inr hother

theorem move_ne_none {s : St} {r r' : ℕ} {task : Task} {phase : Phase} (h : r' = r ∨ s.requests r' ≠ none) :
    (s.move r task phase).requests r' ≠ none := by
  simp only [St.move]
  rcases eq_or_ne r' r with rfl | hne
  · simp
  · rw [update_of_ne hne]
    exact h.resolve_left hne

theorem arrive_cases {s : St} {r r' : ℕ} {task task' : Task}
    (h : update s.requests r (some task) r' = some task') : (r' = r ∧ task' = task) ∨ s.requests r' = some task' := by
  rcases update_cases h with ⟨rfl, hself⟩ | ⟨-, hother⟩
  · exact .inl ⟨rfl, (Option.some.inj hself).symm⟩
  · exact .inr hother

theorem mem_used {s : St} {e : Entry} {u c m : Uuid} (he : e ∈ s.log) (h : e.event = .inserted u c m) : m ∈ s.used :=
  List.mem_filterMap.2 ⟨e, he, by rw [h]; rfl⟩

theorem used_mono {s t : St} (h : s.log <+: t.log) {m : Uuid} (hm : m ∈ s.used) : m ∈ t.used :=
  (h.sublist.filterMap _).subset hm

/-! ## Cache keys -/

theorem length_toString (id : Uuid) : (Servers.Uuid.toString id).toList.length = 36 := by
  simp [Servers.Uuid.toString]

theorem toList_cacheKey (c : Uuid) (params : ListMessagesQuery) : (cacheKey c params).toList = "msg:".toList ++
    ((Servers.Uuid.toString c).toList ++ ':' :: (Nat.toDigits 10 (clampLimit params.limit) ++
      ':' :: ((params.before.map Servers.Uuid.toString).getD "_").toList)) := by
  simp [cacheKey]

theorem digits_noColon (n : ℕ) : ∀ c ∈ Nat.toDigits 10 n, c ≠ ':' := by
  intro c hc
  have hdigit := Nat.isDigit_of_mem_toDigits (by decide) (by decide) hc
  exact Decimal.isDigit_ne hdigit (by decide)

theorem cursorText_inj {k k' : Option Uuid} (hk : ∀ i ∈ k, i < 2 ^ 128) (hk' : ∀ i ∈ k', i < 2 ^ 128)
    (h : (k.map Servers.Uuid.toString).getD "_" = (k'.map Servers.Uuid.toString).getD "_") : k = k' := by
  have hlen := congrArg (fun t : String => t.toList.length) h
  cases k with
  | none =>
    cases k' with
    | none => rfl
    | some i => simp [length_toString] at hlen
  | some i =>
    cases k' with
    | none => simp [length_toString] at hlen
    | some i' =>
      rw [Servers.toString_inj (hk i rfl) (hk' i' rfl) h]

/-- a key names one channel, one limit and one cursor -/
theorem cacheKey_inj {c c' : Uuid} {params params' : ListMessagesQuery} (h : (Request.list c params).Uuids)
    (h' : (Request.list c' params').Uuids) (heq : cacheKey c params = cacheKey c' params') :
    c = c' ∧ clampLimit params.limit = clampLimit params'.limit ∧ params.before = params'.before := by
  have hlist := congrArg String.toList heq
  rw [toList_cacheKey, toList_cacheKey] at hlist
  have hlen : (Servers.Uuid.toString c).toList.length = (Servers.Uuid.toString c').toList.length := by
    rw [length_toString, length_toString]
  obtain ⟨hchannel, hrest⟩ := List.append_inj (List.append_cancel_left hlist) hlen
  have hrest := (List.cons.inj hrest).2
  -- the numeral of the limit ends at the next colon
  obtain ⟨htake, hdrop⟩ := Decimal.takeWhile_mark ':' (digits_noColon (clampLimit params.limit))
    (b := ((params.before.map Servers.Uuid.toString).getD "_").toList)
  obtain ⟨htake', hdrop'⟩ := Decimal.takeWhile_mark ':' (digits_noColon (clampLimit params'.limit))
    (b := ((params'.before.map Servers.Uuid.toString).getD "_").toList)
  rw [hrest] at htake hdrop
  have hdigits := htake.symm.trans htake'
  have hcursor := (List.cons.inj (hdrop.symm.trans hdrop')).2
  refine ⟨Servers.toString_inj h.1 h'.1 (String.toList_injective hchannel), ?_, ?_⟩
  · rw [← Nat.ofDigitChars_ten_toDigits (n := clampLimit params.limit), hdigits, Nat.ofDigitChars_ten_toDigits]
  · exact cursorText_inj h.2 h'.2 (String.toList_injective hcursor)

end Concordia.Chat.Requests
