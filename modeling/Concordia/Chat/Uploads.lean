/-
`upload_attachment` (`services/chat/src/handlers/attachments.rs`) reads the file in chunks, as they come in, and stops as
soon as it exceeds 25 MiB. How the body is cut into chunks is up to the network.

- `readChunks_eq`: what is read in the end are the bytes before the first error, unless they are too many or there is one.
- `whole_run`: a run whose bodies come in one piece each goes through the same states, answers and stores, contents
  included.
- `stored_once`: every stored object is, byte by byte, the file of an upload, of an allowed type and at most 25 MiB, no two
  are of one request, and whoever is answered that the file is stored has stored one.
-/
import Concordia.Chat.AttachmentUrl

namespace Concordia.Chat.Requests

open Concordia.Lib
open Concordia.Servers (Uuid)
open Function (update update_self update_of_ne)

/-! ## Bodies in one piece -/

/-- the bytes before the first chunk that cannot be read -/
def received : List (Option (List UInt8)) → List UInt8
  | some chunk :: chunks => chunk ++ received chunks
  | _ => []

def wholeChunks (chunks : List (Option (List UInt8))) : List (Option (List UInt8)) :=
  some (received chunks) :: if none ∈ chunks then [none] else []

def Field.whole (field : Field) : Field := { field with chunks := wholeChunks field.chunks }

def Request.whole : Request → Request
  | .upload c multipart => .upload c (multipart.map (Option.map Field.whole))
  | q => q

def Task.whole (task : Task) : Task := { task with request := task.request.whole }

def Event.whole : Event → Event
  | .returned u q a => .returned u q.whole a
  | event => event

def Entry.whole (e : Entry) : Entry := { e with event := e.event.whole }

/-- the same state, as if the bodies had come in one piece -/
def St.whole (s : St) : St :=
  { s with requests := Option.map Task.whole ∘ s.requests, log := s.log.map Entry.whole }

def Op.whole : Op → Op
  | .arrive r userId q => .arrive r userId q.whole
  | o => o

/-! ## Reading -/

/-- **Chunks.** Too many bytes are refused even if an error comes later. -/
theorem readChunks_eq {buf : List UInt8} (h : buf.length ≤ maxFileBytes) (chunks : List (Option (List UInt8))) :
    readChunks buf chunks =
      if maxFileBytes < buf.length + (received chunks).length then .error ⟨413, "file exceeds 25 MB limit"⟩
      else if none ∈ chunks then .error ⟨400, "failed to read upload"⟩
      else .ok (buf ++ received chunks) := by
  induction chunks generalizing buf with
  | nil => simp [readChunks, received, h]
  | cons chunk chunks ih =>
    cases chunk with
    | none => simp [readChunks, received, h]
    | some chunk =>
      rw [readChunks, received, List.length_append]
      by_cases hn : maxFileBytes < buf.length + chunk.length
      · rw [if_pos hn, if_pos (by omega)]
      · have hroom : (buf ++ chunk).length ≤ maxFileBytes := by
          rw [List.length_append]
          exact not_lt.1 hn
        rw [if_neg hn, ih hroom, List.length_append, List.append_assoc, Nat.add_assoc]
        simp

theorem received_wholeChunks (chunks : List (Option (List UInt8))) : received (wholeChunks chunks) = received chunks := by
  unfold wholeChunks
  split_ifs <;> simp [received]

theorem none_mem_wholeChunks {chunks : List (Option (List UInt8))} : none ∈ wholeChunks chunks ↔ none ∈ chunks := by
  unfold wholeChunks
  split_ifs with h <;> simp [h]

theorem readChunks_whole (chunks : List (Option (List UInt8))) :
    readChunks [] (wholeChunks chunks) = readChunks [] chunks := by
  rw [readChunks_eq (Nat.zero_le _), readChunks_eq (Nat.zero_le _), received_wholeChunks]
  simp only [none_mem_wholeChunks]

theorem readField_whole (field : Field) : readField field.whole = readField field := by
  simp only [readField, Field.whole, readChunks_whole]

theorem readFile_whole (multipart : List (Option Field)) :
    readFile (multipart.map (Option.map Field.whole)) = readFile multipart := by
  induction multipart with
  | nil => rfl
  | cons field multipart ih =>
    cases field with
    | none => rfl
    | some field =>
      simp only [List.map_cons, Option.map_some, readFile, ih, readField_whole]
      rfl

theorem firstPhase_whole (q : Request) : firstPhase q.whole = firstPhase q := by
  cases q with
  | upload c multipart => simp only [Request.whole, firstPhase, readFile_whole]
  | _ => rfl

theorem channelId_whole (q : Request) : q.whole.channelId = q.channelId := by
  cases q <;> rfl

theorem uuids_whole {q : Request} : q.whole.Uuids ↔ q.Uuids := by
  cases q <;> exact Iff.rfl

theorem checks_whole (cfg : Config) (q : Request) : checks cfg q.whole = checks cfg q := by
  cases q <;> rfl

/-! ## Steps -/

theorem whole_move (s : St) (r : ℕ) (task : Task) (phase : Phase) :
    (s.move r task phase).whole = s.whole.move r task.whole phase := by
  simp only [St.whole, St.move, Function.comp_update]
  rfl

theorem whole_record (s : St) (r : ℕ) (event : Event) : (s.record r event).whole = s.whole.record r event.whole := by
  simp [St.whole, St.record, Entry.whole]

theorem whole_used (s : St) : s.whole.used = s.used := by
  have hevent : ∀ event : Event, event.whole.newMessage = event.newMessage := fun event => by cases event <;> rfl
  rw [St.used, St.used, St.whole, List.filterMap_map]
  exact List.filterMap_congr fun e _ => hevent e.event

theorem whole_lookup (s : St) (key : String) : s.whole.lookup key = s.lookup key := rfl

theorem whole_insertMessage (s : St) (r : ℕ) (task : Task) (c m : Uuid) (body : CreateMessageBody) (ok : Bool) :
    (insertMessage s r task c m body ok).whole = insertMessage s.whole r task.whole c m body ok := by
  have hmoved := whole_move (s.record r (.inserted task.userId c m)) r task
    (written ok (.created ⟨m, c, task.userId, body.content, body.attachments, s.now⟩) "failed to persist message")
  rw [whole_record] at hmoved
  exact congrArg (fun t : St => { t with table := s.table.insert c (messageRow m task.userId body s.now) }) hmoved

theorem whole_markDeleted (s : St) (r : ℕ) (task : Task) (c m : Uuid) (ok : Bool) :
    (markDeleted s r task c m ok).whole = markDeleted s.whole r task.whole c m ok := by
  have hmoved := whole_move (s.record r (.markedDeleted task.userId c m)) r task
    (written ok .noContent "failed to delete message")
  rw [whole_record] at hmoved
  exact congrArg (fun t : St => { t with table := s.table.softDelete c m s.now }) hmoved

theorem whole_setCache (cfg : Config) (s : St) (r : ℕ) (task : Task) (c : Uuid) (params : ListMessagesQuery)
    (page : ListMessagesResponse) :
    (setCache cfg s r task c params page).whole = setCache cfg s.whole r task.whole c params page :=
  congrArg (fun t : St => { t with
    cache := update s.cache (cacheKey c params) (some ⟨page, s.now + 1000 * cfg.cacheTtlSecs⟩) })
    (whole_move s r task (.responding (.page page)))

theorem whole_putObject (cfg : Config) (s : St) (r : ℕ) (task : Task) (c attachmentId : Uuid) (file : File) (ok : Bool) :
    (putObject cfg s r task c attachmentId file ok).whole = putObject cfg s.whole r task.whole c attachmentId file ok := by
  have hmoved := whole_move (s.record r (.stored task.userId c (objectKey c attachmentId file.filename))) r task
    (written ok (.uploaded ⟨attachmentId, attachmentUrl cfg (objectKey c attachmentId file.filename), file.filename,
      file.bytes.length⟩) "failed to upload file")
  rw [whole_record] at hmoved
  exact congrArg (fun t : St => { t with
    objects := s.objects ++ [Object.mk (objectKey c attachmentId file.filename) file.contentType file.bytes] }) hmoved

theorem whole_answer (cfg : Config) (s : St) (r : ℕ) (task : Task) (o : Op) :
    answer cfg s.whole r task.whole o.whole = (answer cfg s r task o).whole := by
  obtain ⟨u, q, phase⟩ := task
  cases o with
  | arrive => rfl
  | tick => rfl
  | check r' reply =>
    cases phase with
    | checking =>
      simp only [answer, Op.whole, Task.whole, checks_whole, channelId_whole]
      split
      · rw [whole_move, whole_record]
        rfl
      · rfl
    | _ => rfl
  | insert r' m outcome =>
    cases phase with
    | inserting =>
      cases q with
      | create c body =>
        simp only [answer, Op.whole, Task.whole, Request.whole, whole_used]
        split_ifs
        · rfl
        · cases outcome with
          | failed => exact (whole_move s r ⟨u, .create c body, .inserting⟩ _).symm
          | _ => exact (whole_insertMessage s r ⟨u, .create c body, .inserting⟩ c m body _).symm
      | _ => rfl
    | _ => rfl
  | get r' ok =>
    cases phase with
    | reading =>
      cases q with
      | list c params =>
        simp only [answer, Op.whole, Task.whole, Request.whole, whole_lookup]
        split
        · exact (whole_move s r ⟨u, .list c params, .reading⟩ _).symm
        · exact (whole_move s r ⟨u, .list c params, .reading⟩ _).symm
      | _ => rfl
    | _ => rfl
  | select r' reply =>
    cases phase with
    | selecting =>
      cases q with
      | list c params =>
        cases reply with
        | _ => exact (whole_move s r ⟨u, .list c params, .selecting⟩ _).symm
      | _ => rfl
    | _ => rfl
  | set r' outcome =>
    cases phase with
    | filling page =>
      cases q with
      | list c params =>
        cases outcome with
        | failed => exact (whole_move s r ⟨u, .list c params, .filling page⟩ _).symm
        | _ => exact (whole_setCache cfg s r ⟨u, .list c params, .filling page⟩ c params page).symm
      | _ => rfl
    | _ => rfl
  | look r' reply =>
    cases phase with
    | looking =>
      cases q with
      | delete c m =>
        cases reply with
        | _ => exact (whole_move s r ⟨u, .delete c m, .looking⟩ _).symm
      | _ => rfl
    | _ => rfl
  | mark r' outcome =>
    cases phase with
    | marking =>
      cases q with
      | delete c m =>
        cases outcome with
        | failed => exact (whole_move s r ⟨u, .delete c m, .marking⟩ _).symm
        | _ => exact (whole_markDeleted s r ⟨u, .delete c m, .marking⟩ c m _).symm
      | _ => rfl
    | _ => rfl
  | put r' attachmentId outcome =>
    cases phase with
    | storing file =>
      simp only [answer, Op.whole, Task.whole, channelId_whole]
      cases outcome with
      | failed => exact (whole_move s r ⟨u, q, .storing file⟩ _).symm
      | _ => exact (whole_putObject cfg s r ⟨u, q, .storing file⟩ q.channelId attachmentId file _).symm
    | _ => rfl
  | respond r' =>
    cases phase with
    | responding a =>
      simp only [answer, Op.whole, Task.whole, respond]
      rw [whole_move, whole_record]
      rfl
    | _ => rfl

/-- a request that has not arrived takes no step -/
theorem step_absent (cfg : Config) {s : St} {o : Op} {r : ℕ} (ho : o.request = some r) (harrive : ∀ r u q, o ≠ .arrive r u q)
    (hnone : s.requests r = none) : step cfg s o = s := by
  unfold step
  split
  · cases ho
  · exact absurd rfl (harrive _ _ _)
  · simp [ho, hnone]

theorem whole_step (cfg : Config) (s : St) (o : Op) : step cfg s.whole o.whole = (step cfg s o).whole := by
  have hanswer : ∀ r, o.request = some r → o.whole = o → (∀ r u q, o ≠ .arrive r u q) →
      step cfg s.whole o.whole = (step cfg s o).whole := by
    intro r ho hsame harrive
    cases htask : s.requests r with
    | none =>
      have hnone : s.whole.requests r = none := by simp [St.whole, htask]
      rw [hsame, step_absent cfg ho harrive hnone, step_absent cfg ho harrive htask]
    | some task =>
      have htask' : s.whole.requests r = some task.whole := by simp [St.whole, htask]
      rw [hsame, step_answer cfg htask' ho, step_answer cfg htask ho, ← whole_answer, hsame]
  cases o with
  | tick => rfl
  | arrive r u q =>
    simp only [step, Op.whole, uuids_whole, firstPhase_whole]
    cases htask : s.requests r with
    | some task => simp [St.whole, htask]
    | none =>
      simp only [St.whole, Function.comp_apply, htask, Option.map_none]
      split_ifs
      · simp only [Function.comp_update]
        rfl
      · rfl
  | _ => exact hanswer _ rfl rfl fun _ _ _ h => by cases h

/-- **Chunks do not matter.** A run of requests whose bodies come in one piece each is the same run, up to these bodies: its
answers, its stores and its log are the same. -/
theorem whole_run (cfg : Config) (ops : List Op) : reached cfg (ops.map Op.whole) = (reached cfg ops).whole := by
  induction ops using List.reverseRecOn with
  | nil => rfl
  | append_singleton ops o ih =>
    have hlast := congrArg (fun s => step cfg s o.whole) ih
    rw [List.map_append, List.map_singleton, reached, run_snoc, reached, run_snoc]
    exact hlast.trans (whole_step cfg _ o)

/-! ## What is stored -/

/-- chunks that can all be read -/
theorem readable {chunks : List (Option (List UInt8))} (h : none ∉ chunks) :
    ∃ bytes : List (List UInt8), chunks = bytes.map some ∧ received chunks = bytes.flatten := by
  induction chunks with
  | nil => exact ⟨[], rfl, rfl⟩
  | cons chunk chunks ih =>
    obtain ⟨hchunk, hrest⟩ := not_or.1 (mt List.mem_cons.2 h)
    obtain ⟨bytes, rfl, hreceived⟩ := ih hrest
    cases chunk with
    | none => exact absurd rfl hchunk
    | some b => exact ⟨b :: bytes, rfl, by rw [received, hreceived, List.flatten_cons]⟩

theorem readField_ok {field : Field} {file : File} (h : readField field = .ok file) :
    field.fileName = some file.filename ∧ field.contentType.getD "application/octet-stream" = file.contentType ∧
      isAllowedMime file.contentType = true ∧ none ∉ field.chunks ∧ file.bytes = received field.chunks ∧
      file.bytes.length ≤ maxFileBytes := by
  unfold readField at h
  cases hfilename : field.fileName with
  | none =>
    rw [hfilename] at h
    cases h
  | some filename =>
    simp only [hfilename] at h
    split_ifs at h with hmime
    rw [readChunks_eq (Nat.zero_le _), List.length_nil, Nat.zero_add, List.nil_append] at h
    split_ifs at h with hlarge hbroken
    · cases h
    · cases h
    · obtain rfl := Except.ok.inj h
      exact ⟨rfl, rfl, hmime, hbroken, rfl, not_lt.1 hlarge⟩

/-- the file that is read is that of the first field named `file` -/
theorem readFile_ok {multipart : List (Option Field)} {file : File} (h : readFile multipart = .ok file) :
    ∃ before field after, multipart = before ++ some field :: after ∧
      (∀ f ∈ before, ∃ g : Field, f = some g ∧ g.name ≠ some "file") ∧ field.name = some "file" ∧
      readField field = .ok file := by
  induction multipart with
  | nil => cases h
  | cons head multipart ih =>
    cases head with
    | none => cases h
    | some field =>
      rw [readFile] at h
      split_ifs at h with hname
      · exact ⟨[], field, multipart, rfl, List.forall_mem_nil _, hname, h⟩
      · obtain ⟨before, field', after, rfl, hbefore, hfield⟩ := ih h
        refine ⟨some field :: before, field', after, rfl, ?_, hfield⟩
        exact List.forall_mem_cons.2 ⟨⟨field, rfl, hname⟩, hbefore⟩

/-- the object is the file of that request -/
def Made (s : St) (r : ℕ) (o : Object) : Prop :=
  ∃ task c multipart file attachmentId, s.requests r = some task ∧ task.request = .upload c multipart ∧
    readFile multipart = .ok file ∧ o = ⟨objectKey c attachmentId file.filename, file.contentType, file.bytes⟩

/-- waiting for the PUT or before it -/
def Phase.early : Phase → Bool
  | .responding _ | .answered _ => false
  | _ => true

structure OneEach (s : St) (rs : List ℕ) : Prop where
  nodup : rs.Nodup
  made : List.Forall₂ (Made s) rs s.objects
  done : ∀ r ∈ rs, ∃ task, s.requests r = some task ∧ task.phase.early = false
  storing : ∀ r task file, s.requests r = some task → task.phase = .storing file →
    ∃ c multipart, task.request = .upload c multipart ∧ readFile multipart = .ok file
  uploaded : ∀ r task a, s.requests r = some task → task.phase = .responding (.uploaded a) → r ∈ rs
  told : ∀ e ∈ s.log, ∀ u q a, e.event = .returned u q (.uploaded a) → e.request ∈ rs

theorem oneEach_init : OneEach init [] where
  nodup := List.nodup_nil
  made := .nil
  done := fun r hr => by cases hr
  storing := fun r task file h => by cases h
  uploaded := fun r task a h => by cases h
  told := fun e he => by cases he

theorem Quiet.early {cfg : Config} {s : St} {task : Task} {o : Op} {phase : Phase} (h : Quiet cfg s task o phase) :
    task.phase.early = true := by
  cases h with
  | insertFailed _ _ hphase => rw [hphase]; rfl
  | hit hphase => rw [hphase]; rfl
  | miss _ _ hphase => rw [hphase]; rfl
  | selected _ hphase => rw [hphase]; rfl
  | selectFailed _ _ _ hphase => rw [hphase]; rfl
  | notSet _ hphase => rw [hphase]; rfl
  | lookFailed _ _ _ _ hphase => rw [hphase]; rfl
  | author _ hphase => rw [hphase]; rfl
  | notAuthor _ hphase => rw [hphase]; rfl
  | markFailed _ hphase => rw [hphase]; rfl
  | putFailed _ _ hphase => rw [hphase]; rfl

theorem Quiet.not_storing {cfg : Config} {s : St} {task : Task} {o : Op} {phase : Phase} (h : Quiet cfg s task o phase)
    (file : File) : phase ≠ .storing file := by
  cases h with
  | selected => split_ifs <;> simp
  | _ => simp [error]

theorem written_not_early (ok : Bool) (a : Answer) (text : String) : (written ok a text).early = false := by
  cases ok <;> rfl

theorem Made.kept {s t : St} {r : ℕ} {o : Object} (h : Made s r o)
    (hkept : ∀ task, s.requests r = some task → ∃ task', t.requests r = some task' ∧ task'.request = task.request) :
    Made t r o := by
  obtain ⟨task, c, multipart, file, attachmentId, htask, hq, hfile, ho⟩ := h
  obtain ⟨task', htask', hq'⟩ := hkept task htask
  exact ⟨task', c, multipart, file, attachmentId, htask', hq'.trans hq, hfile, ho⟩

theorem kept_move {s : St} {r r' : ℕ} {task task' : Task} (htask : s.requests r = some task) (phase : Phase)
    (h : s.requests r' = some task') :
    ∃ task'', (s.move r task phase).requests r' = some task'' ∧ task''.request = task'.request := by
  rcases eq_or_ne r' r with rfl | hne
  · obtain rfl := Option.some.inj (htask.symm.trans h)
    exact ⟨{ task with phase }, update_self _ _ _, rfl⟩
  · exact ⟨task', (update_of_ne hne _ _).trans h, rfl⟩

/-- a request moves on and nothing is stored -/
theorem OneEach.move {s t : St} {rs : List ℕ} {r : ℕ} {task : Task} {phase : Phase} (h : OneEach s rs)
    (htask : s.requests r = some task) (hrequests : t.requests = (s.move r task phase).requests)
    (hobjects : t.objects = s.objects) (hearly : task.phase.early = false → phase.early = false)
    (hstoring : ∀ file, phase ≠ .storing file)
    (huploaded : ∀ a, phase = .responding (.uploaded a) → r ∈ rs)
    (htold : ∀ e ∈ t.log, e ∈ s.log ∨ ∀ u q a, e.event = .returned u q (.uploaded a) → e.request ∈ rs) : OneEach t rs where
  nodup := h.nodup
  made := by
    rw [hobjects]
    refine h.made.imp fun r' o hmade => hmade.kept fun task' htask' => ?_
    rw [hrequests]
    exact kept_move htask phase htask'
  done := by
    intro r' hr'
    obtain ⟨task', htask', hlate⟩ := h.done r' hr'
    rw [hrequests]
    rcases eq_or_ne r' r with rfl | hne
    · obtain rfl := Option.some.inj (htask.symm.trans htask')
      exact ⟨_, update_self _ _ _, hearly hlate⟩
    · exact ⟨task', (update_of_ne hne _ _).trans htask', hlate⟩
  storing := by
    intro r' task' file htask' hphase
    rw [hrequests] at htask'
    rcases move_cases htask' with ⟨rfl, rfl⟩ | ⟨-, htask'⟩
    · exact absurd hphase (hstoring file)
    · exact h.storing r' task' file htask' hphase
  uploaded := by
    intro r' task' a htask' hphase
    rw [hrequests] at htask'
    rcases move_cases htask' with ⟨rfl, rfl⟩ | ⟨-, htask'⟩
    · exact huploaded a hphase
    · exact h.uploaded r' task' a htask' hphase
  told := by
    intro e he u q a hevent
    rcases htold e he with hold | hnew
    · exact h.told e hold u q a hevent
    · exact hnew u q a hevent

/-- a new entry that tells nobody of a stored file -/
theorem untold {log : List Entry} {r now : ℕ} {event : Event} (hplain : ∀ u q answer, event ≠ .returned u q answer)
    (rs : List ℕ) : ∀ e ∈ log ++ [⟨r, now, event⟩],
      e ∈ log ∨ ∀ u q a, e.event = .returned u q (.uploaded a) → e.request ∈ rs := by
  intro e he
  rcases mem_snoc.1 he with hold | rfl
  · exact .inl hold
  · exact .inr fun u q a hevent => absurd hevent (hplain u q _)

theorem Checked.not_storing {cfg : Config} {q : Request} {action : Servers.Action} {reply : Option Bool} {phase : Phase}
    (h : Checked cfg q action reply phase) (file : File) : phase ≠ .storing file := by
  cases h with
  | refused => simp [error]
  | create => simp
  | list => split_ifs <;> simp
  | delete => simp

theorem written_not_storing (ok : Bool) (a : Answer) (text : String) (file : File) : written ok a text ≠ .storing file := by
  cases ok <;> simp [written, error]

theorem firstPhase_storing {q : Request} {file : File} (h : firstPhase q = .storing file) :
    ∃ c multipart, q = .upload c multipart ∧ readFile multipart = .ok file := by
  cases q with
  | upload c multipart =>
    refine ⟨c, multipart, rfl, ?_⟩
    simp only [firstPhase] at h
    cases hread : readFile multipart with
    | ok file' =>
      rw [hread] at h
      rw [Phase.storing.inj h]
    | error e =>
      rw [hread] at h
      cases h
  | _ => cases h

theorem OneEach.arrive {s : St} {rs : List ℕ} {r : ℕ} (h : OneEach s rs) (u : Uuid) (q : Request)
    (hnone : s.requests r = none) :
    OneEach { s with requests := update s.requests r (some ⟨u, q, firstPhase q⟩) } rs := by
  have hkept : ∀ r' task, s.requests r' = some task →
      update s.requests r (some ⟨u, q, firstPhase q⟩) r' = some task := by
    intro r' task htask
    have hne : r' ≠ r := by
      rintro rfl
      rw [hnone] at htask
      cases htask
    rw [update_of_ne hne, htask]
  refine ⟨h.nodup, ?_, ?_, ?_, ?_, h.told⟩
  · exact h.made.imp fun r' o hmade => hmade.kept fun task htask => ⟨task, hkept r' task htask, rfl⟩
  · intro r' hr'
    obtain ⟨task', htask', hlate⟩ := h.done r' hr'
    exact ⟨task', hkept r' task' htask', hlate⟩
  · intro r' task' file htask' hphase
    rcases arrive_cases htask' with ⟨rfl, rfl⟩ | htask'
    · exact firstPhase_storing hphase
    · exact h.storing r' task' file htask' hphase
  · intro r' task' a htask' hphase
    rcases arrive_cases htask' with ⟨rfl, rfl⟩ | htask'
    · exact absurd hphase (firstPhase_not_uploaded q a)
    · exact h.uploaded r' task' a htask' hphase

/-- the object of a request that has none yet -/
theorem OneEach.put {cfg : Config} {s : St} {rs : List ℕ} {r : ℕ} {task : Task} {file : File} (h : OneEach s rs)
    (htask : s.requests r = some task) (hphase : task.phase = .storing file) (attachmentId : Uuid) (ok : Bool) :
    OneEach (putObject cfg s r task task.request.channelId attachmentId file ok) (rs ++ [r]) := by
  obtain ⟨c, multipart, hq, hfile⟩ := h.storing r task file htask hphase
  have hnew : r ∉ rs := by
    intro hr
    obtain ⟨task', htask', hlate⟩ := h.done r hr
    obtain rfl := Option.some.inj (htask.symm.trans htask')
    rw [hphase] at hlate
    cases hlate
  have hmade : ∀ r' o, Made s r' o → Made (putObject cfg s r task task.request.channelId attachmentId file ok) r' o :=
    fun r' o hmade => hmade.kept fun task' htask' => kept_move htask _ htask'
  have hself : Made (putObject cfg s r task task.request.channelId attachmentId file ok) r
      ⟨objectKey task.request.channelId attachmentId file.filename, file.contentType, file.bytes⟩ :=
    ⟨_, c, multipart, file, attachmentId, update_self _ _ _, hq, hfile, by rw [hq]; rfl⟩
  refine ⟨?_, ?_, ?_, ?_, ?_, ?_⟩
  · refine List.nodup_append.2 ⟨h.nodup, List.nodup_singleton r, ?_⟩
    intro a ha b hb heq
    rw [heq, List.mem_singleton.1 hb] at ha
    exact hnew ha
  · exact List.rel_append (h.made.imp fun r' o => hmade r' o) (.cons hself .nil)
  · intro r' hr'
    rcases mem_snoc.1 hr' with hr' | rfl
    · obtain ⟨task', htask', hlate⟩ := h.done r' hr'
      have hne : r' ≠ r := fun heq => hnew (heq ▸ hr')
      exact ⟨task', (update_of_ne hne _ _).trans htask', hlate⟩
    · exact ⟨_, update_self _ _ _, written_not_early ok _ _⟩
  · intro r' task' file' htask' hphase'
    rcases move_cases htask' with ⟨rfl, rfl⟩ | ⟨-, htask'⟩
    · exact absurd hphase' (written_not_storing ok _ _ file')
    · exact h.storing r' task' file' htask' hphase'
  · intro r' task' a htask' hphase'
    rcases move_cases htask' with ⟨rfl, rfl⟩ | ⟨-, htask'⟩
    · exact mem_snoc.2 (.inr rfl)
    · exact mem_snoc.2 (.inl (h.uploaded r' task' a htask' hphase'))
  · intro e he u q a hevent
    rcases mem_snoc.1 he with hold | rfl
    · exact mem_snoc.2 (.inl (h.told e hold u q a hevent))
    · cases hevent

theorem oneEach_step {cfg : Config} {s : St} {rs : List ℕ} (h : OneEach s rs) (o : Op) :
    ∃ rs', OneEach (step cfg s o) rs' := by
  rcases step_effect cfg s o with heq | he
  · rw [heq]
    exact ⟨rs, h⟩
  generalize step cfg s o = t at he
  cases he with
  | tick => exact ⟨rs, h.nodup, h.made, h.done, h.storing, h.uploaded, h.told⟩
  | @arrive r u q hnone huuids => exact ⟨rs, h.arrive u q hnone⟩
  | quiet htask ho hquiet =>
    exact ⟨rs, h.move htask rfl rfl (fun hlate => absurd hlate (by simp [hquiet.early])) hquiet.not_storing
      (fun a ha => absurd ha (hquiet.not_uploaded a)) fun e he => .inl he⟩
  | check reply htask hphase hchecks =>
    have hchecked := afterCheck_checked hchecks reply
    refine ⟨rs, h.move htask rfl rfl (fun hlate => absurd hlate (by simp [hphase, Phase.early])) hchecked.not_storing
      (fun a ha => absurd ha (hchecked.not_uploaded a)) ?_⟩
    exact untold (fun _ _ _ h => by cases h) rs
  | insert ok htask hphase hq hfresh happlied =>
    refine ⟨rs, h.move htask rfl rfl (fun _ => written_not_early ok _ _) (written_not_storing ok _ _) ?_ ?_⟩
    · intro a ha
      cases written_uploaded ha
    · exact untold (fun _ _ _ h => by cases h) rs
  | mark ok htask hphase hq happlied =>
    refine ⟨rs, h.move htask rfl rfl (fun _ => written_not_early ok _ _) (written_not_storing ok _ _) ?_ ?_⟩
    · intro a ha
      cases written_uploaded ha
    · exact untold (fun _ _ _ h => by cases h) rs
  | set htask hphase hq happlied =>
    exact ⟨rs, h.move htask rfl rfl (fun _ => rfl) nofun nofun fun e he => .inl he⟩
  | @put r task file attachmentId outcome ok htask hphase happlied =>
    exact ⟨rs ++ [r], h.put htask hphase attachmentId ok⟩
  | @respond r task answer htask hphase =>
    refine ⟨rs, h.move htask rfl rfl (fun _ => rfl) nofun nofun ?_⟩
    intro e he
    rcases mem_snoc.1 he with hold | rfl
    · exact .inl hold
    · refine .inr fun u q a hevent => ?_
      obtain ⟨-, -, rfl⟩ := Event.returned.inj hevent
      exact h.uploaded r task a htask hphase

/-- the object is what the body of that request holds in its first field named `file`, byte by byte -/
def HoldsFile (s : St) (r : ℕ) (o : Object) : Prop :=
  ∃ task c before field after filename, ∃ chunks : List (List UInt8), ∃ attachmentId, s.requests r = some task ∧
    task.request = .upload c (before ++ some field :: after) ∧
    (∀ f ∈ before, ∃ g : Field, f = some g ∧ g.name ≠ some "file") ∧ field.name = some "file" ∧
    field.fileName = some filename ∧ field.chunks = chunks.map some ∧
    o = ⟨objectKey c attachmentId filename, field.contentType.getD "application/octet-stream", chunks.flatten⟩

theorem Made.holdsFile {s : St} {r : ℕ} {o : Object} (h : Made s r o) :
    HoldsFile s r o ∧ isAllowedMime o.contentType = true ∧ o.size ≤ maxFileBytes := by
  obtain ⟨task, c, multipart, file, attachmentId, htask, hq, hfile, rfl⟩ := h
  obtain ⟨before, field, after, rfl, hbefore, hname, hfield⟩ := readFile_ok hfile
  obtain ⟨hfilename, htype, hmime, hread, hbytes, hsize⟩ := readField_ok hfield
  obtain ⟨chunks, hchunks, hall⟩ := readable hread
  refine ⟨⟨task, c, before, field, after, file.filename, chunks, attachmentId, htask, hq, hbefore, hname, hfilename, hchunks,
    ?_⟩, hmime, hsize⟩
  rw [htype, hbytes, hall]

/-- **What is stored.** After any run, the objects are those of as many different upload requests, each of them the file that
the request's body has in its first field named `file`: its filename in the key, its type, and the bytes of its chunks one
after the other. Its type is allowed and it has at most 25 MiB; and a request that was answered that its file is stored is
one of these. -/
theorem stored_once (cfg : Config) (ops : List Op) : ∃ rs : List ℕ, rs.Nodup ∧
    List.Forall₂ (fun r o => HoldsFile (reached cfg ops) r o ∧ isAllowedMime o.contentType = true ∧ o.size ≤ maxFileBytes)
      rs (reached cfg ops).objects ∧
    ∀ e ∈ (reached cfg ops).log, ∀ u q a, e.event = .returned u q (.uploaded a) → e.request ∈ rs := by
  obtain ⟨rs, h⟩ : ∃ rs, OneEach (reached cfg ops) rs :=
    run_inv' (I := fun s => ∃ rs, OneEach s rs) (fun s o ⟨rs, h⟩ => oneEach_step h o) ⟨[], oneEach_init⟩ ops
  exact ⟨rs, h.nodup, h.made.imp fun r o hmade => hmade.holdsFile, h.told⟩

end Concordia.Chat.Requests
