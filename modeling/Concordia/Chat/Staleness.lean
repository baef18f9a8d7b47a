/-
How stale a page from the cache can be (`list_messages`, `create_message`, `delete_message` in
`services/chat/src/handlers/messages.rs`), over every interleaving of their steps (`Chat.Requests`).

`NoDeleted`: a list that begins `cache_ttl_secs` after a delete was answered 204 does not return the message.
`HasCreated`: a newest page that is asked for `cache_ttl_secs` after a create was answered 201 has the message, while it is
among the newest `limit` undeleted ones.

Neither holds of every run. The time a page lives counts from the SET and not from the SELECT it was read by; a SELECT
fetches `limit + 1` rows before it drops the deleted ones; and a delete leaves a cached page without the older message that
moves up.

- `Settled`, `Covering`: the steps that do none of this.
- `staleness_bounded`: along such steps the bound holds.
- `late_fill`: a page that was read before a delete and a create, and stored after them.
-/
import Concordia.Chat.Pagination
import Concordia.Chat.AccessControl

namespace Concordia.Chat.Requests

open Concordia.Lib
open Concordia.Servers (Uuid)
open Function (update update_self update_of_ne)

/-! ## The bound -/

/-- `delete_message` has returned 204 for this message of this channel -/
def Event.deletes : Event → Option (Uuid × Uuid)
  | .returned _ (.delete c m) .noContent => some (c, m)
  | _ => none

/-- `create_message` has returned 201 with it -/
def Event.creates : Event → Option (Uuid × Uuid)
  | .returned _ (.create c _) (.created message) => some (c, message.messageId)
  | _ => none

/-- the page a request has returned -/
def Event.page : Event → Option ListMessagesResponse
  | .returned _ _ (.page page) => some page
  | _ => none

def Shows (page : ListMessagesResponse) (c m : Uuid) : Prop :=
  ∃ message ∈ page.messages, message.channelId = c ∧ message.messageId = m

def UnderWay (s : St) (r : ℕ) : Prop := ∃ task, s.requests r = some task ∧ ∀ a, task.phase ≠ .answered a

/-- the newest undeleted messages of a channel -/
def newestLive (t : MessageTable) (c : Uuid) (limit : ℕ) : List MessageRow :=
  ((t.partition c).filter MessageRow.live).take limit

def NoDeleted (cfg : Config) (ops : List Op) : Prop :=
  ∀ a b r u c params, ops = a ++ .arrive r u (.list c params) :: b → (Request.list c params).Uuids →
    (reached cfg a).requests r = none →
    ∀ e ∈ (reached cfg a).log, ∀ c' m, e.event.deletes = some (c', m) →
      e.time + 1000 * cfg.cacheTtlSecs ≤ (reached cfg a).now →
      ∀ e' ∈ (reached cfg ops).log, e'.request = r → ∀ page, e'.event.page = some page → ¬ Shows page c' m

def HasCreated (cfg : Config) (ops : List Op) : Prop :=
  ∀ a b r u c params, ops = a ++ .arrive r u (.list c params) :: b → (Request.list c params).Uuids →
    (reached cfg a).requests r = none → params.before = none →
    ∀ e ∈ (reached cfg a).log, ∀ m, e.event.creates = some (c, m) →
      e.time + 1000 * cfg.cacheTtlSecs ≤ (reached cfg a).now →
      (∀ b₁ b₂, b = b₁ ++ b₂ → UnderWay (reached cfg (a ++ .arrive r u (.list c params) :: b₁)) r →
        ∃ row ∈ newestLive (reached cfg (a ++ .arrive r u (.list c params) :: b₁)).table c (clampLimit params.limit),
          row.messageId = m) →
      ∀ e' ∈ (reached cfg ops).log, e'.request = r → ∀ page, e'.event.page = some page → Shows page c m

/-! ## The steps that keep to it -/

/-- no SET stores a page with a message whose deletion was answered earlier -/
def Settled (s : St) : Op → Prop
  | .set r outcome => outcome ≠ .failed → ∀ task page, s.requests r = some task → task.phase = .filling page →
      ∀ e ∈ s.log, ∀ c m, e.event.deletes = some (c, m) → Shows page c m → s.now ≤ e.time
  | _ => True

/-- no newest page is stored without one of the newest messages whose creation was answered earlier; no deleted rows take
the place of one, answered for as long as a page lives, in a SELECT; no message is marked deleted while one that moves up
for it is missing from a cached newest page, answered for longer than that page lives -/
def Covering (cfg : Config) (s : St) : Op → Prop
  | .set r outcome => outcome ≠ .failed → ∀ task page c params, s.requests r = some task →
      task.phase = .filling page → task.request = .list c params → params.before = none →
      ∀ row ∈ newestLive s.table c (clampLimit params.limit), ∀ e ∈ s.log,
        e.event.creates = some (c, row.messageId) → e.time < s.now → Shows page c row.messageId
  | .select r reply => reply = .rows → ∀ task c params, s.requests r = some task → task.phase = .selecting →
      task.request = .list c params → params.before = none →
      ∀ row ∈ newestLive s.table c (clampLimit params.limit), ∀ e ∈ s.log,
        e.event.creates = some (c, row.messageId) → e.time + 1000 * cfg.cacheTtlSecs ≤ s.now →
        row ∈ (s.table.partition c).take (clampLimit params.limit + 1)
  | .mark r outcome => outcome ≠ .failed → ∀ task c m, s.requests r = some task → task.phase = .marking →
      task.request = .delete c m →
      ∀ params entry, (Request.list c params).Uuids → params.before = none →
        s.lookup (cacheKey c params) = some entry →
        ∀ row ∈ newestLive (s.table.softDelete c m s.now) c (clampLimit params.limit),
          row ∉ newestLive s.table c (clampLimit params.limit) → ∀ e ∈ s.log,
          e.event.creates = some (c, row.messageId) → e.time + 1000 * cfg.cacheTtlSecs < entry.deadline →
          Shows entry.page c row.messageId
  | _ => True

/-! ## Rows -/

/-- the message has been there, and its row is marked deleted -/
structure Erased (s : St) (c m : Uuid) : Prop where
  used : m ∈ s.used
  deleted : ∀ row ∈ s.table.partition c, row.messageId = m → row.deletedAt.isSome = true

theorem softDelete_deleted {m : Uuid} {ts : ℤ} {row : MessageRow} (h : row.deletedAt.isSome = true) :
    (row.softDelete m ts).deletedAt.isSome = true := by
  unfold MessageRow.softDelete
  split_ifs
  · rfl
  · exact h

/-- a message id that was never used is not in the table -/
theorem Vetted.fresh {s : St} (hinv : Vetted s) {m : Uuid} (hm : m ∉ s.used) (c : Uuid) :
    m ∉ (s.table.partition c).map MessageRow.messageId := by
  intro hmem
  obtain ⟨row, hrow, rfl⟩ := List.mem_map.1 hmem
  obtain ⟨e, he, hevent⟩ := hinv.authors c row hrow
  exact hm (mem_used he hevent)

/-- a row after a step: one from before it, a new one under an id of its own, or one that an UPDATE has come to -/
theorem row_step (cfg : Config) {s : St} (hinv : Vetted s) (o : Op) {c : Uuid} {row : MessageRow}
    (h : row ∈ (step cfg s o).table.partition c) :
    row ∈ s.table.partition c ∨ row.messageId ∉ s.used ∧ row.deletedAt = none ∨
      ∃ r outcome task m, o = .mark r outcome ∧ s.requests r = some task ∧ task.request = .delete c m ∧
        task.phase = .marking ∧ ∃ old ∈ s.table.partition c, row = old.softDelete m s.now := by
  rcases step_effect cfg s o with heq | he
  · rw [heq] at h
    exact .inl h
  generalize step cfg s o = t at he h
  cases he with
  | @insert r task c' m body outcome ok htask hphase hq hfresh happlied =>
    have hnew : (messageRow m task.userId body s.now).messageId ∉
        (s.table.partition c').map MessageRow.messageId := hinv.fresh hfresh c'
    rcases (MessageTable.mem_insert hnew).1 h with ⟨-, rfl⟩ | hold
    · exact .inr (.inl ⟨hfresh, rfl⟩)
    · exact .inl hold
  | @mark r task c' m outcome ok htask hphase hq happlied =>
    obtain ⟨old, hold, rfl⟩ := MessageTable.mem_softDelete.1 h
    split_ifs with hc
    · subst hc
      exact .inr (.inr ⟨r, outcome, task, m, rfl, htask, hq, hphase, old, hold, rfl⟩)
    · exact .inl hold
  | _ => exact .inl h

/-- what is deleted stays deleted -/
theorem erased_step (cfg : Config) {s : St} (hinv : Vetted s) (o : Op) {c m : Uuid} (h : Erased s c m) :
    Erased (step cfg s o) c m := by
  refine ⟨used_mono (log_step cfg s o) h.used, ?_⟩
  intro row hrow hid
  rcases row_step cfg hinv o hrow with hold | ⟨hfresh, -⟩ | ⟨r, outcome, task, m', -, -, -, -, old, hold, rfl⟩
  · exact h.deleted row hold hid
  · -- the new row has an id of its own
    exact absurd h.used (hid ▸ hfresh)
  · rw [MessageRow.softDelete_messageId] at hid
    exact softDelete_deleted (h.deleted old hold hid)

/-- marking a message deleted erases it -/
theorem erased_mark {s : St} {r : ℕ} {task : Task} {c m : Uuid} {ok : Bool} (hused : m ∈ s.used) :
    Erased (markDeleted s r task c m ok) c m := by
  refine ⟨used_mono (List.prefix_append _ _) hused, ?_⟩
  intro row hrow hid
  obtain ⟨row', hrow', rfl⟩ := MessageTable.mem_softDelete.1 hrow
  rw [if_pos rfl] at hid ⊢
  rw [MessageRow.softDelete_messageId] at hid
  simp [MessageRow.softDelete, hid]

/-- an inserted message only pushes others out of the newest ones -/
theorem newestLive_insert {t : MessageTable} {c c' : Uuid} {limit : ℕ} {row new : MessageRow}
    (hfresh : new.messageId ∉ (t.partition c').map MessageRow.messageId)
    (h : row ∈ newestLive (t.insert c' new) c limit) : row = new ∨ row ∈ newestLive t c limit := by
  unfold newestLive MessageTable.insert at h
  rcases eq_or_ne c c' with rfl | hne
  · simp only [update_self] at h
    exact mem_take_putRow hfresh h
  · simp only [update_of_ne hne] at h
    exact .inr h

/-- a page that is read now holds undeleted messages of its channel -/
theorem readPage_live {s : St} {c c' m : Uuid} {params : ListMessagesQuery} (h : Erased s c m) :
    ¬ Shows (readPage s.table c' params s.now) c m := by
  intro hhas
  obtain ⟨message, hmessage, hchannel, hid⟩ := hhas
  obtain ⟨⟨row, hrow, hlive, rfl⟩, -⟩ := mem_loadMessages ((buildPage_messages_sublist _ _).subset hmessage)
  obtain rfl : c' = c := hchannel
  have hdeleted := h.deleted row hrow hid
  rw [hlive] at hdeleted
  cases hdeleted

/-- the newest page that is read now has the newest undeleted messages that its rows reach -/
theorem readPage_newest {t : MessageTable} {c : Uuid} {params : ListMessagesQuery} {now : ℕ} {row : MessageRow}
    (hbefore : params.before = none) (h : row ∈ newestLive t c (clampLimit params.limit))
    (hwindow : row ∈ (t.partition c).take (clampLimit params.limit + 1)) :
    Shows (readPage t c params now) c row.messageId := by
  have hpage := Paging.mem_page h hwindow
  have heq : (readPage t c params now).messages =
      (Paging.page (clampLimit params.limit) MessageRow.live (t.partition c)).map (toResponse c now) := by
    rw [← MessageTable.remaining_none, ← hbefore]
    exact congrArg ListMessagesResponse.messages (buildPage_fetched (clampLimit params.limit) _ c now)
  exact ⟨toResponse c now row, by rw [heq]; exact List.mem_map_of_mem hpage, rfl, rfl⟩

/-! ## What has been answered -/

/-- what a delete or a create has done by where it is -/
def Progress (s : St) : Request → Phase → Prop
  | .delete _ m, .checking | .delete _ m, .marking => m ∈ s.used
  | .delete c m, .responding .noContent => Erased s c m
  | .create _ _, .responding (.created message) => message.messageId ∈ s.used
  | _, _ => True

/-- what was answered has been done, and no page lives longer than from now on -/
structure Dated (cfg : Config) (s : St) : Prop where
  tasks : ∀ r task, s.requests r = some task → Progress s task.request task.phase
  deletes : ∀ e ∈ s.log, ∀ c m, e.event.deletes = some (c, m) → Erased s c m
  creates : ∀ e ∈ s.log, ∀ c m, e.event.creates = some (c, m) → m ∈ s.used
  deadlines : ∀ key entry, s.cache key = some entry → entry.deadline ≤ s.now + 1000 * cfg.cacheTtlSecs

theorem dated_init (cfg : Config) : Dated cfg init := by
  constructor <;> simp [init]

theorem Progress.mono {s t : St} (hused : ∀ m, m ∈ s.used → m ∈ t.used)
    (herased : ∀ c m, Erased s c m → Erased t c m) {q : Request} {phase : Phase} (h : Progress s q phase) :
    Progress t q phase := by
  unfold Progress at h ⊢
  split
  · exact hused _ h
  · exact hused _ h
  · exact herased _ _ h
  · exact hused _ h
  · trivial

/-- the invariant after one request has moved on -/
theorem Dated.move {cfg : Config} {s t : St} {r : ℕ} {task : Task} {phase : Phase} (h : Dated cfg s)
    (hused : ∀ m, m ∈ s.used → m ∈ t.used) (herased : ∀ c m, Erased s c m → Erased t c m)
    (hrequests : t.requests = (s.move r task phase).requests) (hself : Progress t task.request phase)
    (hlog : ∀ e ∈ t.log, e ∈ s.log ∨ (∀ c m, e.event.deletes = some (c, m) → Erased t c m) ∧
      ∀ c m, e.event.creates = some (c, m) → m ∈ t.used)
    (hdeadlines : ∀ key entry, t.cache key = some entry → entry.deadline ≤ t.now + 1000 * cfg.cacheTtlSecs) :
    Dated cfg t := by
  refine ⟨?_, ?_, ?_, hdeadlines⟩
  · intro r' task' htask'
    rw [hrequests] at htask'
    rcases move_cases htask' with ⟨rfl, rfl⟩ | ⟨-, htask'⟩
    · exact hself
    · exact (h.tasks r' task' htask').mono hused herased
  · intro e he c m hdeletes
    rcases hlog e he with he | ⟨hnew, -⟩
    · exact herased c m (h.deletes e he c m hdeletes)
    · exact hnew c m hdeletes
  · intro e he c m hcreates
    rcases hlog e he with he | ⟨-, hnew⟩
    · exact hused m (h.creates e he c m hcreates)
    · exact hnew c m hcreates

theorem progress_error (s : St) (q : Request) (status : ℕ) (text : String) : Progress s q (error status text) := by
  cases q <;> trivial

theorem progress_page (s : St) (q : Request) (page : ListMessagesResponse) : Progress s q (.responding (.page page)) := by
  cases q <;> trivial

theorem progress_answered (s : St) (q : Request) (a : Answer) : Progress s q (.answered a) := by
  cases q <;> trivial

theorem progress_written {s : St} {q : Request} {ok : Bool} {a : Answer} {text : String}
    (h : Progress s q (.responding a)) : Progress s q (written ok a text) := by
  unfold written
  split_ifs
  · exact h
  · exact progress_error s q 500 text

theorem Vetted.used {s : St} (hinv : Vetted s) {c : Uuid} {row : MessageRow} (hrow : row ∈ s.table.partition c) :
    row.messageId ∈ s.used := by
  obtain ⟨e, he, hevent⟩ := hinv.authors c row hrow
  exact mem_used he hevent

theorem quiet_progress {cfg : Config} {s : St} {task : Task} {o : Op} {phase : Phase} (hinv : Vetted s)
    (h : Quiet cfg s task o phase) : Progress s task.request phase := by
  cases h with
  | insertFailed => exact progress_error _ _ _ _
  | hit => exact progress_page _ _ _
  | miss _ _ _ hq =>
    rw [hq]
    trivial
  | selected _ _ hq =>
    rw [hq]
    split_ifs <;> trivial
  | selectFailed => exact progress_error _ _ _ _
  | notSet => exact progress_page _ _ _
  | lookFailed => exact progress_error _ _ _ _
  | author _ _ hq hrow hid =>
    rw [hq, ← hid]
    exact hinv.used hrow
  | notAuthor _ _ hq hrow hid =>
    rw [hq, ← hid]
    exact hinv.used hrow
  | markFailed => exact progress_error _ _ _ _
  | putFailed => exact progress_error _ _ _ _

theorem Checked.progress {cfg : Config} {s : St} {q : Request} {action : Servers.Action} {reply : Option Bool}
    {phase : Phase} (hprogress : Progress s q .checking) (h : Checked cfg q action reply phase) : Progress s q phase := by
  cases h with
  | refused => exact progress_error _ _ _ _
  | create => trivial
  | list => split_ifs <;> trivial
  | delete => exact hprogress

theorem firstPhase_progress (s : St) (q : Request) : Progress s q (firstPhase q) := by
  cases q with
  | upload c multipart =>
    simp only [firstPhase]
    cases readFile multipart <;> trivial
  | _ => trivial

theorem deletes_returned {u c m : Uuid} {q : Request} {a : Answer}
    (h : (Event.returned u q a).deletes = some (c, m)) : q = .delete c m ∧ a = .noContent := by
  unfold Event.deletes at h
  split at h
  · next heq =>
    obtain ⟨rfl, rfl⟩ := Prod.mk.inj (Option.some.inj h)
    exact (Event.returned.inj heq).2
  · cases h

theorem creates_returned {u c m : Uuid} {q : Request} {a : Answer} (h : (Event.returned u q a).creates = some (c, m)) :
    ∃ body message, q = .create c body ∧ a = .created message ∧ message.messageId = m := by
  unfold Event.creates at h
  split at h
  · next body message heq =>
    obtain ⟨rfl, rfl⟩ := Prod.mk.inj (Option.some.inj h)
    obtain ⟨-, hq, ha⟩ := Event.returned.inj heq
    exact ⟨body, message, hq, ha, rfl⟩
  · cases h

/-- an entry that answers neither a create nor a delete -/
theorem plain_entry {log : List Entry} {t : St} {r now : ℕ} {event : Event} (hdeletes : event.deletes = none)
    (hcreates : event.creates = none) : ∀ e ∈ log ++ [⟨r, now, event⟩], e ∈ log ∨
      (∀ c m, e.event.deletes = some (c, m) → Erased t c m) ∧ ∀ c m, e.event.creates = some (c, m) → m ∈ t.used := by
  intro e he
  rcases List.mem_append.1 he with he | he
  · exact .inl he
  · obtain rfl := List.mem_singleton.1 he
    refine .inr ⟨?_, ?_⟩
    · intro c m h
      simp only [hdeletes] at h
      cases h
    · intro c m h
      simp only [hcreates] at h
      cases h

theorem dated_step (cfg : Config) (s : St) (o : Op) (hinv : Vetted s) (h : Dated cfg s) : Dated cfg (step cfg s o) := by
  have hused : ∀ m, m ∈ s.used → m ∈ (step cfg s o).used := fun m => used_mono (log_step cfg s o)
  have herased : ∀ c m, Erased s c m → Erased (step cfg s o) c m := fun c m => erased_step cfg hinv o
  rcases step_effect cfg s o with heq | he
  · rwa [heq]
  generalize step cfg s o = t at he hused herased
  cases he with
  | tick millis =>
    refine ⟨fun r task htask => (h.tasks r task htask).mono hused herased,
      fun e he c m hd => herased c m (h.deletes e he c m hd), h.creates, ?_⟩
    intro key entry hentry
    calc entry.deadline ≤ s.now + 1000 * cfg.cacheTtlSecs := h.deadlines key entry hentry
      _ ≤ s.now + millis + 1000 * cfg.cacheTtlSecs := by omega
  | @arrive r u q hnone huuids =>
    refine ⟨?_, fun e he c m hd => herased c m (h.deletes e he c m hd), h.creates, h.deadlines⟩
    intro r' task' htask'
    rcases arrive_cases htask' with ⟨rfl, rfl⟩ | htask'
    · exact firstPhase_progress _ q
    · exact (h.tasks r' task' htask').mono hused herased
  | quiet htask ho hquiet =>
    exact h.move hused herased rfl ((quiet_progress hinv hquiet).mono hused herased) (fun e he => .inl he) h.deadlines
  | check reply htask hphase hchecks =>
    have hprogress := h.tasks _ _ htask
    rw [hphase] at hprogress
    exact h.move hused herased rfl (((afterCheck_checked hchecks reply).progress hprogress).mono hused herased)
      (plain_entry rfl rfl) h.deadlines
  | @insert r task c m body outcome ok htask hphase hq hfresh happlied =>
    refine h.move hused herased rfl (progress_written ?_) (plain_entry rfl rfl) h.deadlines
    rw [hq]
    exact mem_used (List.mem_append_right _ (List.mem_singleton_self _)) rfl
  | @mark r task c m outcome ok htask hphase hq happlied =>
    have hprogress := h.tasks r task htask
    rw [hphase, hq] at hprogress
    refine h.move hused herased rfl (progress_written ?_) (plain_entry rfl rfl) h.deadlines
    rw [hq]
    exact erased_mark hprogress
  | @set r task c params page outcome htask hphase hq happlied =>
    refine h.move hused herased rfl (progress_page _ _ page) (fun e he => .inl he) ?_
    intro key entry hentry
    simp only [setCache] at hentry ⊢
    rcases eq_or_ne key (cacheKey c params) with rfl | hne
    · rw [update_self] at hentry
      obtain rfl := Option.some.inj hentry
      exact le_rfl
    · rw [update_of_ne hne] at hentry
      exact h.deadlines key entry hentry
  | @put r task file attachmentId outcome ok htask hphase happlied =>
    refine h.move hused herased rfl (progress_written ?_) (plain_entry rfl rfl) h.deadlines
    cases task.request <;> trivial
  | @respond r task a htask hphase =>
    have hprogress := h.tasks r task htask
    rw [hphase] at hprogress
    refine h.move hused herased rfl (progress_answered _ _ a) ?_ h.deadlines
    intro e he
    rcases List.mem_append.1 he with he | he
    · exact .inl he
    · obtain rfl := List.mem_singleton.1 he
      refine .inr ⟨?_, ?_⟩
      · intro c m hdeletes
        obtain ⟨hq, rfl⟩ := deletes_returned hdeletes
        rw [hq] at hprogress
        exact herased c m hprogress
      · intro c m hcreates
        obtain ⟨body, message, hq, rfl, rfl⟩ := creates_returned hcreates
        rw [hq] at hprogress
        exact hused _ hprogress

/-! ## Pages that outlive an answer -/

/-- a cached page with a deleted message is gone a page's lifetime after the answer -/
def Bounded (cfg : Config) (s : St) : Prop :=
  ∀ e ∈ s.log, ∀ c m, e.event.deletes = some (c, m) → ∀ key entry, s.cache key = some entry → Shows entry.page c m →
    entry.deadline ≤ e.time + 1000 * cfg.cacheTtlSecs

/-- a cached newest page has the newest messages whose creation was answered a page's lifetime before it is gone -/
def Covers (cfg : Config) (s : St) : Prop :=
  ∀ c params entry, (Request.list c params).Uuids → params.before = none →
    s.lookup (cacheKey c params) = some entry → ∀ row ∈ newestLive s.table c (clampLimit params.limit),
      ∀ e ∈ s.log, e.event.creates = some (c, row.messageId) →
        e.time + 1000 * cfg.cacheTtlSecs < entry.deadline → Shows entry.page c row.messageId

/-- an entry that is new in the log -/
theorem mem_record {s : St} {r : ℕ} {event : Event} {P : Entry → Prop} (hold : ∀ e ∈ s.log, P e)
    (hnew : P ⟨r, s.now, event⟩) : ∀ e ∈ (s.record r event).log, P e := by
  intro e he
  rcases List.mem_append.1 he with he | he
  · exact hold e he
  · rw [List.mem_singleton.1 he]
    exact hnew

theorem bounded_step {cfg : Config} {s : St} {o : Op} (hdated : Dated cfg s) (h : Bounded cfg s) (hset : Settled s o) :
    Bounded cfg (step cfg s o) := by
  rcases step_effect cfg s o with heq | he
  · rwa [heq]
  generalize step cfg s o = t at he
  cases he with
  | check => exact mem_record h (fun _ _ hd => by cases hd)
  | insert => exact mem_record h (fun _ _ hd => by cases hd)
  | mark => exact mem_record h (fun _ _ hd => by cases hd)
  | put => exact mem_record h (fun _ _ hd => by cases hd)
  | @set r task c params page outcome htask hphase hq happlied =>
    intro e he c' m hd key entry hentry hshows
    simp only [setCache] at hentry
    rcases eq_or_ne key (cacheKey c params) with rfl | hne
    · rw [update_self] at hentry
      obtain rfl := Option.some.inj hentry
      have hlate : s.now ≤ e.time := hset happlied task page htask hphase e he c' m hd hshows
      simp only
      omega
    · rw [update_of_ne hne] at hentry
      exact h e he c' m hd key entry hentry hshows
  | respond => exact mem_record h (fun _ _ _ key entry hentry _ => hdated.deadlines key entry hentry)
  | _ => exact h

theorem lookup_some {s : St} {key : String} {entry : Cached} :
    s.lookup key = some entry ↔ s.cache key = some entry ∧ s.now < entry.deadline := by
  simp [St.lookup, Option.filter_eq_some_iff]

theorem covers_step {cfg : Config} {s : St} {o : Op} (hinv : Vetted s) (hdated : Dated cfg s) (h : Covers cfg s)
    (hcover : Covering cfg s o) : Covers cfg (step cfg s o) := by
  rcases step_effect cfg s o with heq | he
  · rwa [heq]
  generalize step cfg s o = t at he
  cases he with
  | tick millis =>
    intro c params entry huuids hbefore hentry
    obtain ⟨hcached, hlive⟩ := lookup_some.1 hentry
    refine h c params entry huuids hbefore (lookup_some.2 ⟨hcached, ?_⟩)
    calc s.now ≤ s.now + millis := Nat.le_add_right _ _
      _ < entry.deadline := hlive
  | check =>
    intro c params entry huuids hbefore hentry row hrow
    exact mem_record (h c params entry huuids hbefore hentry row hrow) (fun hc => by cases hc)
  | put =>
    intro c params entry huuids hbefore hentry row hrow
    exact mem_record (h c params entry huuids hbefore hentry row hrow) (fun hc => by cases hc)
  | @insert r task c' m body outcome ok htask hphase hq hfresh happlied =>
    intro c params entry huuids hbefore hentry row hrow
    refine mem_record ?_ (fun hc => by cases hc)
    have hnew : (messageRow m task.userId body s.now).messageId ∉
        (s.table.partition c').map MessageRow.messageId := hinv.fresh hfresh c'
    rcases newestLive_insert hnew hrow with rfl | hrow
    · -- no create was answered with the new id
      intro e he hcreates
      exact absurd (hdated.creates e he c m hcreates) hfresh
    · exact h c params entry huuids hbefore hentry row hrow
  | @mark r task c' m outcome ok htask hphase hq happlied =>
    intro c params entry huuids hbefore hentry row hrow
    refine mem_record ?_ (fun hc => by cases hc)
    by_cases hold : row ∈ newestLive s.table c (clampLimit params.limit)
    · exact h c params entry huuids hbefore hentry row hold
    · rcases eq_or_ne c c' with rfl | hne
      · exact hcover happlied task c m htask hphase hq params entry huuids hbefore hentry row hrow hold
      · -- the rows of other channels are as they were
        simp only [markDeleted, newestLive, MessageTable.softDelete, update_of_ne hne] at hrow
        exact absurd hrow hold
  | @set r task c' params' page outcome htask hphase hq happlied =>
    intro c params entry huuids hbefore hentry row hrow e he hcreates hlate
    obtain ⟨hcached, hlive⟩ := lookup_some.1 hentry
    simp only [setCache] at hcached
    rcases eq_or_ne (cacheKey c params) (cacheKey c' params') with heq | hne
    · rw [heq, update_self] at hcached
      obtain rfl := Option.some.inj hcached
      have huuids' := hinv.uuids r task htask
      rw [hq] at huuids'
      obtain ⟨rfl, hlimit, hcursor⟩ := cacheKey_inj huuids huuids' heq
      rw [hlimit] at hrow
      refine hcover happlied task page c params' htask hphase hq (hcursor.symm.trans hbefore) row hrow e he hcreates ?_
      simp only at hlate
      omega
    · rw [update_of_ne hne] at hcached
      exact h c params entry huuids hbefore (lookup_some.2 ⟨hcached, hlive⟩) row hrow e he hcreates hlate
  | respond =>
    intro c params entry huuids hbefore hentry row hrow
    refine mem_record (h c params entry huuids hbefore hentry row hrow) ?_
    intro _ hlate
    have hdeadline := hdated.deadlines _ entry (lookup_some.1 hentry).1
    exact absurd hlate (not_lt.2 hdeadline)
  | _ => exact h

/-! ## One request -/

/-- the page a request holds -/
def Phase.page : Phase → Option ListMessagesResponse
  | .filling page | .responding (.page page) => some page
  | _ => none

/-- each page that a list holds or has returned satisfies `P` -/
structure Follows (r : ℕ) (c : Uuid) (params : ListMessagesQuery) (P : ListMessagesResponse → Prop) (s : St) : Prop where
  task : ∃ task, s.requests r = some task ∧ task.request = .list c params ∧ ∀ page, task.phase.page = some page → P page
  log : ∀ e ∈ s.log, e.request = r → ∀ page, e.event.page = some page → P page

section

variable {r r' : ℕ} {c : Uuid} {params : ListMessagesQuery} {P : ListMessagesResponse → Prop} {s : St} {task : Task}

theorem Follows.move {phase : Phase} (h : Follows r c params P s) (htask : s.requests r' = some task)
    (hself : r' = r → ∀ page, phase.page = some page → P page) : Follows r c params P (s.move r' task phase) := by
  refine ⟨?_, h.log⟩
  obtain ⟨task', htask', hq, hpage⟩ := h.task
  simp only [St.move]
  rcases eq_or_ne r r' with rfl | hne
  · rw [htask'] at htask
    obtain rfl := Option.some.inj htask
    exact ⟨_, update_self _ _ _, hq, hself rfl⟩
  · exact ⟨task', by rw [update_of_ne hne, htask'], hq, hpage⟩

theorem Follows.record {event : Event} (h : Follows r c params P s)
    (hself : r' = r → ∀ page, event.page = some page → P page) : Follows r c params P (s.record r' event) :=
  ⟨h.task, mem_record h.log hself⟩

/-- what the request holds is what is known of it -/
theorem Follows.held (h : Follows r c params P s) (htask : s.requests r = some task) :
    task.request = .list c params ∧ ∀ page, task.phase.page = some page → P page := by
  obtain ⟨task', htask', hheld⟩ := h.task
  rw [htask'] at htask
  rwa [← Option.some.inj htask]

theorem written_page {ok : Bool} {a : Answer} {text : String} (ha : ∀ page, a ≠ .page page) :
    (written ok a text).page = none := by
  unfold written
  split_ifs
  · cases a with
    | page page => exact absurd rfl (ha page)
    | _ => rfl
  · rfl

/-- a write answers no page -/
theorem Follows.written {t : St} {event : Event} {ok : Bool} {a : Answer} {text : String} (h : Follows r c params P s)
    (htask : s.requests r' = some task)
    (hrequests : t.requests = ((s.record r' event).move r' task (written ok a text)).requests)
    (hlog : t.log = (s.record r' event).log) (hevent : event.page = none) (ha : ∀ page, a ≠ .page page) :
    Follows r c params P t := by
  have hmoved : Follows r c params P ((s.record r' event).move r' task (Requests.written ok a text)) := by
    refine (h.record ?_).move htask ?_
    · intro _ page hpage
      rw [hevent] at hpage
      cases hpage
    · intro _ page hpage
      rw [written_page ha] at hpage
      cases hpage
  exact ⟨by rw [hrequests]; exact hmoved.task, by rw [hlog]; exact hmoved.log⟩

/-- a page comes from the cache, from a SELECT, or from where the request had it -/
theorem follows_step {cfg : Config} {o : Op} (h : Follows r c params P s)
    (hhit : UnderWay s r → ∀ entry, s.lookup (cacheKey c params) = some entry → P entry.page)
    (hselect : UnderWay s r → o = .select r .rows → ∀ task, s.requests r = some task →
      task.phase = .selecting → P (readPage s.table c params s.now)) : Follows r c params P (step cfg s o) := by
  rcases step_effect cfg s o with heq | he
  · rwa [heq]
  generalize step cfg s o = t at he
  cases he with
  | tick => exact ⟨h.task, h.log⟩
  | @arrive r' u q hnone huuids =>
    obtain ⟨task, htask, hheld⟩ := h.task
    have hne : r ≠ r' := ne_of_vacant hnone htask
    exact ⟨⟨task, by simp only [update_of_ne hne, htask], hheld⟩, h.log⟩
  | @quiet o r' task phase htask ho hquiet =>
    apply h.move htask
    rintro rfl page hpage
    obtain ⟨hlist, hheld⟩ := h.held htask
    cases hquiet with
    | hit hphase hq hentry =>
      obtain ⟨rfl, rfl⟩ := Request.list.inj (hq.symm.trans hlist)
      obtain rfl := Option.some.inj hpage
      exact hhit ⟨task, htask, by simp [hphase]⟩ _ hentry
    | selected _ hphase hq =>
      obtain ⟨rfl, rfl⟩ := Request.list.inj (hq.symm.trans hlist)
      obtain rfl := Option.some.inj ho
      have hread := hselect ⟨task, htask, by simp [hphase]⟩ rfl task htask hphase
      split_ifs at hpage
      · rwa [← Option.some.inj hpage]
      · rwa [← Option.some.inj hpage]
    | notSet _ hphase =>
      apply hheld
      rw [hphase]
      exact hpage
    | _ => cases hpage
  | @check r' task action next reply htask hphase hchecks =>
    refine (h.record (fun _ _ hpage => by cases hpage)).move htask ?_
    rintro rfl page hpage
    obtain ⟨hlist, -⟩ := h.held htask
    rw [hlist] at hchecks
    obtain ⟨rfl, rfl⟩ := Prod.mk.inj (Option.some.inj hchecks)
    match reply with
    | none => cases hpage
    | some false => cases hpage
    | some true =>
      simp only [afterCheck] at hpage
      split_ifs at hpage <;> cases hpage
  | insert ok htask => exact h.written htask rfl rfl rfl (by simp)
  | mark ok htask => exact h.written htask rfl rfl rfl (by simp)
  | put ok htask => exact h.written htask rfl rfl rfl (by simp)
  | @set r' task c' params' page outcome htask hphase hq happlied =>
    have hmoved : Follows r c params P (s.move r' task (.responding (.page page))) := by
      apply h.move htask
      rintro rfl page' hpage
      obtain rfl := Option.some.inj hpage
      exact (h.held htask).2 page (by rw [hphase]; rfl)
    exact ⟨hmoved.task, hmoved.log⟩
  | @respond r' task a htask hphase =>
    refine (h.record ?_).move htask (fun _ _ hpage => by cases hpage)
    rintro rfl page hpage
    apply (h.held htask).2
    rw [hphase]
    cases a with
    | page page' => exact hpage
    | _ => cases hpage

end

theorem follows_arrive (cfg : Config) {s : St} {r u c : Uuid} {params : ListMessagesQuery}
    {P : ListMessagesResponse → Prop} (hinv : Vetted s) (hnone : s.requests r = none)
    (huuids : (Request.list c params).Uuids) : Follows r c params P (step cfg s (.arrive r u (.list c params))) := by
  simp only [step, hnone, if_pos huuids]
  refine ⟨⟨_, update_self _ _ _, rfl, fun _ hpage => by cases hpage⟩, ?_⟩
  intro e he hr
  exact absurd hnone (hr ▸ hinv.known e he)

/-! ## Runs -/

theorem now_step (cfg : Config) (s : St) (o : Op) : s.now ≤ (step cfg s o).now := by
  rcases step_effect cfg s o with heq | he
  · rw [heq]
  generalize step cfg s o = t at he
  cases he with
  | tick millis => exact Nat.le_add_right _ _
  | _ => exact le_rfl

/-- a request that begins a page's lifetime after an answer, and the pages it has held so far -/
structure After (cfg : Config) (e : Entry) (r : ℕ) (c : Uuid) (params : ListMessagesQuery)
    (P : ListMessagesResponse → Prop) (s : St) : Prop where
  vetted : Vetted s
  dated : Dated cfg s
  answered : e ∈ s.log
  late : e.time + 1000 * cfg.cacheTtlSecs ≤ s.now
  follows : Follows r c params P s

theorem After.step {cfg : Config} {e : Entry} {r : ℕ} {c : Uuid} {params : ListMessagesQuery}
    {P : ListMessagesResponse → Prop} {s : St} {o : Op} (h : After cfg e r c params P s)
    (hhit : UnderWay s r → ∀ entry, s.lookup (cacheKey c params) = some entry → P entry.page)
    (hselect : UnderWay s r → o = .select r .rows → ∀ task, s.requests r = some task →
      task.phase = .selecting → P (readPage s.table c params s.now)) :
    After cfg e r c params P (Requests.step cfg s o) where
  vetted := vetted_step cfg s o h.vetted
  dated := dated_step cfg s o h.vetted h.dated
  answered := (log_step cfg s o).subset h.answered
  late := h.late.trans (now_step cfg s o)
  follows := follows_step h.follows hhit hselect

theorem After.arrive {cfg : Config} {e : Entry} {r u c : Uuid} {params : ListMessagesQuery}
    {P : ListMessagesResponse → Prop} {s : St} (hinv : Vetted s) (hdated : Dated cfg s) (he : e ∈ s.log)
    (hlate : e.time + 1000 * cfg.cacheTtlSecs ≤ s.now) (hnone : s.requests r = none)
    (huuids : (Request.list c params).Uuids) :
    After cfg e r c params P (Requests.step cfg s (.arrive r u (.list c params))) where
  vetted := vetted_step cfg s _ hinv
  dated := dated_step cfg s _ hinv hdated
  answered := (log_step cfg s _).subset he
  late := hlate.trans (now_step cfg s _)
  follows := follows_arrive cfg hinv hnone huuids

theorem bounded_reached {cfg : Config} {ops : List Op} (h : Along (step cfg) Settled init ops) :
    Vetted (reached cfg ops) ∧ Dated cfg (reached cfg ops) ∧ Bounded cfg (reached cfg ops) := by
  refine run_inv (I := fun s => Vetted s ∧ Dated cfg s ∧ Bounded cfg s) ?_ ?_ h
  · rintro s o ⟨hinv, hdated, hbounded⟩ hset
    exact ⟨vetted_step cfg s o hinv, dated_step cfg s o hinv hdated, bounded_step hdated hbounded hset⟩
  · exact ⟨vetted_init, dated_init cfg, fun e he => by cases he⟩

theorem no_deleted {cfg : Config} {ops : List Op} (h : Along (step cfg) Settled init ops) : NoDeleted cfg ops := by
  rintro a b r u c params rfl huuids hnone e he c' m hdeletes hlate e' he' hr page hpage
  obtain ⟨ha, hset, hb⟩ := along_append.1 h
  obtain ⟨hinv, hdated, hbounded⟩ := bounded_reached ha
  rw [reached, run_append, run_cons] at he'
  have hstart : After cfg e r c params (fun page => ¬ Shows page c' m)
      (step cfg (reached cfg a) (.arrive r u (.list c params))) := After.arrive hinv hdated he hlate hnone huuids
  have hend := run_inv (I := fun s => After cfg e r c params (fun page => ¬ Shows page c' m) s ∧ Bounded cfg s) ?_
    ⟨hstart, bounded_step hdated hbounded hset⟩ hb
  · exact hend.1.follows.log e' he' hr page hpage
  · rintro s o ⟨hafter, hbounded⟩ hset
    refine ⟨hafter.step ?_ ?_, bounded_step hafter.dated hbounded hset⟩
    · -- a page that is still cached does not show the message
      intro _ entry hentry hshows
      obtain ⟨hcached, hlive⟩ := lookup_some.1 hentry
      have hpast : s.now < s.now := by
        calc s.now < entry.deadline := hlive
          _ ≤ e.time + 1000 * cfg.cacheTtlSecs := hbounded e hafter.answered c' m hdeletes _ entry hcached hshows
          _ ≤ s.now := hafter.late
      exact absurd hpast (lt_irrefl _)
    · intro _ _ _ _ _
      exact readPage_live (hafter.dated.deletes e hafter.answered c' m hdeletes)

theorem covers_reached {cfg : Config} {ops : List Op} (h : Along (step cfg) (Covering cfg) init ops) :
    Vetted (reached cfg ops) ∧ Dated cfg (reached cfg ops) ∧ Covers cfg (reached cfg ops) := by
  refine run_inv (I := fun s => Vetted s ∧ Dated cfg s ∧ Covers cfg s) ?_ ?_ h
  · rintro s o ⟨hinv, hdated, hcovers⟩ hcover
    exact ⟨vetted_step cfg s o hinv, dated_step cfg s o hinv hdated, covers_step hinv hdated hcovers hcover⟩
  · refine ⟨vetted_init, dated_init cfg, ?_⟩
    intro c params entry _ _ hentry
    cases (lookup_some.1 hentry).1

theorem has_created {cfg : Config} {ops : List Op} (h : Along (step cfg) (Covering cfg) init ops) :
    HasCreated cfg ops := by
  rintro a b r u c params rfl huuids hnone hbefore e he m hcreates hlate hnewest e' he' hr page hpage
  obtain ⟨ha, hcover, hb⟩ := along_append.1 h
  obtain ⟨hinv, hdated, hcovers⟩ := covers_reached ha
  rw [reached, run_append, run_cons] at he'
  have hstart : After cfg e r c params (fun page => Shows page c m)
      (step cfg (reached cfg a) (.arrive r u (.list c params))) := After.arrive hinv hdated he hlate hnone huuids
  -- the message is among the newest ones until the request is answered
  have hamong : Along (step cfg) (fun s _ => UnderWay s r →
      ∃ row ∈ newestLive s.table c (clampLimit params.limit), row.messageId = m)
      (step cfg (reached cfg a) (.arrive r u (.list c params))) b := by
    rw [along_iff_split]
    rintro b₁ o b₂ hsplit hway
    have hstate : reached cfg (a ++ .arrive r u (.list c params) :: b₁) =
        run (step cfg) (step cfg (reached cfg a) (.arrive r u (.list c params))) b₁ := by
      rw [reached, run_append, run_cons]
    rw [← hstate] at hway ⊢
    exact hnewest b₁ (o :: b₂) hsplit hway
  have hend := run_inv (I := fun s => After cfg e r c params (fun page => Shows page c m) s ∧ Covers cfg s) ?_
    ⟨hstart, covers_step hinv hdated hcovers hcover⟩ (along_and hb hamong)
  · exact hend.1.follows.log e' he' hr page hpage
  · rintro s o ⟨hafter, hcovers⟩ ⟨hcover, hamong⟩
    refine ⟨hafter.step ?_ ?_, covers_step hafter.vetted hafter.dated hcovers hcover⟩
    · intro hway entry hentry
      obtain ⟨row, hrow, rfl⟩ := hamong hway
      apply hcovers c params entry huuids hbefore hentry row hrow e hafter.answered hcreates
      calc e.time + 1000 * cfg.cacheTtlSecs ≤ s.now := hafter.late
        _ < entry.deadline := (lookup_some.1 hentry).2
    · rintro hway rfl task htask hphase
      obtain ⟨row, hrow, rfl⟩ := hamong hway
      have hq := (hafter.follows.held htask).1
      exact readPage_newest hbefore hrow
        (hcover rfl task c params htask hphase hq hbefore row hrow e hafter.answered hcreates hafter.late)

/-- **Staleness.** Along steps that store no page with a message whose deletion was answered before, a list that begins a
page's lifetime after a delete was answered does not return the message. Along steps that leave no newest page without one
of its newest messages that were answered for as long, a newest page has them. -/
theorem staleness_bounded (cfg : Config) (ops : List Op) :
    (Along (step cfg) Settled init ops → NoDeleted cfg ops) ∧
      (Along (step cfg) (Covering cfg) init ops → HasCreated cfg ops) :=
  ⟨no_deleted, has_created⟩

/-- a message is created and deleted, another one created; five seconds later the page is read, stored and returned -/
def promptRun : List Op :=
  [.arrive 0 7 (.create 1 ⟨"a", []⟩), .check 0 (some true), .insert 0 10 .done, .respond 0,
    .arrive 1 7 (.delete 1 10), .look 1 .rows, .mark 1 .done, .respond 1,
    .arrive 2 7 (.create 1 ⟨"b", []⟩), .check 2 (some true), .insert 2 11 .done, .respond 2, .tick 5000,
    .arrive 3 8 (.list 1 ⟨none, none⟩), .check 3 (some true), .get 3 true, .select 3 .rows, .set 3 .done, .respond 3]

def fiveSeconds : Config := ⟨true, 5, "http://s3", "files"⟩

theorem prompt_bounded : NoDeleted fiveSeconds promptRun ∧ HasCreated fiveSeconds promptRun := by
  refine ⟨(staleness_bounded fiveSeconds promptRun).1 ?_, (staleness_bounded fiveSeconds promptRun).2 ?_⟩
  · simp only [promptRun, Along, Settled, true_and, and_true]
    intro _ task page htask hphase e he c m hd hshows
    obtain rfl : _ = task := Option.some.inj htask
    obtain rfl : _ = page := Phase.filling.inj hphase
    obtain ⟨message, hmessage, rfl, rfl⟩ := hshows
    obtain rfl : message = ⟨11, 1, 7, "b", [], 0⟩ := List.mem_singleton.1 hmessage
    revert he hd
    revert e
    decide
  · simp only [promptRun, Along, Covering, true_and, and_true]
    refine ⟨?_, ?_, ?_⟩
    · -- nothing is cached when the first message is marked deleted
      intro _ task c m _ _ _ params entry _ _ hentry
      cases (lookup_some.1 hentry).1
    · intro _ task c params htask _ hq _ row hrow _ _ _ _
      obtain rfl : _ = task := Option.some.inj htask
      obtain ⟨rfl, rfl⟩ := Request.list.inj hq
      obtain rfl : row = ⟨11, 7, "b", none, 0, none⟩ := List.mem_singleton.1 hrow
      exact List.mem_of_getElem? (i := 0) rfl
    · intro _ task page c params htask hphase hq _ row hrow _ _ _ _
      obtain rfl : _ = task := Option.some.inj htask
      obtain rfl : _ = page := Phase.filling.inj hphase
      obtain ⟨rfl, rfl⟩ := Request.list.inj hq
      obtain rfl : row = ⟨11, 7, "b", none, 0, none⟩ := List.mem_singleton.1 hrow
      exact ⟨⟨11, 1, 7, "b", [], 0⟩, List.mem_singleton_self _, rfl, rfl⟩

/-! ## A page stored late -/

/-- a page is read; its message is deleted and another one created, both answered; five seconds later it is stored -/
def lateFill : List Op :=
  [.arrive 0 7 (.create 1 ⟨"a", []⟩), .check 0 (some true), .insert 0 10 .done, .respond 0,
    .arrive 1 8 (.list 1 ⟨none, none⟩), .check 1 (some true), .get 1 true, .select 1 .rows,
    .arrive 2 7 (.delete 1 10), .look 2 .rows, .mark 2 .done, .respond 2,
    .arrive 3 7 (.create 1 ⟨"b", []⟩), .check 3 (some true), .insert 3 11 .done, .respond 3,
    .tick 5000, .set 1 .done]

def lateRead : List Op := [.check 4 (some true), .get 4 true, .respond 4]

theorem late_fill : ¬ NoDeleted fiveSeconds (lateFill ++ .arrive 4 8 (.list 1 ⟨none, none⟩) :: lateRead) ∧
    ¬ HasCreated fiveSeconds (lateFill ++ .arrive 4 8 (.list 1 ⟨none, none⟩) :: lateRead) := by
  refine ⟨?_, ?_⟩
  · intro h
    exact h lateFill lateRead 4 8 1 ⟨none, none⟩ rfl (by decide) rfl ⟨2, 0, .returned 7 (.delete 1 10) .noContent⟩
      (List.mem_of_getElem? (i := 5) rfl) 1 10 rfl (by decide)
      ⟨4, 5000, .returned 8 (.list 1 ⟨none, none⟩) (.page ⟨[⟨10, 1, 7, "a", [], 0⟩], none, false⟩)⟩
      (List.mem_of_getElem? (i := 10) rfl) rfl _ rfl ⟨_, List.mem_singleton_self _, rfl, rfl⟩
  · intro h
    -- the second message is the newest one all the time
    have hnewest : ∀ b₁ b₂, lateRead = b₁ ++ b₂ →
        UnderWay (reached fiveSeconds (lateFill ++ .arrive 4 8 (.list 1 ⟨none, none⟩) :: b₁)) 4 →
        ∃ row ∈ newestLive (reached fiveSeconds (lateFill ++ .arrive 4 8 (.list 1 ⟨none, none⟩) :: b₁)).table 1
          (clampLimit none), row.messageId = 11 := by
      intro b₁ b₂ hb _
      have hprefix : b₁ ∈ lateRead.inits := (List.mem_inits _ _).2 ⟨b₂, hb.symm⟩
      simp only [lateRead, List.inits, List.map_cons, List.map_nil, List.mem_cons, List.not_mem_nil,
        or_false] at hprefix
      refine ⟨⟨11, 7, "b", none, 0, none⟩, ?_, rfl⟩
      rcases hprefix with rfl | rfl | rfl | rfl
      all_goals exact List.mem_of_getElem? (i := 0) rfl
    obtain ⟨message, hmessage, -, hid⟩ := h lateFill lateRead 4 8 1 ⟨none, none⟩ rfl (by decide) rfl rfl
      ⟨3, 0, .returned 7 (.create 1 ⟨"b", []⟩) (.created ⟨11, 1, 7, "b", [], 0⟩)⟩
      (List.mem_of_getElem? (i := 8) rfl) 11 rfl (by decide) hnewest
      ⟨4, 5000, .returned 8 (.list 1 ⟨none, none⟩) (.page ⟨[⟨10, 1, 7, "a", [], 0⟩], none, false⟩)⟩
      (List.mem_of_getElem? (i := 10) rfl) rfl _ rfl
    rw [List.mem_singleton.1 hmessage] at hid
    exact absurd hid (by decide)

end Concordia.Chat.Requests
