/-
Who may do what in chat's channels, over every interleaving of requests (`Chat.Requests`).

- `Guard`: what the log must hold before an entry. A message is inserted, an object stored, only after the request was
  allowed to WRITE; a page is returned only after it was allowed to READ; a message is marked deleted by the user who
  inserted it, or after the request was allowed to MANAGE.
- `Harmless`: a request that is refused anywhere changes no store at any of its steps.
- `access_control_iff`: both hold of a run iff S3 stores none of its uploads. `upload_attachment` asks for no permission;
  the other three endpoints keep to the rules, whatever is cached.
- `stored_unchecked`: an upload by somebody who never was in the channel.
-/
import Concordia.Chat.Walk
import Concordia.Chat.Requests

namespace Concordia.Chat.Requests

open Concordia.Lib
open Concordia.Servers (Uuid Action)
open Function (update update_self update_of_ne)

/-! ## The rules -/

/-- CheckPerm has answered this request that the user is allowed -/
def Allowed (log : List Entry) (r : ℕ) (userId channelId : Uuid) (action : Action) : Prop :=
  ∃ e ∈ log, e.request = r ∧ e.event = .checked userId channelId action (some true)

/-- what the entries before an entry must hold -/
def Guard (log : List Entry) (e : Entry) : Prop :=
  match e.event with
  | .inserted u c _ => Allowed log e.request u c .write
  | .stored u c _ => Allowed log e.request u c .write
  | .markedDeleted u c m => (∃ e' ∈ log, e'.event = .inserted u c m) ∨ Allowed log e.request u c .manage
  | .returned u _ (.page page) => ∀ m ∈ page.messages, Allowed log e.request u m.channelId .read
  | _ => True

def Guarded (log : List Entry) : Prop := ∀ a e b, log = a ++ e :: b → Guard a e

/-- a check that was not answered `allowed` -/
def Event.refusal : Event → Prop
  | .checked _ _ _ answer => answer ≠ some true
  | _ => False

def Refused (log : List Entry) (r : ℕ) : Prop := ∃ e ∈ log, e.request = r ∧ e.event.refusal

structure SameStores (s t : St) : Prop where
  table : t.table = s.table
  cache : t.cache = s.cache
  objects : t.objects = s.objects

def Harmless (cfg : Config) (ops : List Op) : Prop :=
  ∀ a o b r, ops = a ++ o :: b → o.request = some r → Refused (reached cfg ops).log r →
    SameStores (reached cfg a) (reached cfg (a ++ [o]))

structure Secure (cfg : Config) (ops : List Op) : Prop where
  guarded : Guarded (reached cfg ops).log
  harmless : Harmless cfg ops

/-- S3 does not store what a request uploads -/
def NoObject (s : St) : Op → Prop
  | .put r _ outcome => outcome ≠ .failed → ∀ task file, s.requests r = some task → task.phase ≠ .storing file
  | _ => True

theorem guarded_snoc {log : List Entry} {e : Entry} : Guarded (log ++ [e]) ↔ Guarded log ∧ Guard log e := by
  refine ⟨?_, ?_⟩
  · intro h
    refine ⟨?_, h log e [] rfl⟩
    intro a e' b hlog
    exact h a e' (b ++ [e]) (by rw [hlog]; simp)
  · intro h a e' b hlog
    rcases List.eq_nil_or_concat' b with rfl | ⟨b', x, rfl⟩
    · obtain ⟨rfl, hlast⟩ := List.append_inj' hlog rfl
      obtain rfl := (List.cons.inj hlast).1
      exact h.2
    · have hsplit : log ++ [e] = (a ++ e' :: b') ++ [x] := by rw [hlog]; simp
      exact h.1 a e' b' (List.append_inj' hsplit rfl).1

/-! ## What the log holds for each request -/

def Event.check : Event → Prop
  | .checked _ _ _ _ => True
  | _ => False

/-- CheckPerm has not answered the request -/
def Unchecked (log : List Entry) (r : ℕ) : Prop := ∀ e ∈ log, e.request = r → ¬ e.event.check

/-- who marks a message deleted inserted it, or may manage the channel -/
def MayMark (log : List Entry) (r : ℕ) (userId channelId messageId : Uuid) : Prop :=
  (∃ e ∈ log, e.event = .inserted userId channelId messageId) ∨ Allowed log r userId channelId .manage

/-- what is known of a request by where it is -/
def PhaseOk (log : List Entry) (r : ℕ) (userId : Uuid) (q : Request) : Phase → Prop
  | .checking | .looking | .storing _ => Unchecked log r
  | .inserting => ¬ Refused log r ∧ Allowed log r userId q.channelId .write
  | .reading | .selecting => ¬ Refused log r ∧ Allowed log r userId q.channelId .read
  | .filling page => ¬ Refused log r ∧ Allowed log r userId q.channelId .read ∧
      ∀ m ∈ page.messages, m.channelId = q.channelId
  | .marking => ¬ Refused log r ∧ ∀ c m, q = .delete c m → MayMark log r userId c m
  | .responding (.page page) => Allowed log r userId q.channelId .read ∧ ∀ m ∈ page.messages, m.channelId = q.channelId
  | .responding _ | .answered _ => True

section Snoc

variable {log : List Entry} {e : Entry} {r : ℕ}

theorem Allowed.snoc {u c : Uuid} {action : Action} (h : Allowed log r u c action) :
    Allowed (log ++ [e]) r u c action := by
  obtain ⟨e', he', hallowed⟩ := h
  exact ⟨e', List.mem_append_left _ he', hallowed⟩

theorem Unchecked.snoc (h : Unchecked log r) (he : e.event.check → e.request ≠ r) : Unchecked (log ++ [e]) r := by
  intro e' he' hr hcheck
  rcases List.mem_append.1 he' with he' | he'
  · exact h e' he' hr hcheck
  · rw [List.mem_singleton.1 he'] at hr hcheck
    exact he hcheck hr

theorem refused_snoc (h : ¬ Refused log r) (he : e.event.refusal → e.request ≠ r) : ¬ Refused (log ++ [e]) r := by
  intro hrefused
  obtain ⟨e', he', hr, hrefusal⟩ := hrefused
  rcases List.mem_append.1 he' with he' | he'
  · exact h ⟨e', he', hr, hrefusal⟩
  · rw [List.mem_singleton.1 he'] at hr hrefusal
    exact he hrefusal hr

theorem Event.refusal.check {event : Event} (h : event.refusal) : event.check := by
  cases event with
  | checked => trivial
  | _ => exact h.elim

theorem Unchecked.not_refused (h : Unchecked log r) : ¬ Refused log r := by
  intro hrefused
  obtain ⟨e', he', hr, hrefusal⟩ := hrefused
  exact h e' he' hr hrefusal.check

theorem MayMark.snoc {u c m : Uuid} (h : MayMark log r u c m) : MayMark (log ++ [e]) r u c m := by
  rcases h with ⟨e', he', heq⟩ | h
  · exact .inl ⟨e', List.mem_append_left _ he', heq⟩
  · exact .inr h.snoc

/-- an entry that is not a check of this request changes nothing of what is known of it -/
theorem PhaseOk.snoc {u : Uuid} {q : Request} {phase : Phase} (h : PhaseOk log r u q phase)
    (he : e.event.check → e.request ≠ r) : PhaseOk (log ++ [e]) r u q phase := by
  have hrefusal : e.event.refusal → e.request ≠ r := fun hr => he hr.check
  cases phase with
  | checking => exact Unchecked.snoc h he
  | looking => exact Unchecked.snoc h he
  | storing file => exact Unchecked.snoc h he
  | inserting => exact ⟨refused_snoc h.1 hrefusal, h.2.snoc⟩
  | reading => exact ⟨refused_snoc h.1 hrefusal, h.2.snoc⟩
  | selecting => exact ⟨refused_snoc h.1 hrefusal, h.2.snoc⟩
  | filling page => exact ⟨refused_snoc h.1 hrefusal, h.2.1.snoc, h.2.2⟩
  | marking => exact ⟨refused_snoc h.1 hrefusal, fun c m hq => (h.2 c m hq).snoc⟩
  | responding a =>
    cases a with
    | page page => exact ⟨h.1.snoc, h.2⟩
    | _ => trivial
  | answered a => trivial

end Snoc

/-! ## The invariant -/

structure Vetted (s : St) : Prop where
  uuids : ∀ r task, s.requests r = some task → task.request.Uuids
  /-- the log speaks of requests that have arrived -/
  known : ∀ e ∈ s.log, s.requests e.request ≠ none
  tasks : ∀ r task, s.requests r = some task → PhaseOk s.log r task.userId task.request task.phase
  /-- the author of a message is the user who has inserted it -/
  authors : ∀ c, ∀ row ∈ s.table.partition c, ∃ e ∈ s.log, e.event = .inserted row.authorId c row.messageId
  /-- a page is cached under the key of its channel -/
  cached : ∀ c params entry, (Request.list c params).Uuids → s.cache (cacheKey c params) = some entry →
    ∀ m ∈ entry.page.messages, m.channelId = c

theorem vetted_init : Vetted init := by
  constructor <;> simp [init]

theorem firstPhase_ok {log : List Entry} {r : ℕ} (h : Unchecked log r) (u : Uuid) (q : Request) :
    PhaseOk log r u q (firstPhase q) := by
  cases q with
  | create c body => exact h
  | list c params => exact h
  | delete c m => exact h
  | upload c multipart =>
    simp only [firstPhase]
    cases readFile multipart with
    | ok file => exact h
    | error e => trivial

/-- a page that is read from a channel holds messages of that channel -/
theorem readPage_channel {t : MessageTable} {c : Uuid} {params : ListMessagesQuery} {now : ℕ} :
    ∀ m ∈ (readPage t c params now).messages, m.channelId = c := by
  intro m hm
  obtain ⟨⟨row, -, -, rfl⟩, -⟩ := mem_loadMessages ((buildPage_messages_sublist _ _).subset hm)
  rfl

/-- an answer that changes nothing but the phase keeps what is known of the request -/
theorem quiet_ok {cfg : Config} {s : St} {r : ℕ} {task : Task} {o : Op} {phase : Phase} (hinv : Vetted s)
    (htask : s.requests r = some task) (h : Quiet cfg s task o phase) :
    PhaseOk s.log r task.userId task.request phase := by
  have hok := hinv.tasks r task htask
  cases h with
  | insertFailed => trivial
  | hit hphase hq hentry =>
    rw [hphase] at hok
    obtain ⟨hcached, -⟩ := Option.filter_eq_some_iff.1 hentry
    have huuids := hinv.uuids r task htask
    rw [hq] at huuids
    refine ⟨hok.2, ?_⟩
    rw [hq]
    exact hinv.cached _ _ _ huuids hcached
  | miss _ _ hphase hq =>
    rw [hphase] at hok
    exact hok
  | selected _ hphase hq =>
    rw [hphase] at hok
    rw [hq] at hok ⊢
    split_ifs
    · exact ⟨hok.1, hok.2, readPage_channel⟩
    · exact ⟨hok.2, readPage_channel⟩
  | selectFailed => trivial
  | notSet _ hphase =>
    rw [hphase] at hok
    exact hok.2
  | lookFailed => trivial
  | author _ hphase hq hrow hid hauthor =>
    rw [hphase] at hok
    refine ⟨hok.not_refused, ?_⟩
    intro c m hq'
    obtain ⟨rfl, rfl⟩ := Request.delete.inj (hq.symm.trans hq')
    obtain ⟨e, he, hevent⟩ := hinv.authors _ _ hrow
    rw [hauthor, hid] at hevent
    exact .inl ⟨e, he, hevent⟩
  | notAuthor _ hphase =>
    rw [hphase] at hok
    exact hok
  | markFailed => trivial
  | putFailed => trivial

theorem Vetted.move {s : St} {r : ℕ} {task : Task} {phase : Phase} (hinv : Vetted s) (htask : s.requests r = some task)
    (hok : PhaseOk s.log r task.userId task.request phase) : Vetted (s.move r task phase) := by
  refine ⟨?_, fun e he => move_ne_none (.inr (hinv.known e he)), ?_, hinv.authors, hinv.cached⟩
  · intro r' task' h
    rcases move_cases h with ⟨rfl, rfl⟩ | ⟨-, h⟩
    · exact hinv.uuids _ task htask
    · exact hinv.uuids r' task' h
  · intro r' task' h
    rcases move_cases h with ⟨rfl, rfl⟩ | ⟨-, h⟩
    · exact hok
    · exact hinv.tasks r' task' h

/-- a request moves on, and an entry about it is written -/
theorem Vetted.record {s : St} {r : ℕ} {task : Task} {phase : Phase} (hinv : Vetted s) (htask : s.requests r = some task)
    (event : Event) (hok : PhaseOk (s.log ++ [⟨r, s.now, event⟩]) r task.userId task.request phase) :
    Vetted ((s.record r event).move r task phase) := by
  refine ⟨?_, ?_, ?_, ?_, hinv.cached⟩
  · intro r' task' h
    rcases move_cases h with ⟨rfl, rfl⟩ | ⟨-, h⟩
    · exact hinv.uuids _ task htask
    · exact hinv.uuids r' task' h
  · intro e he
    apply move_ne_none
    rcases List.mem_append.1 he with he | he
    · exact .inr (hinv.known e he)
    · rw [List.mem_singleton.1 he]
      exact .inl rfl
  · intro r' task' h
    rcases move_cases h with ⟨rfl, rfl⟩ | ⟨hne, h⟩
    · exact hok
    · exact (hinv.tasks r' task' h).snoc fun _ => hne.symm
  · intro c row hrow
    obtain ⟨e, he, hevent⟩ := hinv.authors c row hrow
    exact ⟨e, List.mem_append_left _ he, hevent⟩

theorem written_ok {log : List Entry} {r : ℕ} {u : Uuid} {q : Request} {a : Answer} (h : ∀ page, a ≠ .page page)
    (ok : Bool) (text : String) : PhaseOk log r u q (written ok a text) := by
  unfold written
  split_ifs
  · cases a with
    | page page => exact absurd rfl (h page)
    | _ => trivial
  · trivial

/-- the phase after a check, from the entry it has left -/
theorem Checked.phaseOk {cfg : Config} {log : List Entry} {r now : ℕ} {u : Uuid} {q : Request} {action : Action}
    {reply : Option Bool} {phase : Phase} (hunchecked : Unchecked log r) (h : Checked cfg q action reply phase) :
    PhaseOk (log ++ [⟨r, now, .checked u q.channelId action reply⟩]) r u q phase := by
  have hallowed : reply = some true →
      Allowed (log ++ [⟨r, now, .checked u q.channelId action reply⟩]) r u q.channelId action := by
    rintro rfl
    exact ⟨_, List.mem_append_right _ (List.mem_singleton_self _), rfl, rfl⟩
  have hpassed : reply = some true → ¬ Refused (log ++ [⟨r, now, .checked u q.channelId action reply⟩]) r := by
    rintro rfl
    apply refused_snoc hunchecked.not_refused
    intro hrefusal
    exact absurd rfl hrefusal
  cases h with
  | refused => trivial
  | create => exact ⟨hpassed rfl, hallowed rfl⟩
  | list =>
    split_ifs
    · exact ⟨hpassed rfl, hallowed rfl⟩
    · exact ⟨hpassed rfl, hallowed rfl⟩
  | delete =>
    refine ⟨hpassed rfl, ?_⟩
    intro c' m' hq
    obtain ⟨rfl, rfl⟩ := Request.delete.inj hq
    exact .inr (hallowed rfl)

theorem vetted_step (cfg : Config) (s : St) (o : Op) (hinv : Vetted s) : Vetted (step cfg s o) := by
  rcases step_effect cfg s o with heq | he
  · rwa [heq]
  generalize step cfg s o = t at he
  cases he with
  | tick millis => exact ⟨hinv.uuids, hinv.known, hinv.tasks, hinv.authors, hinv.cached⟩
  | @arrive r u q hnone huuids =>
    refine ⟨?_, ?_, ?_, hinv.authors, hinv.cached⟩
    · intro r' task' h
      rcases arrive_cases h with ⟨rfl, rfl⟩ | h
      · exact huuids
      · exact hinv.uuids r' task' h
    · intro e he
      have hne : e.request ≠ r := fun heq => hinv.known e he (by rw [heq, hnone])
      simp only [update_of_ne hne]
      exact hinv.known e he
    · intro r' task' h
      rcases arrive_cases h with ⟨rfl, rfl⟩ | h
      · apply firstPhase_ok
        intro e he heq
        exact absurd hnone (by rw [← heq]; exact hinv.known e he)
      · exact hinv.tasks r' task' h
  | quiet htask ho h => exact hinv.move htask (quiet_ok hinv htask h)
  | check reply htask hphase hchecks =>
    have hok := hinv.tasks _ _ htask
    rw [hphase] at hok
    exact hinv.record htask _ ((afterCheck_checked hchecks reply).phaseOk hok)
  | @insert r task c m body outcome ok htask hphase hq hfresh happlied =>
    have hmoved := hinv.record htask (.inserted task.userId c m) (written_ok
      (a := .created ⟨m, c, task.userId, body.content, body.attachments, s.now⟩) (by simp) ok "failed to persist message")
    refine ⟨hmoved.uuids, hmoved.known, hmoved.tasks, ?_, hmoved.cached⟩
    intro c' row hrow
    have hfresh' : (messageRow m task.userId body s.now).messageId ∉ (s.table.partition c).map MessageRow.messageId := by
      intro hmem
      obtain ⟨row', hrow', hid⟩ := List.mem_map.1 hmem
      obtain ⟨e, he, hevent⟩ := hinv.authors c row' hrow'
      rw [hid] at hevent
      exact hfresh (mem_used he hevent)
    rcases (MessageTable.mem_insert hfresh').1 hrow with ⟨rfl, rfl⟩ | hrow
    · exact ⟨_, List.mem_append_right _ (List.mem_singleton_self _), rfl⟩
    · exact hmoved.authors c' row hrow
  | @mark r task c m outcome ok htask hphase hq happlied =>
    have hmoved := hinv.record htask (.markedDeleted task.userId c m)
      (written_ok (a := .noContent) (by simp) ok "failed to delete message")
    refine ⟨hmoved.uuids, hmoved.known, hmoved.tasks, ?_, hmoved.cached⟩
    intro c' row hrow
    obtain ⟨row', hrow', rfl⟩ := MessageTable.mem_softDelete.1 hrow
    obtain ⟨e, he, hevent⟩ := hmoved.authors c' row' hrow'
    refine ⟨e, he, ?_⟩
    rw [hevent]
    split_ifs <;> simp
  | @set r task c params page outcome htask hphase hq happlied =>
    have hok := hinv.tasks r task htask
    have huuids := hinv.uuids r task htask
    rw [hphase, hq] at hok
    rw [hq] at huuids
    have hmoved : Vetted (s.move r task (.responding (.page page))) := by
      apply hinv.move htask
      rw [hq]
      exact hok.2
    refine ⟨hmoved.uuids, hmoved.known, hmoved.tasks, hmoved.authors, ?_⟩
    intro c' params' entry huuids' hentry
    simp only [setCache] at hentry
    rcases eq_or_ne (cacheKey c' params') (cacheKey c params) with heq | hne
    · rw [heq, update_self] at hentry
      obtain rfl := Option.some.inj hentry
      rw [(cacheKey_inj huuids' huuids heq).1]
      exact hok.2.2
    · rw [update_of_ne hne] at hentry
      exact hinv.cached c' params' entry huuids' hentry
  | @put r task file attachmentId outcome ok htask hphase happlied =>
    have hmoved := hinv.record htask
      (.stored task.userId task.request.channelId (objectKey task.request.channelId attachmentId file.filename))
      (written_ok (a := .uploaded ⟨attachmentId, attachmentUrl cfg
        (objectKey task.request.channelId attachmentId file.filename), file.filename, file.bytes.length⟩) (by simp) ok
        "failed to upload file")
    exact ⟨hmoved.uuids, hmoved.known, hmoved.tasks, hmoved.authors, hmoved.cached⟩
  | respond htask hphase => exact hinv.record htask _ trivial

theorem vetted_reached (cfg : Config) (ops : List Op) : Vetted (reached cfg ops) := run_inv' (vetted_step cfg) vetted_init ops

/-! ## The log -/

theorem guarded_step {cfg : Config} {s : St} {o : Op} (hinv : Vetted s) (hno : NoObject s o) (h : Guarded s.log) :
    Guarded (step cfg s o).log := by
  rcases step_effect cfg s o with heq | he
  · rwa [heq]
  generalize step cfg s o = t at he
  cases he with
  | tick => exact h
  | arrive => exact h
  | quiet => exact h
  | set => exact h
  | check => exact guarded_snoc.2 ⟨h, trivial⟩
  | insert ok htask hphase hq hfresh happlied =>
    have hok := hinv.tasks _ _ htask
    rw [hphase, hq] at hok
    exact guarded_snoc.2 ⟨h, hok.2⟩
  | mark ok htask hphase hq happlied =>
    have hok := hinv.tasks _ _ htask
    rw [hphase] at hok
    exact guarded_snoc.2 ⟨h, hok.2 _ _ hq⟩
  | put ok htask hphase happlied => exact absurd hphase (hno happlied _ _ htask)
  | @respond r task a htask hphase =>
    have hok := hinv.tasks r task htask
    rw [hphase] at hok
    refine guarded_snoc.2 ⟨h, ?_⟩
    cases a with
    | page page =>
      intro m hm
      rw [hok.2 m hm]
      exact hok.1
    | _ => trivial

theorem vetted_guarded_step (cfg : Config) (s : St) (o : Op) (h : Vetted s ∧ Guarded s.log) (hno : NoObject s o) :
    Vetted (step cfg s o) ∧ Guarded (step cfg s o).log :=
  ⟨vetted_step cfg s o h.1, guarded_step h.1 hno h.2⟩

theorem guarded_nil : Guarded [] := by
  intro a e b h
  simp at h

/-! ## The stores -/

/-- CheckPerm will not be asked any more -/
def Past : Phase → Prop
  | .checking | .looking => False
  | _ => True

/-- the request is past its check, and was not refused -/
def Passed (s : St) (r : ℕ) : Prop := ∃ task, s.requests r = some task ∧ Past task.phase ∧ ¬ Refused s.log r

theorem past_written (ok : Bool) (a : Answer) (text : String) : Past (written ok a text) := by
  unfold written
  split_ifs <;> trivial

theorem Quiet.past {cfg : Config} {s : St} {task : Task} {o : Op} {phase : Phase} (h : Quiet cfg s task o phase)
    (hpast : Past task.phase) : Past phase := by
  cases h with
  | notAuthor r hphase =>
    rw [hphase] at hpast
    exact hpast.elim
  | selected => split_ifs <;> trivial
  | _ => trivial

theorem Passed.move {s : St} {r r' : ℕ} {task : Task} {phase : Phase} (h : Passed s r)
    (hself : r = r' → Past phase) : Passed (s.move r' task phase) r := by
  obtain ⟨task', htask', hpast, hpassed⟩ := h
  simp only [Passed, St.move]
  rcases eq_or_ne r r' with rfl | hne
  · exact ⟨_, update_self _ _ _, hself rfl, hpassed⟩
  · exact ⟨task', by rw [update_of_ne hne, htask'], hpast, hpassed⟩

theorem Passed.record {s : St} {r r' : ℕ} {event : Event} (h : Passed s r)
    (hevent : event.check → r' ≠ r) : Passed (s.record r' event) r := by
  obtain ⟨task', htask', hpast, hpassed⟩ := h
  exact ⟨task', htask', hpast, refused_snoc hpassed fun hr => hevent hr.check⟩

theorem passed_step (cfg : Config) (r : ℕ) (s : St) (o : Op) (h : Passed s r) : Passed (step cfg s o) r := by
  -- what a request is past it stays past
  have hself : ∀ r' task, s.requests r' = some task → r = r' → Past task.phase := by
    intro r' task htask heq
    obtain ⟨task', htask', hpast, -⟩ := h
    rw [heq, htask] at htask'
    rwa [Option.some.inj htask']
  rcases step_effect cfg s o with heq | he
  · rwa [heq]
  generalize step cfg s o = t at he
  cases he with
  | tick => exact h
  | @arrive r' u q hnone huuids =>
    obtain ⟨task, htask, hpast⟩ := h
    have hne : r ≠ r' := ne_of_vacant hnone htask
    exact ⟨task, by simp only [update_of_ne hne, htask], hpast⟩
  | quiet htask ho hquiet => exact h.move fun heq => hquiet.past (hself _ _ htask heq)
  | @check r' task action next reply htask hphase hchecks =>
    have hne : r' ≠ r := by
      rintro rfl
      have hpast := hself r' task htask rfl
      rw [hphase] at hpast
      exact hpast
    exact (h.record fun _ => hne).move fun heq => absurd heq.symm hne
  | insert ok => exact (h.record False.elim).move fun _ => past_written ok _ _
  | mark ok => exact (h.record False.elim).move fun _ => past_written ok _ _
  | set => exact h.move fun _ => trivial
  | put ok => exact (h.record False.elim).move fun _ => past_written ok _ _
  | respond => exact (h.record False.elim).move fun _ => trivial

/-- what was allowed has been written: the request is past its check -/
theorem passed_written {s : St} {r : ℕ} {event : Event} (task : Task) {ok : Bool} {a : Answer} {text : String}
    (h : ¬ Refused s.log r) (hevent : ¬ event.check) : Passed ((s.record r event).move r task (written ok a text)) r :=
  ⟨_, update_self _ _ _, past_written ok a text, refused_snoc h fun hr => absurd hr.check hevent⟩

theorem stores_step {cfg : Config} {s : St} {o : Op} (hinv : Vetted s) (hno : NoObject s o) :
    SameStores s (step cfg s o) ∨ ∃ r, o.request = some r ∧ Passed (step cfg s o) r := by
  rcases step_effect cfg s o with heq | he
  · rw [heq]
    exact .inl ⟨rfl, rfl, rfl⟩
  generalize step cfg s o = t at he
  cases he with
  | @insert r task c m body outcome ok htask hphase hq hfresh happlied =>
    have hok := hinv.tasks r task htask
    rw [hphase] at hok
    exact .inr ⟨r, rfl, passed_written task hok.1 id⟩
  | @mark r task c m outcome ok htask hphase hq happlied =>
    have hok := hinv.tasks r task htask
    rw [hphase] at hok
    exact .inr ⟨r, rfl, passed_written task hok.1 id⟩
  | @set r task c params page outcome htask hphase hq happlied =>
    have hok := hinv.tasks r task htask
    rw [hphase] at hok
    exact .inr ⟨r, rfl, _, update_self _ _ _, trivial, hok.1⟩
  | put ok htask hphase happlied => exact absurd hphase (hno happlied _ _ htask)
  | _ => exact .inl ⟨rfl, rfl, rfl⟩

/-! ## Runs -/

/-- what S3 stores is logged -/
theorem step_put (cfg : Config) {s : St} {r : ℕ} {task : Task} {file : File} (attachmentId : Uuid) {outcome : Outcome}
    (htask : s.requests r = some task) (hphase : task.phase = .storing file) (happlied : outcome ≠ .failed) :
    (step cfg s (.put r attachmentId outcome)).log = s.log ++ [⟨r, s.now, .stored task.userId task.request.channelId
      (objectKey task.request.channelId attachmentId file.filename)⟩] := by
  simp only [step, Op.request, Option.bind_some, htask, Option.map_some, answer, hphase]
  cases outcome with
  | failed => exact absurd rfl happlied
  | _ => rfl

/-- **Access control.** In any run of the four endpoints, by any users, whatever CheckPerm and the stores answer: messages
are inserted, objects stored, pages returned and messages marked deleted only for those who are allowed to, and what is
refused leaves the stores alone, exactly if S3 stores no upload. -/
theorem access_control_iff (cfg : Config) (ops : List Op) :
    Secure cfg ops ↔ Along (step cfg) NoObject init ops := by
  refine ⟨?_, ?_⟩
  · intro h
    rw [along_iff_split]
    rintro a o b rfl
    cases o with
    | put r attachmentId outcome =>
      intro happlied task file htask hphase
      have hstored := step_put cfg attachmentId htask hphase happlied
      obtain ⟨later, hlater⟩ := log_run cfg (step cfg (reached cfg a) (.put r attachmentId outcome)) b
      have hlog : (reached cfg (a ++ .put r attachmentId outcome :: b)).log = _ :=
        (congrArg St.log (run_append (step cfg) init a (.put r attachmentId outcome :: b))).trans hlater.symm
      rw [hstored, List.append_assoc] at hlog
      -- nothing was asked while the upload waited for S3
      obtain ⟨e, he, hr, hevent⟩ := h.guarded _ _ _ hlog
      have hok := (vetted_reached cfg a).tasks r task htask
      rw [hphase] at hok
      exact hok e he hr (by rw [hevent]; trivial)
    | _ => trivial
  · intro h
    refine ⟨(run_inv (vetted_guarded_step cfg) ⟨vetted_init, guarded_nil⟩ h).2, ?_⟩
    intro a o b r hops hr hrefused
    rw [hops, along_append] at h
    rw [reached, reached, run_snoc]
    rcases stores_step (vetted_reached cfg a) h.2.1 with hsame | ⟨r', hr', hpassed⟩
    · exact hsame
    · -- the request is past its check, and no later step refuses it
      obtain rfl : r' = r := Option.some.inj (hr'.symm.trans hr)
      rw [hops, reached, run_append, run_cons] at hrefused
      obtain ⟨task, -, -, hnot⟩ := run_inv' (passed_step cfg r') hpassed b
      exact absurd hrefused hnot

/-! ## The upload -/

/-- a small picture, sent by somebody who never was in the channel -/
def upload : List Op :=
  [.arrive 0 666 (.upload 1 [some ⟨some "file", some "a.png", some "image/png", [some [1, 2, 3]]⟩]), .put 0 5 .done, .respond 0]

theorem stored_unchecked : ¬ Secure ⟨true, 5, "http://s3", "files"⟩ upload := by
  intro h
  obtain ⟨e, he, -⟩ := h.guarded [] ⟨0, 0, .stored 666 1 (objectKey 1 5 "a.png")⟩ _ rfl
  cases he

end Concordia.Chat.Requests
