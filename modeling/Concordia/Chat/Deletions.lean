/-
Deletes of one message that are under way together (`delete_message` in `services/chat/src/handlers/messages.rs`), with the
audit events that they emit (`Chat.Requests` has the steps).

`DeletedOnce`: at most one of them has 204 for an answer, at most one audit event was emitted for the message, and every
other answer is 404. The SELECT of `deleted_at` is there to see to it, but the UPDATE does not ask again: two requests that
have both selected the row before either has marked it both delete it.

- `Unraced`: the statements and CheckPerm are answered, the users may delete the message, and the row is not yet marked
  when an UPDATE comes to it.
- `requests_step`, `marked_step`: what a step does to the deletes of one message and to its row.
- `deleted_once_iff`: the message is deleted at most once exactly along such steps.
- `deleted_twice`: two deletes by the author, both answered 204.
-/
import Concordia.Chat.Staleness

namespace Concordia.Chat.Requests

open Concordia.Lib
open Concordia.Servers (Uuid)
open Function (update update_self update_of_ne)

/-! ## The audit trail -/

/-- `EVENT_MESSAGE_DELETE`: who has deleted which message of which channel -/
structure DeleteEvent where
  userId : Uuid
  messageId : Uuid
  channelId : Uuid
deriving DecidableEq, Repr

structure Audited where
  st : St
  trail : List DeleteEvent

/-- `delete_message` emits its event when the UPDATE has been answered -/
def emitted (s : St) : Op → Option DeleteEvent
  | .mark r .done =>
    match s.requests r with
    | some ⟨userId, .delete channelId messageId, .marking⟩ => some ⟨userId, messageId, channelId⟩
    | _ => none
  | _ => none

def auditedStep (cfg : Config) (a : Audited) (o : Op) : Audited :=
  ⟨step cfg a.st o, a.trail ++ (emitted a.st o).toList⟩

/-! ## Deleted once -/

/-- the answer that a request has come to -/
def Phase.answer? : Phase → Option Answer
  | .responding a | .answered a => some a
  | _ => none

/-- a delete of this message that waits here -/
def Deleting (s : St) (c m : Uuid) (r : ℕ) (phase : Phase) : Prop :=
  ∃ task, s.requests r = some task ∧ task.request = .delete c m ∧ task.phase = phase

/-- a delete of this message that has 204 for an answer -/
def Deleted (s : St) (c m : Uuid) (r : ℕ) : Prop :=
  ∃ phase, Deleting s c m r phase ∧ phase.answer? = some .noContent

def DeleteEvent.of (c m : Uuid) (e : DeleteEvent) : Bool := e.channelId = c ∧ e.messageId = m

structure DeletedOnce (c m : Uuid) (a : Audited) : Prop where
  deleted : ∀ r r', Deleted a.st c m r → Deleted a.st c m r' → r = r'
  audited : a.trail.countP (·.of c m) ≤ 1
  refused : ∀ r phase answer, Deleting a.st c m r phase → phase.answer? = some answer →
    answer = .noContent ∨ answer = .error ⟨404, "not found"⟩

/-- the row of the message is not marked deleted -/
def Unmarked (t : MessageTable) (c m : Uuid) : Prop :=
  ∀ row ∈ t.partition c, row.messageId = m → row.deletedAt = none

def Unraced (c m : Uuid) (s : St) : Op → Prop
  | .look r reply => Deleting s c m r .looking → reply = .rows
  | .check r reply => Deleting s c m r .checking → reply = some true
  | .mark r outcome => Deleting s c m r .marking → outcome = .done ∧ Unmarked s.table c m
  | _ => True

/-! ## One delete -/

/-- `delete_message`, one answer at a time -/
def deleteMessage (t : MessageTable) (userId c m : Uuid) : Op → Phase → Phase
  | .look _ reply, .looking =>
    match reply with
    | .rows => afterLook userId ((t.partition c).find? fun row => row.messageId = m)
    | .failed => error 500 "failed to load message"
    | .undecodable => error 500 "failed to decode message"
  | .check _ reply, .checking => afterCheck .marking reply
  | .mark _ outcome, .marking =>
    match outcome with
    | .done => .responding .noContent
    | .lost | .failed => error 500 "failed to delete message"
  | .respond _, .responding a => .answered a
  | _, phase => phase

theorem update_self_eq {s : St} {r : ℕ} {task : Task} (htask : s.requests r = some task) :
    s.requests = update s.requests r (some task) := by
  rw [← htask, Function.update_eq_self]

/-- `delete_message` in `answer` -/
theorem answer_delete (cfg : Config) {s : St} {r : ℕ} {task : Task} {o : Op} {c m : Uuid}
    (htask : s.requests r = some task) (hq : task.request = .delete c m) (hfile : ∀ file, task.phase ≠ .storing file) :
    (answer cfg s r task o).requests =
      update s.requests r (some { task with phase := deleteMessage s.table task.userId c m o task.phase }) := by
  obtain ⟨userId, q, phase⟩ := task
  obtain rfl : q = .delete c m := hq
  have hself := update_self_eq htask
  cases o with
  | look r' reply => cases phase <;> cases reply <;> first | exact hself | rfl
  | check r' reply => cases phase <;> first | exact hself | rfl
  | mark r' outcome => cases phase <;> cases outcome <;> first | exact hself | rfl
  | respond r' => cases phase <;> first | exact hself | rfl
  | put r' attachmentId outcome =>
    cases phase with
    | storing file => exact absurd rfl (hfile file)
    | _ => exact hself
  | _ => cases phase <;> exact hself

/-- the requests after a step: as they were, or the one that the step is about has just arrived or has moved on -/
theorem step_requests (cfg : Config) (s : St) (o : Op) : (step cfg s o).requests = s.requests ∨ ∃ r task,
    o.request = some r ∧ (step cfg s o).requests = update s.requests r (some task) ∧
      (task.phase = firstPhase task.request ∨ ∃ old, s.requests r = some old ∧ task.request = old.request) := by
  rcases step_effect cfg s o with heq | he
  · exact .inl (congrArg St.requests heq)
  generalize step cfg s o = t at he
  cases he with
  | tick => exact .inl rfl
  | arrive => exact .inr ⟨_, _, rfl, rfl, .inl rfl⟩
  | quiet htask ho => exact .inr ⟨_, _, ho, rfl, .inr ⟨_, htask, rfl⟩⟩
  | check _ htask => exact .inr ⟨_, _, rfl, rfl, .inr ⟨_, htask, rfl⟩⟩
  | insert _ htask => exact .inr ⟨_, _, rfl, rfl, .inr ⟨_, htask, rfl⟩⟩
  | mark _ htask => exact .inr ⟨_, _, rfl, rfl, .inr ⟨_, htask, rfl⟩⟩
  | set htask => exact .inr ⟨_, _, rfl, rfl, .inr ⟨_, htask, rfl⟩⟩
  | put _ htask => exact .inr ⟨_, _, rfl, rfl, .inr ⟨_, htask, rfl⟩⟩
  | respond htask => exact .inr ⟨_, _, rfl, rfl, .inr ⟨_, htask, rfl⟩⟩

/-- a request is where it was, or it has just arrived, or the step was about it -/
theorem requests_cases {cfg : Config} {s : St} {o : Op} {r : ℕ} {task' : Task}
    (h : (step cfg s o).requests r = some task') :
    s.requests r = some task' ∨ task'.phase = firstPhase task'.request ∨
      ∃ task, o.request = some r ∧ s.requests r = some task ∧ task'.request = task.request := by
  rcases step_requests cfg s o with heq | ⟨r', task, ho, heq, hfrom⟩
  · rw [heq] at h
    exact .inl h
  · rw [heq] at h
    rcases arrive_cases h with ⟨rfl, rfl⟩ | hother
    · rcases hfrom with hfirst | ⟨old, hold, hq⟩
      · exact .inr (.inl hfirst)
      · exact .inr (.inr ⟨old, ho, hold, hq⟩)
    · exact .inl hother

/-- a step that is not about a request leaves it where it is -/
theorem requests_other (cfg : Config) {s : St} {o : Op} {r : ℕ} {task : Task} (htask : s.requests r = some task)
    (ho : o.request ≠ some r) : (step cfg s o).requests r = some task := by
  rcases step_requests cfg s o with heq | ⟨r', task', ho', heq, -⟩
  · rw [heq, htask]
  · have hne : r ≠ r' := by
      rintro rfl
      exact ho ho'
    rw [heq, update_of_ne hne, htask]

/-- **Deletes.** Where a delete of the message stands after a step: where it stood, at its beginning, or where the answer
has brought it. -/
theorem requests_step {cfg : Config} {s : St} {o : Op} {c m : Uuid} {r : ℕ} {phase : Phase}
    (hfile : ∀ r file, ¬ Deleting s c m r (.storing file)) (h : Deleting (step cfg s o) c m r phase) :
    Deleting s c m r phase ∨ phase = .looking ∨
      ∃ userId p, o.request = some r ∧ Deleting s c m r p ∧ phase = deleteMessage s.table userId c m o p := by
  obtain ⟨task', htask', hq', rfl⟩ := h
  rcases requests_cases htask' with hold | hfirst | ⟨task, ho, htask, hq⟩
  · exact .inl ⟨task', hold, hq', rfl⟩
  · rw [hfirst, hq']
    exact .inr (.inl rfl)
  · rw [hq'] at hq
    rw [step_answer cfg htask ho, answer_delete cfg htask hq.symm fun file hp => hfile r file ⟨task, htask, hq.symm, hp⟩,
      update_self] at htask'
    refine .inr (.inr ⟨task.userId, task.phase, ho, ⟨task, htask, hq.symm, rfl⟩, ?_⟩)
    rw [← Option.some.inj htask']

/-- the step of a delete -/
theorem deleting_step (cfg : Config) {s : St} {o : Op} {c m : Uuid} {r : ℕ} {p : Phase}
    (hfile : ∀ r file, ¬ Deleting s c m r (.storing file)) (h : Deleting s c m r p) (ho : o.request = some r) :
    ∃ userId, Deleting (step cfg s o) c m r (deleteMessage s.table userId c m o p) := by
  obtain ⟨task, htask, hq, rfl⟩ := h
  refine ⟨task.userId, { task with phase := deleteMessage s.table task.userId c m o task.phase }, ?_, hq, rfl⟩
  rw [step_answer cfg htask ho, answer_delete cfg htask hq fun file hp => hfile r file ⟨task, htask, hq, hp⟩,
    update_self]

/-- a delete that has 204 for an answer keeps it -/
theorem deleted_step (cfg : Config) {s : St} {o : Op} {c m : Uuid} {r : ℕ}
    (hfile : ∀ r file, ¬ Deleting s c m r (.storing file)) (h : Deleted s c m r) : Deleted (step cfg s o) c m r := by
  obtain ⟨phase, hphase, hanswer⟩ := h
  by_cases ho : o.request = some r
  · obtain ⟨userId, hmoved⟩ := deleting_step cfg hfile hphase ho
    refine ⟨_, hmoved, ?_⟩
    rw [← hanswer]
    unfold Phase.answer? at hanswer
    split at hanswer
    · cases o <;> rfl
    · cases o <;> rfl
    · cases hanswer
  · obtain ⟨task, htask, hq, hp⟩ := hphase
    exact ⟨phase, ⟨task, requests_other cfg htask ho, hq, hp⟩, hanswer⟩

/-! ## The row -/

/-- the row of the message is there -/
def HasRow (t : MessageTable) (c m : Uuid) : Prop := ∃ row ∈ t.partition c, row.messageId = m

theorem hasRow_softDelete {t : MessageTable} {c m c' m' : Uuid} {ts : ℤ} (h : HasRow t c m) :
    HasRow (t.softDelete c' m' ts) c m := by
  obtain ⟨row, hrow, hid⟩ := h
  refine ⟨_, MessageTable.mem_softDelete.2 ⟨row, hrow, rfl⟩, ?_⟩
  split_ifs
  · rw [MessageRow.softDelete_messageId, hid]
  · exact hid

/-- a row is never removed -/
theorem hasRow_step (cfg : Config) {s : St} (hinv : Vetted s) (o : Op) {c m : Uuid} (h : HasRow s.table c m) :
    HasRow (step cfg s o).table c m := by
  rcases step_effect cfg s o with heq | he
  · rwa [heq]
  generalize step cfg s o = t at he
  cases he with
  | @insert r task c' m' body outcome ok htask hphase hq hfresh happlied =>
    have hnew : (messageRow m' task.userId body s.now).messageId ∉
        (s.table.partition c').map MessageRow.messageId := hinv.fresh hfresh c'
    obtain ⟨row, hrow, hid⟩ := h
    exact ⟨row, (MessageTable.mem_insert hnew).2 (.inr hrow), hid⟩
  | mark => exact hasRow_softDelete h
  | _ => exact h

/-- a row is marked by the UPDATE of a delete of its message -/
theorem unmarked_step (cfg : Config) {s : St} (hinv : Vetted s) {o : Op} {c m : Uuid} (h : Unmarked s.table c m)
    (ho : ∀ r outcome, o = .mark r outcome → ¬ Deleting s c m r .marking) : Unmarked (step cfg s o).table c m := by
  intro row hrow hid
  rcases row_step cfg hinv o hrow with hold | ⟨-, hlive⟩ | ⟨r, outcome, task, m', rfl, htask, hq, hphase, old, hold, rfl⟩
  · exact h row hold hid
  · exact hlive
  · rw [MessageRow.softDelete_messageId] at hid
    have hother : old.messageId ≠ m' := by
      rintro rfl
      exact ho r outcome rfl ⟨task, htask, hid ▸ hq, hphase⟩
    rw [MessageRow.softDelete, if_neg hother]
    exact h old hold hid

/-! ## Where an answer brings a delete -/

theorem afterLook_phase (userId c m : Uuid) (t : MessageTable) :
    afterLook userId ((t.partition c).find? fun row => row.messageId = m) = error 404 "not found" ∨ HasRow t c m ∧
      (afterLook userId ((t.partition c).find? fun row => row.messageId = m) = .checking ∨
        afterLook userId ((t.partition c).find? fun row => row.messageId = m) = .marking) := by
  cases hfind : (t.partition c).find? fun row => row.messageId = m with
  | none => exact .inl rfl
  | some row =>
    obtain ⟨hrow, hid⟩ := find?_some_iff_mem hfind
    simp only [afterLook]
    split_ifs
    · exact .inl rfl
    · exact .inr ⟨⟨row, hrow, of_decide_eq_true hid⟩, .inr rfl⟩
    · exact .inr ⟨⟨row, hrow, of_decide_eq_true hid⟩, .inl rfl⟩

/-- where a delete comes to -/
inductive Comes (t : MessageTable) (c m : Uuid) (o : Op) (p : Phase) : Phase → Prop where
  | same : Comes t c m o p p
  | selected {phase : Phase} (hrow : HasRow t c m) (h : phase = .checking ∨ phase = .marking) : Comes t c m o p phase
  | allowed (hp : p = .checking) : Comes t c m o p .marking
  | notFound : Comes t c m o p (error 404 "not found")
  | deleted {r : ℕ} (ho : o = .mark r .done) (hp : p = .marking) : Comes t c m o p (.responding .noContent)
  | returned {a : Answer} (hp : p = .responding a) : Comes t c m o p (.answered a)

/-- a delete that nothing fails -/
theorem deleteMessage_comes {s : St} {c m : Uuid} {o : Op} {r : ℕ} {p : Phase} (userId : Uuid) (ho : o.request = some r)
    (hp : Deleting s c m r p) (h : Unraced c m s o) : Comes s.table c m o p (deleteMessage s.table userId c m o p) := by
  unfold deleteMessage
  split
  · next r' reply =>
    obtain rfl := Option.some.inj ho
    obtain rfl := h hp
    rcases afterLook_phase userId c m s.table with hnone | ⟨hrow, hphase⟩
    · rw [hnone]
      exact .notFound
    · exact .selected hrow hphase
  · next r' reply =>
    obtain rfl := Option.some.inj ho
    obtain rfl := h hp
    exact .allowed rfl
  · next r' outcome =>
    obtain rfl := Option.some.inj ho
    obtain ⟨rfl, -⟩ := h hp
    exact .deleted rfl rfl
  · exact .returned rfl
  · exact .same

/-! ## The invariant -/

/-- what is known of the deletes of one message -/
structure Tracked (c m : Uuid) (a : Audited) : Prop where
  vetted : Vetted a.st
  file : ∀ r file, ¬ Deleting a.st c m r (.storing file)
  row : ∀ r p, Deleting a.st c m r p → p = .checking ∨ p = .marking → HasRow a.st.table c m
  erased : ∀ r, Deleted a.st c m r → Erased a.st c m
  audited : ∀ e ∈ a.trail, e.of c m → Erased a.st c m
  /-- only a delete that is answered 204 has marked the row -/
  marked : ¬ Unmarked a.st.table c m → ∃ r, Deleted a.st c m r

theorem tracked_init (c m : Uuid) : Tracked c m ⟨init, []⟩ := by
  have hnone : ∀ r p, ¬ Deleting init c m r p := by
    rintro r p ⟨task, htask, -⟩
    cases htask
  refine ⟨vetted_init, fun r file => hnone r _, fun r p h => absurd h (hnone r p), ?_, by simp, ?_⟩
  · rintro r ⟨p, hp, -⟩
    exact absurd hp (hnone r p)
  · intro h
    exact absurd (by simp [Unmarked, init]) h

theorem emitted_some {s : St} {o : Op} {e : DeleteEvent} (h : emitted s o = some e) :
    ∃ r, o = .mark r .done ∧ Deleting s e.channelId e.messageId r .marking := by
  unfold emitted at h
  split at h
  · next r =>
    split at h
    · next htask =>
      obtain rfl := Option.some.inj h
      exact ⟨r, rfl, _, htask, rfl, rfl⟩
    · cases h
  · cases h

theorem emitted_none {s : St} {o : Op} {c m : Uuid} (h : ∀ r, o = .mark r .done → ¬ Deleting s c m r .marking) :
    (emitted s o).toList.countP (·.of c m) = 0 := by
  cases he : emitted s o with
  | none => rfl
  | some e =>
    obtain ⟨r, rfl, hmarking⟩ := emitted_some he
    have hof : e.of c m = false := by
      by_contra htrue
      simp only [DeleteEvent.of, decide_eq_true_eq, Bool.not_eq_false] at htrue
      obtain ⟨rfl, rfl⟩ := htrue
      exact h r rfl hmarking
    simp [hof]

theorem HasRow.not_erased {s : St} {c m : Uuid} (h : HasRow s.table c m) (hunmarked : Unmarked s.table c m) :
    ¬ Erased s c m := by
  intro herased
  obtain ⟨row, hrow, hid⟩ := h
  have hdeleted := herased.deleted row hrow hid
  rw [hunmarked row hrow hid] at hdeleted
  cases hdeleted

/-- the UPDATE of a delete erases the message -/
theorem mark_erased (cfg : Config) {s : St} {c m : Uuid} {r : ℕ} (hinv : Vetted s) (hrow : HasRow s.table c m)
    (h : Deleting s c m r .marking) : Erased (step cfg s (.mark r .done)) c m := by
  obtain ⟨⟨userId, q, phase⟩, htask, hq, hphase⟩ := h
  dsimp only at hq hphase
  subst hq hphase
  rw [step_answer cfg htask rfl]
  obtain ⟨row, hmem, hid⟩ := hrow
  exact erased_mark (hid ▸ hinv.used hmem)

/-- where a delete has come to, in a step that nothing fails -/
theorem comes_step {cfg : Config} {s : St} {o : Op} {c m : Uuid} {r : ℕ} {phase : Phase}
    (hfile : ∀ r file, ¬ Deleting s c m r (.storing file)) (hun : Unraced c m s o)
    (h : Deleting (step cfg s o) c m r phase) :
    phase = .looking ∨ ∃ p, Deleting s c m r p ∧ (p = phase ∨ o.request = some r ∧ Comes s.table c m o p phase) := by
  rcases requests_step hfile h with hold | hfirst | ⟨userId, p, ho, hp, rfl⟩
  · exact .inr ⟨phase, hold, .inl rfl⟩
  · exact .inl hfirst
  · exact .inr ⟨p, hp, .inr ⟨ho, deleteMessage_comes userId ho hp hun⟩⟩

/-- a new answer is 404, or 204 for the UPDATE -/
theorem answer_step {cfg : Config} {s : St} {o : Op} {c m : Uuid} {r : ℕ} {phase : Phase} {answer : Answer}
    (hfile : ∀ r file, ¬ Deleting s c m r (.storing file)) (hun : Unraced c m s o)
    (h : Deleting (step cfg s o) c m r phase) (hanswer : phase.answer? = some answer) :
    (∃ p, Deleting s c m r p ∧ p.answer? = some answer) ∨ answer = .error ⟨404, "not found"⟩ ∨
      answer = .noContent ∧ o = .mark r .done ∧ Deleting s c m r .marking := by
  rcases comes_step hfile hun h with rfl | ⟨p, hp, rfl | ⟨ho, hcomes⟩⟩
  · cases hanswer
  · exact .inl ⟨_, hp, hanswer⟩
  · cases hcomes with
    | same => exact .inl ⟨_, hp, hanswer⟩
    | selected _ hphase => rcases hphase with rfl | rfl <;> cases hanswer
    | allowed => cases hanswer
    | notFound => exact .inr (.inl (Option.some.inj hanswer).symm)
    | deleted ho' hmarking =>
      subst ho' hmarking
      obtain rfl := Option.some.inj ho
      exact .inr (.inr ⟨(Option.some.inj hanswer).symm, rfl, hp⟩)
    | returned hresponding =>
      subst hresponding
      exact .inl ⟨_, hp, hanswer⟩

theorem deleted_cases {cfg : Config} {s : St} {o : Op} {c m : Uuid} {r : ℕ}
    (hfile : ∀ r file, ¬ Deleting s c m r (.storing file)) (hun : Unraced c m s o) (h : Deleted (step cfg s o) c m r) :
    Deleted s c m r ∨ o = .mark r .done ∧ Deleting s c m r .marking := by
  obtain ⟨phase, hphase, hanswer⟩ := h
  rcases answer_step hfile hun hphase hanswer with ⟨p, hp, hold⟩ | h404 | ⟨-, hmark⟩
  · exact .inl ⟨p, hp, hold⟩
  · cases h404
  · exact .inr hmark

theorem tracked_step (cfg : Config) {c m : Uuid} {a : Audited} {o : Op} (h : Tracked c m a) (hun : Unraced c m a.st o) :
    Tracked c m (auditedStep cfg a o) := by
  refine ⟨vetted_step cfg a.st o h.vetted, ?_, ?_, ?_, ?_, ?_⟩
  · intro r file hstoring
    rcases comes_step h.file hun hstoring with hphase | ⟨p, hp, rfl | ⟨-, hcomes⟩⟩
    · cases hphase
    · exact h.file r _ hp
    · cases hcomes with
      | same => exact h.file r _ hp
      | selected _ hphase => rcases hphase with hphase | hphase <;> cases hphase
  · intro r phase hphase hwaits
    apply hasRow_step cfg h.vetted
    rcases comes_step h.file hun hphase with rfl | ⟨p, hp, rfl | ⟨-, hcomes⟩⟩
    · rcases hwaits with hwaits | hwaits <;> cases hwaits
    · exact h.row r _ hp hwaits
    · cases hcomes with
      | same => exact h.row r _ hp hwaits
      | selected hrow => exact hrow
      | allowed hchecking => exact h.row r p hp (.inl hchecking)
      | notFound => rcases hwaits with hwaits | hwaits <;> cases hwaits
      | deleted => rcases hwaits with hwaits | hwaits <;> cases hwaits
      | returned => rcases hwaits with hwaits | hwaits <;> cases hwaits
  · intro r hdeleted
    rcases deleted_cases h.file hun hdeleted with hold | ⟨rfl, hmarking⟩
    · exact erased_step cfg h.vetted o (h.erased r hold)
    · exact mark_erased cfg h.vetted (h.row r _ hmarking (.inr rfl)) hmarking
  · intro e he hof
    rcases List.mem_append.1 he with hold | hnew
    · exact erased_step cfg h.vetted o (h.audited e hold hof)
    · obtain ⟨r, rfl, hmarking⟩ := emitted_some (Option.mem_toList.1 hnew)
      obtain ⟨rfl, rfl⟩ := of_decide_eq_true hof
      exact mark_erased cfg h.vetted (h.row r _ hmarking (.inr rfl)) hmarking
  · intro hmarked
    by_cases hbefore : Unmarked a.st.table c m
    · -- it was marked by this step
      obtain ⟨r, outcome, rfl, hmarking⟩ : ∃ r outcome, o = .mark r outcome ∧ Deleting a.st c m r .marking := by
        by_contra hnone
        push Not at hnone
        exact hmarked (unmarked_step cfg h.vetted hbefore hnone)
      obtain ⟨rfl, -⟩ := hun hmarking
      obtain ⟨userId, hmoved⟩ := deleting_step (o := .mark r .done) cfg h.file hmarking rfl
      exact ⟨r, _, hmoved, rfl⟩
    · obtain ⟨r, hdeleted⟩ := h.marked hbefore
      exact ⟨r, deleted_step cfg h.file hdeleted⟩

/-! ## Exactly when -/

/-- a step that races with nothing keeps the message deleted once -/
theorem once_step (cfg : Config) {c m : Uuid} {a : Audited} {o : Op} (h : Tracked c m a) (honce : DeletedOnce c m a)
    (hun : Unraced c m a.st o) : DeletedOnce c m (auditedStep cfg a o) := by
  -- nobody has been answered 204, and nothing was emitted, when an UPDATE comes
  have hfirst : ∀ r, o = .mark r .done → Deleting a.st c m r .marking → ¬ Erased a.st c m := by
    rintro r rfl hmarking
    exact (h.row r _ hmarking (.inr rfl)).not_erased (hun hmarking).2
  refine ⟨?_, ?_, ?_⟩
  · intro r r' hr hr'
    rcases deleted_cases h.file hun hr with hold | ⟨ho, hmarking⟩
    · rcases deleted_cases h.file hun hr' with hold' | ⟨ho', hmarking'⟩
      · exact honce.deleted r r' hold hold'
      · exact absurd (h.erased r hold) (hfirst r' ho' hmarking')
    · rcases deleted_cases h.file hun hr' with hold' | ⟨ho', -⟩
      · exact absurd (h.erased r' hold') (hfirst r ho hmarking)
      · rw [ho] at ho'
        exact (Op.mark.inj ho').1
  · simp only [auditedStep, List.countP_append]
    by_cases hmark : ∃ r, o = .mark r .done ∧ Deleting a.st c m r .marking
    · obtain ⟨r, ho, hmarking⟩ := hmark
      have hnone : a.trail.countP (·.of c m) = 0 := by
        rw [List.countP_eq_zero]
        intro e he hof
        exact hfirst r ho hmarking (h.audited e he hof)
      have hone : (emitted a.st o).toList.length ≤ 1 := Option.length_toList_le
      have hcount : (emitted a.st o).toList.countP (·.of c m) ≤ (emitted a.st o).toList.length := List.countP_le_length
      omega
    · push Not at hmark
      rw [emitted_none hmark, Nat.add_zero]
      exact honce.audited
  · intro r phase answer hphase hanswer
    rcases answer_step h.file hun hphase hanswer with ⟨p, hp, hold⟩ | h404 | ⟨h204, -⟩
    · exact honce.refused r p answer hp hold
    · exact .inr h404
    · exact .inl h204

/-- any other step loses it -/
theorem unraced_of_once (cfg : Config) {c m : Uuid} {a : Audited} {o : Op} (h : Tracked c m a)
    (honce : DeletedOnce c m (auditedStep cfg a o)) : Unraced c m a.st o := by
  -- no delete has come to 500 or 403
  have hother : ∀ r p status text, Deleting a.st c m r p → o.request = some r →
      (∀ userId, deleteMessage a.st.table userId c m o p = error status text) → status = 404 := by
    intro r p status text hp ho heq
    obtain ⟨userId, hmoved⟩ := deleting_step cfg h.file hp ho
    rw [heq] at hmoved
    rcases honce.refused r _ _ hmoved rfl with h204 | h404
    · cases h204
    · exact congrArg ErrorResponse.status (Answer.error.inj h404)
  cases o with
  | look r reply =>
    intro hp
    cases reply with
    | rows => rfl
    | failed => exact absurd (hother r _ 500 _ hp rfl fun _ => rfl) (by decide)
    | undecodable => exact absurd (hother r _ 500 _ hp rfl fun _ => rfl) (by decide)
  | check r reply =>
    intro hp
    match reply with
    | some true => rfl
    | some false => exact absurd (hother r _ 403 _ hp rfl fun _ => rfl) (by decide)
    | none => exact absurd (hother r _ 500 _ hp rfl fun _ => rfl) (by decide)
  | mark r outcome =>
    intro hp
    cases outcome with
    | done =>
      refine ⟨rfl, ?_⟩
      by_contra hmarked
      -- the request that has marked the row and this one are both answered 204
      obtain ⟨r', hdeleted⟩ := h.marked hmarked
      obtain ⟨userId, hmoved⟩ := deleting_step (o := .mark r .done) cfg h.file hp rfl
      obtain rfl := honce.deleted r r' ⟨_, hmoved, rfl⟩ (deleted_step cfg h.file hdeleted)
      obtain ⟨phase, ⟨task, htask, -, rfl⟩, hanswer⟩ := hdeleted
      obtain ⟨task', htask', -, hmarking⟩ := hp
      obtain rfl := Option.some.inj (htask.symm.trans htask')
      rw [hmarking] at hanswer
      cases hanswer
    | lost => exact absurd (hother r _ 500 _ hp rfl fun _ => rfl) (by decide)
    | failed => exact absurd (hother r _ 500 _ hp rfl fun _ => rfl) (by decide)
  | _ => trivial

/-- **Deleted once.** A message is deleted at most once exactly along steps that nothing fails and in which every UPDATE
finds the row unmarked. -/
theorem deleted_once_iff (cfg : Config) (c m : Uuid) (ops : List Op) :
    (∀ a, a <+: ops → DeletedOnce c m (run (auditedStep cfg) ⟨init, []⟩ a)) ↔
      Along (auditedStep cfg) (fun a => Unraced c m a.st) ⟨init, []⟩ ops := by
  refine always_iff_along (I := Tracked c m) ?_ ?_ (tracked_init c m) ?_ ops
  · exact fun a o htracked honce => ⟨unraced_of_once cfg htracked, once_step cfg htracked honce⟩
  · exact fun a o htracked _ hun => tracked_step cfg htracked hun
  · refine ⟨?_, by simp, ?_⟩
    · rintro r r' ⟨p, ⟨task, htask, -⟩, -⟩
      cases htask
    · rintro r p answer ⟨task, htask, -⟩
      cases htask

/-! ## Deleted twice -/

/-- the author deletes the message twice; both requests select the row before either marks it -/
def twoDeletes : List Op :=
  [.arrive 0 7 (.create 1 ⟨"a", []⟩), .check 0 (some true), .insert 0 10 .done, .respond 0,
    .arrive 1 7 (.delete 1 10), .arrive 2 7 (.delete 1 10), .look 1 .rows, .look 2 .rows, .mark 1 .done, .mark 2 .done,
    .respond 1, .respond 2]

theorem deleted_twice :
    (run (auditedStep fiveSeconds) ⟨init, []⟩ twoDeletes).trail = [⟨7, 10, 1⟩, ⟨7, 10, 1⟩] ∧
      ¬ DeletedOnce 1 10 (run (auditedStep fiveSeconds) ⟨init, []⟩ twoDeletes) := by
  refine ⟨rfl, ?_⟩
  intro h
  have hfirst : Deleted (run (auditedStep fiveSeconds) ⟨init, []⟩ twoDeletes).st 1 10 1 :=
    ⟨.answered .noContent, ⟨_, rfl, rfl, rfl⟩, rfl⟩
  have hsecond : Deleted (run (auditedStep fiveSeconds) ⟨init, []⟩ twoDeletes).st 1 10 2 :=
    ⟨.answered .noContent, ⟨_, rfl, rfl, rfl⟩, rfl⟩
  exact absurd (h.deleted 1 2 hfirst hsecond) (by decide)

end Concordia.Chat.Requests
