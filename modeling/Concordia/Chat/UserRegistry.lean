/-
Chat's registry of users (`services/chat/src/user_registry.rs`) and the mentions that are looked up in it
(`publish_mentions` in `handlers/messages.rs`).

A chat process is a member of the group `chat-svc-user-registry`; its `user_cache` is its state, gone when it stops. Kafka
is the group's log: offsets that are committed are resumed, a partition is read by one process. `enable.auto.commit`
commits what a process has been given, at any moment; a partition without a committed offset is read from its beginning.

- `Durable`: a process that will not be given anything more knows every user that was registered, and ignores no mention.
- `Kept`: a process starts only while no well-formed event is committed, a commit covers only those that every process has
  been given, and no username is registered with two ids.
- `registry_kept`: along such steps the registry is durable.
- `restarted_empty`: a process that is started again after a commit knows nobody.
-/
import Concordia.Lib.ConsumerGroup
import Concordia.Servers.Db

namespace Concordia.Chat.UserRegistry

open Concordia.Lib Concordia.Lib.ConsumerGroup
open Concordia.Servers (Uuid)
open Function (update update_self update_of_ne)

structure UserRegisteredEvent where
  userId : Uuid
  username : String
deriving DecidableEq, Repr

abbrev UserCache := String → Option Uuid

section

variable {β : Type*} (fromSlice : β → Option UserRegisteredEvent)

/-- the event of a message, if it has a payload that serde_json reads -/
def wellFormed (msg : Option β) : Option UserRegisteredEvent := msg.bind fromSlice

/-- the body of the loop of `spawn_consumer` -/
def receive (cache : UserCache) (msg : Option β) : UserCache :=
  match msg with
  | none => cache
  | some payload =>
    match fromSlice payload with
    | some ev => update cache ev.username (some ev.userId)
    | none => cache

abbrev reached (ops : List (Op ℕ (Option β))) : St ℕ (Option β) UserCache :=
  run (step (fun _ => none) (receive fromSlice)) init ops

end

/-! ## Mentions -/

/-- `[A-Za-z0-9_]` -/
def isWord (c : Char) : Bool := c.isAlphanum || c = '_'

/-- the groups that `@([A-Za-z0-9_]{1,32})` captures; a name has no at sign, so the search may go on right after one -/
def captures : List Char → List String
  | [] => []
  | c :: cs =>
    let name := (cs.takeWhile isWord).take 32
    if c = '@' ∧ name ≠ [] then String.ofList name :: captures cs else captures cs

def usernames (content : String) : List String := (captures content.toList).dedup

structure Mention where
  mentionId : Uuid
  messageId : Uuid
  mentionedUserId : Uuid
  channelId : Uuid
  serverId : Option Uuid
  /-- milliseconds since the epoch -/
  createdAt : ℤ
deriving DecidableEq, Repr

/-- the events that `publish_mentions` sends; `mentionId` is the new id for each username -/
def publishMentions (cache : UserCache) (mentionId : String → Uuid) (messageId channelId : Uuid)
    (serverId : Option Uuid) (content : String) (createdAt : ℤ) : List Mention :=
  (usernames content).filterMap fun username =>
    (cache username).map fun userId => ⟨mentionId username, messageId, userId, channelId, serverId, createdAt⟩

example : usernames "@alice: ask @bob_2, not bob@ or @alice" = ["bob_2", "alice"] := by decide

/-! ## Durability -/

section

variable {β : Type*} (fromSlice : β → Option UserRegisteredEvent)

/-- a well-formed event has been published -/
def Registered (s : St ℕ (Option β) UserCache) (ev : UserRegisteredEvent) : Prop :=
  ∃ p, ∃ msg ∈ s.log p, wellFormed fromSlice msg = some ev

/-- the user is known, and no mention of the user is ignored -/
def Known (cache : UserCache) (ev : UserRegisteredEvent) : Prop :=
  cache ev.username = some ev.userId ∧
    ∀ mentionId messageId channelId serverId content createdAt, ev.username ∈ usernames content →
      ∃ mention ∈ publishMentions cache mentionId messageId channelId serverId content createdAt,
        mention.mentionedUserId = ev.userId

/-- in every state of the run, a process that will be given nothing more knows every user -/
def Durable (ops : List (Op ℕ (Option β))) : Prop :=
  ∀ a b, ops = a ++ b → ∀ n m, (reached fromSlice a).members n = some m → Drained (reached fromSlice a) n →
    ∀ ev, Registered fromSlice (reached fromSlice a) ev → Known m.state ev

/-- no username is registered with two ids -/
def OneId (s : St ℕ (Option β) UserCache) : Op ℕ (Option β) → Prop
  | .publish _ msg => ∀ ev, wellFormed fromSlice msg = some ev → ∀ ev', Registered fromSlice s ev' →
      ev'.username = ev.username → ev'.userId = ev.userId
  | _ => True

def Kept (s : St ℕ (Option β) UserCache) (o : Op ℕ (Option β)) : Prop :=
  Shared (fun msg => (wellFormed fromSlice msg).isSome = true) s o ∧ OneId fromSlice s o

variable {fromSlice : β → Option UserRegisteredEvent}

/-! ## What a process keeps -/

theorem receive_eq (cache : UserCache) (msg : Option β) : receive fromSlice cache msg =
    ((wellFormed fromSlice msg).map fun ev => update cache ev.username (some ev.userId)).getD cache := by
  cases msg with
  | none => rfl
  | some payload =>
    simp only [receive, wellFormed, Option.bind_some]
    cases fromSlice payload <;> rfl

/-- of messages that agree about a username, one about it is enough -/
theorem foldl_receive {msgs : List (Option β)} {ev : UserRegisteredEvent}
    (hagree : ∀ msg ∈ msgs, ∀ ev', wellFormed fromSlice msg = some ev' → ev'.username = ev.username →
      ev'.userId = ev.userId)
    (hmem : ∃ msg ∈ msgs, wellFormed fromSlice msg = some ev) (cache : UserCache) :
    msgs.foldl (receive fromSlice) cache ev.username = some ev.userId := by
  induction msgs using List.reverseRecOn with
  | nil =>
    obtain ⟨msg, hmsg, -⟩ := hmem
    cases hmsg
  | append_singleton msgs last ih =>
    have hagree' := fun msg hmsg => hagree msg (List.mem_append_left _ hmsg)
    rw [List.foldl_append, List.foldl_cons, List.foldl_nil, receive_eq]
    cases hlast : wellFormed fromSlice last with
    | none =>
      -- the last message is skipped, so the event is before it
      obtain ⟨msg, hmsg, hev⟩ := hmem
      rcases List.mem_append.1 hmsg with hmsg | hmsg
      · exact ih hagree' ⟨msg, hmsg, hev⟩
      · rw [List.mem_singleton.1 hmsg, hlast] at hev
        cases hev
    | some ev' =>
      simp only [Option.map_some, Option.getD_some]
      by_cases hname : ev'.username = ev.username
      · rw [hname, update_self, hagree last (by simp) ev' hlast hname]
      · rw [update_of_ne (Ne.symm hname)]
        obtain ⟨msg, hmsg, hev⟩ := hmem
        rcases List.mem_append.1 hmsg with hmsg | hmsg
        · exact ih hagree' ⟨msg, hmsg, hev⟩
        · rw [List.mem_singleton.1 hmsg, hlast] at hev
          exact absurd (congrArg UserRegisteredEvent.username (Option.some.inj hev)) hname

/-- who is in the cache is mentioned -/
theorem known_of_cache {cache : UserCache} {ev : UserRegisteredEvent} (h : cache ev.username = some ev.userId) :
    Known cache ev := by
  refine ⟨h, ?_⟩
  intro mentionId messageId channelId serverId content createdAt hname
  refine ⟨⟨mentionId ev.username, messageId, ev.userId, channelId, serverId, createdAt⟩, ?_, rfl⟩
  exact List.mem_filterMap.2 ⟨ev.username, hname, by rw [h]; rfl⟩

/-! ## Runs -/

/-- the events that were published give each username one id -/
def Agree (fromSlice : β → Option UserRegisteredEvent) (s : St ℕ (Option β) UserCache) : Prop :=
  ∀ ev ev', Registered fromSlice s ev → Registered fromSlice s ev' → ev'.username = ev.username →
    ev'.userId = ev.userId

/-- an event is registered when it is published -/
theorem registered_step {start : UserCache} {consume : UserCache → Option β → UserCache} {s : St ℕ (Option β) UserCache}
    {o : Op ℕ (Option β)} {ev : UserRegisteredEvent} (h : Registered fromSlice (step start consume s o) ev) :
    Registered fromSlice s ev ∨ ∃ p msg, o = .publish p msg ∧ wellFormed fromSlice msg = some ev := by
  rcases step_effect start consume s o with heq | he
  · rw [heq] at h
    exact .inl h
  generalize step start consume s o = t at he h
  cases he with
  | publish p msg =>
    obtain ⟨p', msg', hmsg', hev⟩ := h
    simp only at hmsg'
    rcases eq_or_ne p' p with rfl | hne
    · rw [update_self] at hmsg'
      rcases List.mem_append.1 hmsg' with hmsg' | hmsg'
      · exact .inl ⟨p', msg', hmsg', hev⟩
      · obtain rfl := List.mem_singleton.1 hmsg'
        exact .inr ⟨p', msg', rfl, hev⟩
    · rw [update_of_ne hne] at hmsg'
      exact .inl ⟨p', msg', hmsg', hev⟩
  | _ => exact .inl h

theorem agree_step (s : St ℕ (Option β) UserCache) (o : Op ℕ (Option β)) (h : Agree fromSlice s)
    (hone : OneId fromSlice s o) : Agree fromSlice (step (fun _ => none) (receive fromSlice) s o) := by
  intro ev ev' hev hev' hname
  rcases registered_step hev with hold | ⟨p, msg, rfl, hmsg⟩
  · rcases registered_step hev' with hold' | ⟨p, msg, rfl, hmsg⟩
    · exact h ev ev' hold hold' hname
    · exact (hone ev' hmsg ev hold hname.symm).symm
  · rcases registered_step hev' with hold' | ⟨p', msg', hpub, hmsg'⟩
    · exact hone ev hmsg ev' hold' hname
    · obtain ⟨rfl, rfl⟩ := Op.publish.inj hpub
      rw [Option.some.inj (hmsg'.symm.trans hmsg)]

/-- **Durability.** Along steps that commit no well-formed event past a process, and that register no username with two
ids, a process that will be given nothing more knows every registered user. -/
theorem registry_kept {ops : List (Op ℕ (Option β))}
    (h : Along (step (fun _ => none) (receive fromSlice)) (Kept fromSlice) init ops) : Durable fromSlice ops := by
  rintro a b rfl n m hm hdrained ev ⟨p, msg, hmsg, hev⟩
  have ha := (along_append.1 h).1
  have hshared := ha.mono (D := Shared fun msg => (wellFormed fromSlice msg).isSome = true) fun _ _ hkept => hkept.1
  have hagree : Agree fromSlice (reached fromSlice a) := by
    apply run_inv agree_step ?_ (ha.mono fun _ _ hkept => hkept.2)
    rintro ev ev' ⟨p, msg, hmsg, -⟩
    cases hmsg
  have hinv := inv_reached (fun _ => none) (receive fromSlice) a
  obtain ⟨i, hi⟩ := List.getElem?_of_mem hmsg
  -- the process was given the event
  obtain ⟨d, hd, rfl, rfl⟩ := given_run hshared hm hdrained hi (by rw [hev]; rfl)
  have hgiven : d.event = msg := Option.some.inj ((hinv.delivered n m hm d hd).symm.trans hi)
  apply known_of_cache
  rw [hinv.folded n m hm]
  apply foldl_receive
  · -- what it was given has been published
    intro msg' hmsg' ev' hev' hname
    obtain ⟨d', hd', rfl⟩ := List.mem_map.1 hmsg'
    have hpublished := List.mem_of_getElem? (hinv.delivered n m hm d' hd')
    exact hagree ev ev' ⟨_, msg, hmsg, hev⟩ ⟨_, _, hpublished, hev'⟩ hname
  · exact ⟨d.event, List.mem_map_of_mem hd, by rw [hgiven, hev]⟩

end

def aliceText : String := "\x7b\"user_id\":\"00000000-0000-0000-0000-000000000007\",\"username\":\"alice\"\x7d"

/-- what serde_json reads in the text of alice -/
def fromAlice (payload : String) : Option UserRegisteredEvent := if payload = aliceText then some ⟨7, "alice"⟩ else none

/-- one process, from before alice registers until her event is committed -/
def oneProcess : List (Op ℕ (Option String)) :=
  [.join 0, .assign 0 0, .publish 0 (some aliceText), .poll 0, .commit 0]

theorem one_process_durable : Durable fromAlice oneProcess := by
  apply registry_kept
  simp only [oneProcess, Along, Kept, OneId, Shared, true_and, and_true]
  refine ⟨?_, ?_, ?_⟩
  · intro _ p i e hi
    exact absurd hi (Nat.not_lt_zero i)
  · rintro ev _ ev' ⟨p, msg, hmsg, -⟩
    cases hmsg
  · intro rd hrd n m hm i e hi _ _
    obtain rfl : ⟨0, 1⟩ = rd := Option.some.inj hrd
    cases n with
    | zero =>
      obtain rfl : _ = m := Option.some.inj hm
      exact ⟨_, List.mem_singleton_self _, rfl, (Nat.lt_one_iff.1 hi).symm⟩
    | succ n => cases hm

/-- and started again -/
def restart : List (Op ℕ (Option String)) :=
  [.join 0, .assign 0 0, .publish 0 (some aliceText), .poll 0, .commit 0, .leave 0, .join 1, .assign 0 1]

theorem restarted_empty : ¬ Durable fromAlice restart := by
  intro h
  have hdrained : Drained (reached fromAlice restart) 1 := by
    intro p
    match p with
    | 0 => exact le_rfl
    | p + 1 => exact Nat.zero_le _
  have hknown := h restart [] (List.append_nil _).symm 1 ⟨[], fun _ => none⟩ rfl hdrained ⟨7, "alice"⟩
    ⟨0, some aliceText, List.mem_singleton_self _, rfl⟩
  cases hknown.1

end Concordia.Chat.UserRegistry
