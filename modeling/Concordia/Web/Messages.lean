/-
Messages in the web client and the updates of its lists (`apps/web-app/app/components/ChannelView.tsx` and
`MessageList.tsx`).

- `MessageId`: the id of a stored message is the text of a UUID, the id of a placeholder is "opt-" and a time; `text_inj`
  says that ids are the same exactly if their texts are.
- `appendNew`, `dropId`, `confirm`: what `setExtraMessages` does on an event, on a failed send, and on a created message.
- `allMessages`: the fetched messages and those of the others that are not among them.
-/
import Concordia.Lib.Decimal
import Concordia.Lib.Rows
import Concordia.Servers.UuidText

namespace Concordia.Web

open Concordia.Lib Concordia.Lib.Decimal
open Concordia.Servers (Uuid hexDigits)

/-! ## Ids -/

inductive MessageId where
  /-- given by the chat service -/
  | stored (id : Uuid)
  /-- `opt-${Date.now()}` -/
  | opt (now : ℕ)
deriving DecidableEq, Repr

namespace MessageId

def text : MessageId → String
  | .stored id => Uuid.toString id
  | .opt now => "opt-" ++ String.ofList (intText now)

theorem opt_ne_stored (now : ℕ) (id : Uuid) : (opt now).text ≠ (stored id).text := by
  intro h
  have hsplit := congrArg (fun s => s.toList.splitOn '-') h
  have hopt : (opt now).text.toList = ['o', 'p', 't'] ++ '-' :: intText now := by
    rw [text, String.toList_append]
    exact congrArg (['o', 'p', 't', '-'] ++ ·) String.toList_ofList
  simp only [hopt] at hsplit
  rw [List.splitOn_append_cons_self_of_not_mem (by decide), text, Servers.splitOn_toString] at hsplit
  have hlength := congrArg List.length (List.cons.inj hsplit).1
  rw [Servers.length_hexDigits] at hlength
  cases hlength

theorem text_inj {a b : MessageId} (ha : ∀ id, a = stored id → id < 2 ^ 128) (hb : ∀ id, b = stored id → id < 2 ^ 128) :
    a.text = b.text ↔ a = b := by
  refine ⟨fun h => ?_, congrArg text⟩
  cases a with
  | stored id =>
    cases b with
    | stored id' => rw [Servers.toString_inj (ha id rfl) (hb id' rfl) h]
    | opt now => exact absurd h.symm (opt_ne_stored now id)
  | opt now =>
    cases b with
    | stored id => exact absurd h (opt_ne_stored now id)
    | opt now' =>
      have hdigits : intText now = intText now' := String.ofList_injective ((String.append_right_inj "opt-").1 h)
      rw [← natOf_intText now, hdigits, natOf_intText]

end MessageId

/-! ## Lists of messages -/

structure Message where
  messageId : MessageId
  channelId : String
  authorId : String
  content : String
  createdAt : String
  username : Option String
deriving DecidableEq, Repr

/-- a message as the chat service renders it -/
structure Stored where
  messageId : Uuid
  channelId : String
  authorId : String
  content : String
  createdAt : String
  username : Option String
deriving DecidableEq, Repr

def Stored.toMessage (x : Stored) : Message :=
  ⟨.stored x.messageId, x.channelId, x.authorId, x.content, x.createdAt, x.username⟩

def ids (l : List Message) : List MessageId := l.map Message.messageId

/-- append a message whose id is not in the list yet -/
def appendNew (x : Message) (prev : List Message) : List Message :=
  if prev.any fun m => m.messageId = x.messageId then prev else prev ++ [x]

def dropId (id : MessageId) (prev : List Message) : List Message := prev.filter fun m => m.messageId ≠ id

/-- the created message in the place of its placeholder, unless it is there already -/
def confirm (tempId : MessageId) (real : Message) (username : String) (prev : List Message) : List Message :=
  if prev.any fun m => m.messageId = real.messageId then dropId tempId prev
  else prev.map fun m => if m.messageId = tempId then { real with username := some username } else m

def allMessages (messages extraMessages : List Message) : List Message :=
  messages ++ extraMessages.filter fun m => m.messageId ∉ ids messages

theorem nodup_ids_stored {l : List Stored} : (ids (l.map Stored.toMessage)).Nodup ↔ (l.map Stored.messageId).Nodup := by
  have hids : ids (l.map Stored.toMessage) = (l.map Stored.messageId).map MessageId.stored := by simp [ids, Stored.toMessage]
  rw [hids]
  exact List.nodup_map_iff fun a b h => MessageId.stored.inj h

theorem any_iff_mem {l : List Message} {id : MessageId} : (l.any fun m => m.messageId = id) = true ↔ id ∈ ids l := by
  simp [ids]

@[simp] theorem ids_append (a b : List Message) : ids (a ++ b) = ids a ++ ids b := List.map_append

theorem ids_dropId (id : MessageId) (l : List Message) : ids (dropId id l) = (ids l).filter (· ≠ id) := by
  rw [ids, ids, dropId, List.filter_map]
  rfl

@[simp] theorem mem_ids_dropId {id x : MessageId} {l : List Message} : x ∈ ids (dropId id l) ↔ x ∈ ids l ∧ x ≠ id := by
  simp [ids_dropId]

theorem mem_ids_appendNew {x : Message} {id : MessageId} {l : List Message} :
    id ∈ ids (appendNew x l) ↔ id ∈ ids l ∨ id = x.messageId := by
  unfold appendNew
  split_ifs with h
  · exact ⟨.inl, fun hid => hid.elim (·) fun he => he ▸ any_iff_mem.1 h⟩
  · simp [ids]

theorem mem_of_mem_appendNew {x m : Message} {l : List Message} (h : m ∈ appendNew x l) : m ∈ l ∨ m = x := by
  unfold appendNew at h
  split_ifs at h
  · exact .inl h
  · exact (mem_snoc.1 h)

theorem nodup_appendNew {l : List Message} (h : (ids l).Nodup) (x : Message) : (ids (appendNew x l)).Nodup := by
  unfold appendNew
  split_ifs with hx
  · exact h
  · exact nodup_keys_snoc h (mt any_iff_mem.2 hx)

/-- the ids once a created message has taken the place of its placeholder -/
theorem ids_confirm {tempId : MessageId} {real : Message} {l : List Message} (username : String)
    (h : real.messageId ∉ ids l) :
    ids (confirm tempId real username l) = (ids l).map fun id => if id = tempId then real.messageId else id := by
  rw [confirm, if_neg (mt any_iff_mem.1 h), ids, ids, List.map_map, List.map_map]
  apply List.map_congr_left
  intro m _
  simp only [Function.comp_apply]
  split_ifs <;> rfl

theorem confirm_of_mem {tempId : MessageId} {real : Message} {l : List Message} (username : String)
    (h : real.messageId ∈ ids l) : confirm tempId real username l = dropId tempId l := if_pos (any_iff_mem.2 h)

theorem mem_of_mem_confirm {tempId : MessageId} {real m : Message} {username : String} {l : List Message}
    (h : m ∈ confirm tempId real username l) : m ∈ l ∨
      m = { real with username := some username } ∧ real.messageId ∉ ids l ∧ tempId ∈ ids l := by
  by_cases hreal : real.messageId ∈ ids l
  · rw [confirm_of_mem username hreal] at h
    exact .inl (List.mem_of_mem_filter h)
  · rw [confirm, if_neg (mt any_iff_mem.1 hreal)] at h
    obtain ⟨x, hx, rfl⟩ := List.mem_map.1 h
    split_ifs with htemp
    · exact .inr ⟨rfl, hreal, htemp ▸ List.mem_map_of_mem hx⟩
    · exact .inl hx

theorem nodup_confirm {l : List Message} (h : (ids l).Nodup) (tempId : MessageId) (real : Message) (username : String) :
    (ids (confirm tempId real username l)).Nodup := by
  by_cases hreal : real.messageId ∈ ids l
  · rw [confirm_of_mem username hreal, ids_dropId]
    exact h.filter _
  · rw [ids_confirm username hreal]
    apply h.map_on
    intro a ha b hb hab
    -- nothing but the placeholder gets the new id
    have hne : ∀ x ∈ ids l, real.messageId ≠ x := fun x hx he => hreal (he ▸ hx)
    split_ifs at hab with hta htb htb
    · rw [hta, htb]
    · exact absurd hab (hne b hb)
    · exact absurd hab.symm (hne a ha)
    · exact hab

/-- what a confirmed send leaves in the list -/
theorem mem_ids_confirm {tempId : MessageId} {real : Message} {l : List Message} (username : String) {id : MessageId}
    (hne : real.messageId ≠ tempId) : id ∈ ids (confirm tempId real username l) ↔
      id ∈ ids l ∧ id ≠ tempId ∨ id = real.messageId ∧ (real.messageId ∈ ids l ∨ tempId ∈ ids l) := by
  by_cases hreal : real.messageId ∈ ids l
  · rw [confirm_of_mem username hreal, mem_ids_dropId]
    refine ⟨.inl, fun h => h.elim (·) ?_⟩
    rintro ⟨rfl, -⟩
    exact ⟨hreal, hne⟩
  · rw [ids_confirm username hreal, List.mem_map]
    refine ⟨?_, ?_⟩
    · rintro ⟨a, ha, rfl⟩
      split_ifs with hta
      · exact .inr ⟨rfl, .inr (hta ▸ ha)⟩
      · exact .inl ⟨ha, hta⟩
    · rintro (⟨hid, hidne⟩ | ⟨rfl, hor⟩)
      · exact ⟨id, hid, if_neg hidne⟩
      · exact ⟨tempId, hor.resolve_left hreal, if_pos rfl⟩

/-! ## The merged list -/

theorem mem_ids_allMessages {messages extraMessages : List Message} {id : MessageId} :
    id ∈ ids (allMessages messages extraMessages) ↔ id ∈ ids messages ∨ id ∈ ids extraMessages := by
  simp only [allMessages, ids_append, List.mem_append]
  refine ⟨Or.imp_right ?_, ?_⟩
  · intro h
    obtain ⟨m, hm, rfl⟩ := List.mem_map.1 h
    exact List.mem_map_of_mem (List.mem_of_mem_filter hm)
  · rintro (h | h)
    · exact .inl h
    · by_cases hf : id ∈ ids messages
      · exact .inl hf
      · obtain ⟨m, hm, rfl⟩ := List.mem_map.1 h
        exact .inr (List.mem_map_of_mem (List.mem_filter.2 ⟨hm, by simpa using hf⟩))

theorem nodup_allMessages {messages extraMessages : List Message} (h : (ids messages).Nodup)
    (hextra : (ids extraMessages).Nodup) : (ids (allMessages messages extraMessages)).Nodup := by
  rw [allMessages, ids_append, List.nodup_append]
  refine ⟨h, hextra.sublist (List.filter_sublist.map _), ?_⟩
  intro a ha b hb
  obtain ⟨m, hm, rfl⟩ := List.mem_map.1 hb
  rintro rfl
  exact of_decide_eq_true (List.mem_filter.1 hm).2 ha

end Concordia.Web
