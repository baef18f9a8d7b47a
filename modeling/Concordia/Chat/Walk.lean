/-
A walk over `list_messages` while others write (`services/chat/src/handlers/messages.rs`), without the page cache.

Between two requests of the walk any messages are created and deleted, in any channels; a request reads the table once.
`walked` lists the pages of the first requests, however far the walk gets: it ends with a page that announces no other
one, or with a request that is refused.

- `listMessages_ok`: what one answered request returns.
- `walk_sound`: the pages of a walk in strictly descending order, none too long, their cursors, and every message as it was
  stored and undeleted when its page was read.
-/
import Concordia.Chat.Writes

namespace Concordia.Chat

open Concordia.Lib
open Concordia.Servers (Uuid)

/-- the pages of at most `fuel` requests from `before` on; `i` counts the requests -/
def walked (get : ℕ → Option Uuid → Except ErrorResponse ListMessagesResponse) :
    ℕ → ℕ → Option Uuid → List ListMessagesResponse
  | 0, _, _ => []
  | fuel + 1, i, before =>
    match get i before with
    | .error _ => []
    | .ok page => page :: if page.hasMore then walked get fuel (i + 1) page.nextCursor else []

/-- the table at request `i`, if `writes j` is written just before request `j` -/
def tableAt (t : MessageTable) (writes : ℕ → List Write) : ℕ → MessageTable
  | 0 => run MessageTable.write t (writes 0)
  | i + 1 => run MessageTable.write (tableAt t writes i) (writes (i + 1))

/-- request `i` of a walk with this limit; `perm` is CheckPerm's answer to it, `clock` its time -/
def request (t : MessageTable) (writes : ℕ → List Write) (perm : ℕ → Option Bool) (clock : ℕ → ℤ) (channelId : Uuid)
    (limit : Option ℤ) (i : ℕ) (before : Option Uuid) : Except ErrorResponse ListMessagesResponse :=
  listMessages (tableAt t writes i) (perm i) channelId ⟨limit, before⟩ (clock i)

/-! ## One page -/

/-- the last of descending messages is the least -/
theorem last_le {messages : List MessageResponse} (h : messages.Pairwise fun a b => b.messageId < a.messageId)
    {last m : MessageResponse} (hlast : last ∈ messages.getLast?) (hm : m ∈ messages) :
    last.messageId ≤ m.messageId := by
  obtain ⟨front, rfl⟩ := List.getLast?_eq_some_iff.1 hlast
  rcases List.mem_append.1 hm with hm | hm
  · exact ((List.pairwise_append.1 h).2.2 m hm last List.mem_cons_self).le
  · rw [List.mem_singleton.1 hm]

/-- what a page promises: at most `ℓ` messages, newest first, older than the cursor it was asked for, and the cursor of
the next page -/
structure PageOk (ℓ : ℕ) (before : Option Uuid) (page : ListMessagesResponse) : Prop where
  descending : page.messages.Pairwise fun a b => b.messageId < a.messageId
  older : ∀ m ∈ page.messages, ∀ k ∈ before, m.messageId < k
  length : page.messages.length ≤ ℓ
  hasMore : page.hasMore = true ↔ page.nextCursor.isSome = true
  cursor : ∀ k ∈ page.nextCursor, ∃ m ∈ page.messages.getLast?, m.messageId = k

/-- a message is an undeleted row of its channel, as the request rendered it -/
def Stored (t : MessageTable) (channelId : Uuid) (now : ℤ) (m : MessageResponse) : Prop :=
  ∃ row ∈ t.partition channelId, row.deletedAt = none ∧ m = toResponse channelId now row

theorem mem_loadMessages {t : MessageTable} {c : Uuid} {before : Option Uuid} {n : ℕ} {now : ℤ} {m : MessageResponse}
    (h : m ∈ loadMessages t c before n now) : Stored t c now m ∧ ∀ k ∈ before, m.messageId < k := by
  unfold loadMessages MessageTable.select at h
  obtain ⟨row, hrow, rfl⟩ := List.mem_map.1 h
  obtain ⟨hmem, hlive⟩ := List.mem_filter.1 hrow
  obtain ⟨hpart, hbefore⟩ := List.mem_filter.1 (List.mem_of_mem_take hmem)
  refine ⟨⟨row, hpart, by simpa using hlive, rfl⟩, ?_⟩
  intro k hk
  rw [Option.mem_def.1 hk] at hbefore
  exact of_decide_eq_true hbefore

theorem loadMessages_descending (t : MessageTable) (c : Uuid) (before : Option Uuid) (n : ℕ) (now : ℤ) :
    (loadMessages t c before n now).Pairwise fun a b => b.messageId < a.messageId := by
  unfold loadMessages MessageTable.select
  rw [List.pairwise_map]
  apply List.Pairwise.sublist _ (t.descending c)
  apply List.filter_sublist.trans
  exact (List.take_sublist _ _).trans List.filter_sublist

theorem buildPage_messages_sublist (ℓ : ℕ) (messages : List MessageResponse) :
    (buildPage ℓ messages).messages.Sublist messages := by
  simp only [buildPage]
  split_ifs
  · exact List.take_sublist _ _
  · exact List.Sublist.refl _

theorem buildPage_ok {ℓ : ℕ} (hℓ : 1 ≤ ℓ) {before : Option Uuid} {messages : List MessageResponse}
    (hdesc : messages.Pairwise fun a b => b.messageId < a.messageId)
    (holder : ∀ m ∈ messages, ∀ k ∈ before, m.messageId < k) : PageOk ℓ before (buildPage ℓ messages) := by
  have hsub := buildPage_messages_sublist ℓ messages
  have hdesc' := List.Pairwise.sublist hsub hdesc
  have holder' : ∀ m ∈ (buildPage ℓ messages).messages, ∀ k ∈ before, m.messageId < k := by
    intro m hm
    exact holder m (hsub.subset hm)
  by_cases hmore : ℓ < messages.length
  · -- the page is full, so it has a last message
    have hpage : buildPage ℓ messages =
        ⟨messages.take ℓ, (messages.take ℓ).getLast?.map MessageResponse.messageId, true⟩ := by
      simp [buildPage, hmore]
    have hlen : (messages.take ℓ).length = ℓ := by
      rw [List.length_take]
      omega
    rw [hpage] at hdesc' holder' ⊢
    refine ⟨hdesc', holder', hlen.le, ?_, ?_⟩
    · have hne : messages.take ℓ ≠ [] := by
        intro hnil
        rw [hnil] at hlen
        exact absurd hlen (by simp; omega)
      simp only [true_iff, Option.isSome_map, List.getLast?_isSome]
      exact hne
    · intro k hk
      exact Option.map_eq_some_iff.1 hk
  · have hpage : buildPage ℓ messages = ⟨messages, none, false⟩ := by simp [buildPage, hmore]
    rw [hpage] at hdesc' holder' ⊢
    refine ⟨hdesc', holder', not_lt.1 hmore, by simp, ?_⟩
    intro k hk
    cases hk

/-- an answered request returns a page of messages that are stored and undeleted -/
theorem listMessages_ok {t : MessageTable} {perm : Option Bool} {c : Uuid} {params : ListMessagesQuery} {now : ℤ}
    {page : ListMessagesResponse} (h : listMessages t perm c params now = .ok page) :
    PageOk (clampLimit params.limit) params.before page ∧ ∀ m ∈ page.messages, Stored t c now m := by
  unfold listMessages at h
  split at h
  · cases h
  · cases h
  · obtain rfl := Except.ok.inj h
    refine ⟨?_, ?_⟩
    · apply buildPage_ok (clampLimit_bounds _).1 (loadMessages_descending t c _ _ now)
      intro m hm
      exact (mem_loadMessages hm).2
    · intro m hm
      exact (mem_loadMessages ((buildPage_messages_sublist _ _).subset hm)).1

/-! ## The walk -/

section

variable {t : MessageTable} {writes : ℕ → List Write} {perm : ℕ → Option Bool} {clock : ℕ → ℤ} {c : Uuid}
  {limit : Option ℤ}

/-- the messages of a walk from a cursor, newest first and older than the cursor -/
theorem walked_descending (fuel i : ℕ) (before : Option Uuid) :
    ((walked (request t writes perm clock c limit) fuel i before).flatMap ListMessagesResponse.messages).Pairwise
        (fun a b => b.messageId < a.messageId) ∧
      ∀ m ∈ (walked (request t writes perm clock c limit) fuel i before).flatMap ListMessagesResponse.messages,
        ∀ k ∈ before, m.messageId < k := by
  induction fuel generalizing i before with
  | zero => simp [walked]
  | succ fuel ih =>
    rw [walked]
    cases hget : request t writes perm clock c limit i before with
    | error e => simp
    | ok page =>
      obtain ⟨hpage, -⟩ := listMessages_ok hget
      simp only [List.flatMap_cons]
      cases hmore : page.hasMore with
      | false =>
        simp only [Bool.false_eq_true, if_false, List.flatMap_nil, List.append_nil]
        exact ⟨hpage.descending, hpage.older⟩
      | true =>
        obtain ⟨hlater, hbelow⟩ := ih (i + 1) page.nextCursor
        -- the cursor is the last message of the page, so all of the page is at or above it
        obtain ⟨k, hk⟩ := Option.isSome_iff_exists.1 (hpage.hasMore.1 hmore)
        obtain ⟨last, hlast, hlastId⟩ := hpage.cursor k hk
        have habove : ∀ m ∈ page.messages, k ≤ m.messageId := by
          intro m hm
          rw [← hlastId]
          exact last_le hpage.descending hlast hm
        simp only [if_true]
        refine ⟨List.pairwise_append.2 ⟨hpage.descending, hlater, ?_⟩, ?_⟩
        · intro m hm m' hm'
          calc m'.messageId < k := hbelow m' hm' k hk
            _ ≤ m.messageId := habove m hm
        · intro m hm k' hk'
          rcases List.mem_append.1 hm with hm | hm
          · exact hpage.older m hm k' hk'
          · have hlt := hpage.older last (List.mem_of_mem_getLast? hlast) k' hk'
            calc m.messageId < k := hbelow m hm k hk
              _ = last.messageId := hlastId.symm
              _ < k' := hlt

/-- each page of a walk is what its request returned -/
theorem walked_get (fuel i : ℕ) (before : Option Uuid) {j : ℕ} {page : ListMessagesResponse}
    (h : (walked (request t writes perm clock c limit) fuel i before)[j]? = some page) :
    ∃ before', request t writes perm clock c limit (i + j) before' = .ok page := by
  induction fuel generalizing i before j with
  | zero => simp [walked] at h
  | succ fuel ih =>
    rw [walked] at h
    cases hget : request t writes perm clock c limit i before with
    | error e => simp [hget] at h
    | ok p =>
      rw [hget] at h
      cases j with
      | zero =>
        obtain rfl : p = page := by simpa using h
        exact ⟨before, hget⟩
      | succ j =>
        simp only [List.getElem?_cons_succ] at h
        split_ifs at h
        · obtain ⟨before', hbefore'⟩ := ih (i + 1) p.nextCursor h
          exact ⟨before', by rwa [Nat.add_right_comm, Nat.add_assoc] at hbefore'⟩
        · simp at h

end

/-- **A walk under concurrent writes.** However many pages of it are fetched, whatever is written in between: the messages
are in strictly descending order; each page has at most as many as the limit, has a next cursor exactly if it has more,
and that is its last message; each message was stored in the channel, undeleted, when its page was read. -/
theorem walk_sound (t : MessageTable) (writes : ℕ → List Write) (perm : ℕ → Option Bool) (clock : ℕ → ℤ) (c : Uuid)
    (limit : Option ℤ) (fuel : ℕ) :
    ((walked (request t writes perm clock c limit) fuel 0 none).flatMap ListMessagesResponse.messages).Pairwise
        (fun a b => b.messageId < a.messageId) ∧
      ∀ i page, (walked (request t writes perm clock c limit) fuel 0 none)[i]? = some page →
        page.messages.length ≤ clampLimit limit ∧
        (page.hasMore = true ↔ page.nextCursor.isSome = true) ∧
        (∀ k ∈ page.nextCursor, ∃ m ∈ page.messages.getLast?, m.messageId = k) ∧
        ∀ m ∈ page.messages, Stored (tableAt t writes i) c (clock i) m := by
  refine ⟨(walked_descending fuel 0 none).1, ?_⟩
  intro i page hpage
  obtain ⟨before, hget⟩ := walked_get fuel 0 none hpage
  rw [Nat.zero_add] at hget
  obtain ⟨hok, hstored⟩ := listMessages_ok hget
  exact ⟨hok.length, hok.hasMore, hok.cursor, hstored⟩

end Concordia.Chat
