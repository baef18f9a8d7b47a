/-
Completeness of a walk over `list_messages`.

Soft-deleted rows are dropped after the LIMIT, and `has_more` counts what is left. One deleted row in a look-ahead window
therefore ends the walk there, and everything older stays hidden.

- `listMessages_page`: one request is one look-ahead page of the rows its cursor leaves.
- `walk_shows`: a walk of requests shows what the walk over the rows shows, row by row.
- `list_messages_complete_iff`: every walk ends, and it shows every undeleted message iff all rows beyond the window of
  the newest deleted row are deleted.
- `deleted_row_hides_history`: limit 1, newest row deleted, two older messages: one page with one of them, no next page.
-/
import Concordia.Chat.Messages

namespace Concordia.Chat

open Concordia.Servers (Uuid)
open Concordia.Lib

/-- the row is not deleted -/
def MessageRow.live (row : MessageRow) : Bool := row.deletedAt.isNone

/-- the message is the row, rendered at some moment -/
def Renders (c : Uuid) (row : MessageRow) (m : MessageResponse) : Prop := ∃ now, m = toResponse c now row

theorem renders_map (c : Uuid) (now : ℤ) (rows : List MessageRow) :
    List.Forall₂ (Renders c) rows (rows.map (toResponse c now)) :=
  List.forall₂_map_right_iff.2 (List.forall₂_same.2 fun _ _ => ⟨now, rfl⟩)

/-! ## One request is one page -/

theorem buildPage_fetched (ℓ : ℕ) (rows : List MessageRow) (c : Uuid) (now : ℤ) :
    buildPage ℓ ((Paging.fetched ℓ MessageRow.live rows).map (toResponse c now)) =
      { messages := (Paging.page ℓ MessageRow.live rows).map (toResponse c now)
        nextCursor := if Paging.more ℓ MessageRow.live rows
          then (Paging.page ℓ MessageRow.live rows).getLast?.map MessageRow.messageId else none
        hasMore := Paging.more ℓ MessageRow.live rows } := by
  have hlen : decide (ℓ < ((Paging.fetched ℓ MessageRow.live rows).map (toResponse c now)).length) =
      Paging.more ℓ MessageRow.live rows := by rw [List.length_map]; rfl
  unfold buildPage
  simp only [hlen]
  cases hmore : Paging.more ℓ MessageRow.live rows with
  | false => simp [Paging.page_of_last hmore]
  | true => simp [Paging.page, ← List.map_take, List.getLast?_map, Function.comp_def, toResponse]

/-- a request that is allowed answers the page of the rows its cursor leaves -/
theorem listMessages_page (t : MessageTable) (c : Uuid) (limit : Option ℤ) (before : Option Uuid) (now : ℤ) :
    listMessages t (some true) c ⟨limit, before⟩ now =
      .ok (buildPage (clampLimit limit)
        ((Paging.fetched (clampLimit limit) MessageRow.live (t.remaining c before)).map (toResponse c now))) := rfl

/-! ## A walk of requests is a walk over the rows -/

theorem walk_shows (t : MessageTable) (c : Uuid) (limit : Option ℤ) (clock : ℕ → ℤ) (fuel i : ℕ)
    (before : Option Uuid) (newer : List MessageRow) {rows shown : List MessageRow} (hpart : t.partition c = newer ++ rows)
    (hrows : t.remaining c before = rows) (hwalk : Paging.walk (clampLimit limit) MessageRow.live fuel rows = some shown) :
    ∃ pages, walk (fun i before => listMessages t (some true) c ⟨limit, before⟩ (clock i)) fuel i before = some pages ∧
      List.Forall₂ (Renders c) shown (pages.flatMap ListMessagesResponse.messages) := by
  induction fuel generalizing i before newer rows shown with
  | zero => cases hwalk
  | succ fuel ih =>
    rw [walk, listMessages_page, hrows, buildPage_fetched]
    rw [Paging.walk] at hwalk
    cases hmore : Paging.more (clampLimit limit) MessageRow.live rows with
    | false =>
      rw [hmore] at hwalk
      cases hwalk
      exact ⟨_, rfl, by simpa using renders_map c (clock i) _⟩
    | true =>
      rw [hmore, if_pos rfl] at hwalk
      obtain ⟨later, hlater, rfl⟩ := Option.map_eq_some_iff.1 hwalk
      obtain ⟨page, x, rest, rfl, hlen, -, -, hpage⟩ := Paging.split_of_more hmore
      -- the cursor is the last row shown, and what it leaves starts at `x`
      obtain ⟨front, last, rfl⟩ : ∃ front last, page = front ++ [last] := by
        refine (List.eq_nil_or_concat' page).resolve_left ?_
        rintro rfl
        exact absurd (clampLimit_bounds limit).1 (by rw [← hlen]; decide)
      have hpart' : t.partition c = (newer ++ front) ++ last :: x :: rest := by simpa using hpart
      have hnext := t.remaining_some hpart'
      rw [List.drop_left' hlen] at hlater
      obtain ⟨pages, hpages, hshown⟩ := ih (i + 1) (some last.messageId) (newer ++ front ++ [last])
        (by simpa using hpart) hnext hlater
      simp only [hpage, if_true, List.getLast?_concat, Option.map_some, hpages]
      refine ⟨_, rfl, ?_⟩
      rw [List.flatMap_cons]
      exact List.rel_append (renders_map c (clock i) _) hshown

theorem walk_fuel {get : ℕ → Option Uuid → Except ErrorResponse ListMessagesResponse} {fuel more i : ℕ}
    {before : Option Uuid} {pages : List ListMessagesResponse} (h : walk get fuel i before = some pages)
    (hle : fuel ≤ more) : walk get more i before = some pages := by
  induction fuel generalizing more i before pages with
  | zero => cases h
  | succ fuel ih =>
    obtain ⟨more, rfl⟩ : ∃ m, more = m + 1 := ⟨more - 1, by omega⟩
    rw [walk] at h ⊢
    cases hget : get i before with
    | error e => rw [hget] at h; cases h
    | ok page =>
      rw [hget] at h
      cases hmore : page.hasMore with
      | false => simpa [hmore] using h
      | true =>
        simp only [hmore, if_true] at h ⊢
        obtain ⟨later, hlater, rfl⟩ := Option.map_eq_some_iff.1 h
        rw [ih hlater (by omega)]
        rfl

/-! ## Completeness -/

/-- the last position a walk fetches, counting rows from the newest: with `ℓ` the clamped limit and `d` the position of
the newest deleted row, the end of the look-ahead window that holds `d` -/
def lastFetched (t : MessageTable) (c : Uuid) (limit : Option ℤ) : ℕ :=
  ((t.partition c).findIdx (fun row => !row.live) - 1) / clampLimit limit * clampLimit limit + clampLimit limit

theorem lastFetched_eq_reach (t : MessageTable) (c : Uuid) (limit : Option ℤ) :
    Paging.reach (clampLimit limit) MessageRow.live (t.partition c) = lastFetched t c limit := rfl

/-- **Pagination.** Over any history and for any limit, the walk ends after finitely many pages; they are exactly the
undeleted messages, newest first, each once, iff every row beyond the window of the newest deleted row is deleted. -/
theorem list_messages_complete_iff (t : MessageTable) (c : Uuid) (limit : Option ℤ) (clock : ℕ → ℤ) :
    ∃ pages, (∀ fuel, (t.partition c).length < fuel → walkChannel t c limit clock fuel = some pages) ∧
      (List.Forall₂ (Renders c) ((t.partition c).filter MessageRow.live)
          (pages.flatMap ListMessagesResponse.messages) ↔
        ∀ row ∈ (t.partition c).drop (lastFetched t c limit + 1), row.deletedAt.isSome = true) := by
  have hℓ : 0 < clampLimit limit := (clampLimit_bounds limit).1
  have hwalk : Paging.walk (clampLimit limit) MessageRow.live _ (t.partition c) = _ :=
    Paging.walk_eq hℓ (Nat.lt_succ_self (t.partition c).length)
  obtain ⟨pages, hpages, hshown⟩ := walk_shows t c limit clock _ 0 none [] rfl (t.remaining_none c) hwalk
  refine ⟨pages, fun fuel hfuel => walk_fuel hpages hfuel, ?_⟩
  have hlive : (∀ row ∈ (t.partition c).drop (lastFetched t c limit + 1), row.deletedAt.isSome = true) ↔
      ∀ row ∈ (t.partition c).drop (lastFetched t c limit + 1), row.live = false :=
    forall₂_congr fun row _ => by simp [MessageRow.live]
  rw [hlive, ← lastFetched_eq_reach, ← Paging.walk_complete_iff hℓ (Nat.lt_succ_self _), hwalk, Option.some_inj]
  refine ⟨?_, ?_⟩
  · -- both lists render to the same messages, so the shown rows are as many as the undeleted ones
    intro hall
    have hlen := hshown.length_eq.trans hall.length_eq.symm
    exact (List.Sublist.filter _ (List.take_sublist _ _)).eq_of_length hlen
  · exact fun heq => heq ▸ hshown

/-- the newest of three messages is deleted; with a limit of 1 the oldest is never shown -/
def historyWithDeletedHead : MessageTable where
  partition c := if c = 0 then [⟨3, 7, "c", none, 0, some 1⟩, ⟨2, 7, "b", none, 0, none⟩, ⟨1, 7, "a", none, 0, none⟩]
    else []
  descending c := by split_ifs <;> decide

theorem deleted_row_hides_history : ¬ ∃ fuel pages,
    walkChannel historyWithDeletedHead 0 (some 1) (fun _ => 0) fuel = some pages ∧
      List.Forall₂ (Renders 0) ((historyWithDeletedHead.partition 0).filter MessageRow.live)
        (pages.flatMap ListMessagesResponse.messages) := by
  rintro ⟨fuel, pages, hwalk, hall⟩
  cases fuel with
  | zero => cases hwalk
  | succ fuel =>
    -- the first page announces no other one, whatever the fuel
    have hone : walkChannel historyWithDeletedHead 0 (some 1) (fun _ => 0) (fuel + 1) =
        some [⟨[⟨2, 0, 7, "b", [], 0⟩], none, false⟩] := rfl
    obtain rfl : pages = _ := Option.some.inj (hwalk.symm.trans hone)
    exact absurd hall.length_eq (by decide)

end Concordia.Chat
