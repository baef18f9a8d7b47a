/-
What `create_message` and `delete_message` write to the `messages` table (`services/chat/src/handlers/messages.rs`).

- `MessageTable.softDelete`: UPDATE .. SET deleted_at. A row is never removed, so the row that a delete has selected is
  still there when it is updated.
- `Write`: one of the two statements; between two reads of the table there is a list of them.

The lemmas say what is in a partition after each of them.
-/
import Concordia.Chat.Create
import Concordia.Lib.Run

namespace Concordia.Chat

open Concordia.Lib
open Concordia.Servers (Uuid)
open Function (update update_self update_of_ne)

/-- the row `m`, marked deleted -/
def MessageRow.softDelete (messageId : Uuid) (deletedAt : ℤ) (row : MessageRow) : MessageRow :=
  if row.messageId = messageId then { row with deletedAt := some deletedAt } else row

@[simp] theorem MessageRow.softDelete_messageId (m : Uuid) (ts : ℤ) (row : MessageRow) :
    (row.softDelete m ts).messageId = row.messageId := by
  unfold MessageRow.softDelete
  split_ifs <;> rfl

@[simp] theorem MessageRow.softDelete_authorId (m : Uuid) (ts : ℤ) (row : MessageRow) :
    (row.softDelete m ts).authorId = row.authorId := by
  unfold MessageRow.softDelete
  split_ifs <;> rfl

/-- UPDATE messages SET deleted_at = ? WHERE channel_id = ? AND message_id = ? -/
def MessageTable.softDelete (t : MessageTable) (channelId messageId : Uuid) (deletedAt : ℤ) : MessageTable where
  partition := update t.partition channelId ((t.partition channelId).map (MessageRow.softDelete messageId deletedAt))
  descending c := by
    by_cases hc : c = channelId
    · rw [hc, update_self, List.pairwise_map]
      simpa using t.descending channelId
    · rw [update_of_ne hc]
      exact t.descending c

/-- a statement that writes -/
inductive Write where
  | insert (channelId : Uuid) (row : MessageRow)
  | softDelete (channelId messageId : Uuid) (deletedAt : ℤ)
deriving DecidableEq

def MessageTable.write (t : MessageTable) : Write → MessageTable
  | .insert channelId row => t.insert channelId row
  | .softDelete channelId messageId deletedAt => t.softDelete channelId messageId deletedAt

/-! ## Partitions -/

theorem MessageTable.mem_insert {t : MessageTable} {c c' : Uuid} {row row' : MessageRow}
    (hfresh : row.messageId ∉ (t.partition c).map MessageRow.messageId) :
    row' ∈ (t.insert c row).partition c' ↔ (c' = c ∧ row' = row) ∨ row' ∈ t.partition c' := by
  simp only [MessageTable.insert]
  rcases eq_or_ne c' c with rfl | hne
  · rw [update_self, mem_putRow _ _ hfresh]
    simp
  · rw [update_of_ne hne]
    simp [hne]

theorem MessageTable.mem_softDelete {t : MessageTable} {c c' m : Uuid} {ts : ℤ} {row' : MessageRow} :
    row' ∈ (t.softDelete c m ts).partition c' ↔
      ∃ row ∈ t.partition c', row' = if c' = c then row.softDelete m ts else row := by
  simp only [MessageTable.softDelete]
  rcases eq_or_ne c' c with rfl | hne
  · rw [update_self, List.mem_map]
    simp [eq_comm]
  · rw [update_of_ne hne]
    simp [hne]

end Concordia.Chat
