/-
Reading a user's tips page by page: `list_tips` (`services/tips/main.py`) asked by `TipsPage`
(`apps/web-app/app/app/tips/page.tsx`), while tips are sent.

A page is a window of the matching rows, newest first; rows of the same time come in any order, another one in each query.
The next page is asked for with the number of tips received for an offset, until a page is short. A request that fails
leaves everything as it is.

- `Whole`: no tip twice, and after a short page every tip that was there at the first request.
- `fetch_inv`: one page.
- `pages_whole`: the list is whole in every run in which the rows in front of each page are the tips received so far.
- `calm_inFront`: so they are while no tip is sent and no two tips have the same time.
- `tip_twice`: a tip is sent after the first page.
-/
import Concordia.Lib.OffsetPaging
import Concordia.Tips.Service

namespace Concordia.Tips

open Concordia.Lib OffsetPaging

/-! ## A page -/

/-- the rows that a direction selects -/
def matching (userId : String) (direction : Option String) (tips : List Tip) : List Tip :=
  tips.filter fun t =>
    if direction = some "sent" then t.senderId = userId
    else if direction = some "received" then t.recipientId = userId
    else t.senderId = userId || t.recipientId = userId

/-- an order that `ORDER BY created_at DESC` allows -/
def Ordered (order rows : List Tip) : Prop :=
  order.Perm rows ∧ order.Pairwise fun a b => b.createdAt ≤ a.createdAt

instance (order rows : List Tip) : Decidable (Ordered order rows) := inferInstanceAs (Decidable (_ ∧ _))

/-- `list_tips`, when the database has put the rows into this order; none when it answers an error, as the database does to
a number below zero -/
def listTips (env : Env) (tips : List Tip) (authorization direction : Option String) (limit offset : ℤ)
    (order : List Tip) : Option (List TipOut) := do
  let userId ← env.getUserId authorization
  if limit < 0 ∨ offset < 0 then none
  else if Ordered order (matching userId direction tips) then
    some ((page limit.toNat offset.toNat order).map toOut)
  else none

/-! ## The page component -/

def pageSize : ℕ := 20

/-- the table and the state of `TipsPage` -/
structure St where
  table : List Tip
  tips : List TipOut
  offset : ℕ
  hasMore : Bool
  /-- the table at the first page -/
  first : Option (List Tip)

inductive Op where
  | send (r : SendRequest)
  /-- the first page, or the next one; the database's order -/
  | fetch (order : List Tip)

def start (table : List Tip) : St := ⟨table, [], 0, false, none⟩

/-- who reads, and what -/
structure Reader where
  env : Env
  authorization : Option String
  direction : Option String

/-- `fetchTips` -/
def fetchTips (rd : Reader) (s : St) (order : List Tip) : St :=
  let append := s.first.isSome
  match listTips rd.env s.table rd.authorization rd.direction pageSize s.offset order with
  | none => s
  | some data =>
    { s with
      tips := if append then s.tips ++ data else data
      hasMore := data.length = pageSize
      offset := s.offset + data.length
      first := s.first.orElse fun _ => some s.table }

/-- "Load more" is there while there is more -/
def St.step (rd : Reader) (s : St) : Op → St
  | .send r => { s with table := Tips.step rd.env s.table r }
  | .fetch order => if s.first.isSome && !s.hasMore then s else fetchTips rd s order

/-- no tip is listed twice, and when a short page has come, every matching tip that was there at the first page is listed -/
structure Whole (rd : Reader) (s : St) : Prop where
  nodup : (s.tips.map TipOut.tipId).Nodup
  complete : ∀ first userId, s.first = some first → s.hasMore = false → rd.env.getUserId rd.authorization = some userId →
    ∀ t ∈ matching userId rd.direction first, toOut t ∈ s.tips

/-- the rows in front of the page that comes are the tips received so far -/
def InOrder (rd : Reader) (s : St) : Op → Prop
  | .send _ => True
  | .fetch order =>
    listTips rd.env s.table rd.authorization rd.direction pageSize s.offset order ≠ none →
      InFront s.tips (order.map toOut)

/-! ## One step -/

structure Inv (rd : Reader) (s : St) : Prop where
  keys : (s.table.map Tip.tipId).Nodup
  offset : s.offset = s.tips.length
  begun : s.first = none → s.tips = []
  /-- rows are only added -/
  first : ∀ first, s.first = some first → first <+: s.table
  whole : Whole rd s

theorem toOut_tipId (rows : List Tip) : (rows.map toOut).map TipOut.tipId = rows.map Tip.tipId := by
  rw [List.map_map]
  rfl

/-- a row that is added has an id of its own -/
theorem step_keys {env : Env} {tips : List Tip} (h : (tips.map Tip.tipId).Nodup) (r : SendRequest) :
    ((step env tips r).map Tip.tipId).Nodup := by
  unfold step sendTip
  cases env.getUserId r.authorization with
  | none => exact h
  | some senderId =>
    dsimp only
    split_ifs
    · exact h
    · exact h
    · split
      · exact h
      · next row hrow =>
        obtain ⟨hfresh, -, -, hid, -⟩ := insert_eq_some hrow
        have hid : row.tipId = _ := (text_eq_some.1 hid).1
        rw [List.map_append, List.map_singleton, List.nodup_append]
        refine ⟨h, List.nodup_singleton _, ?_⟩
        intro a ha b hb
        obtain ⟨t, ht, rfl⟩ := List.mem_map.1 ha
        rw [List.mem_singleton.1 hb, hid]
        exact hfresh t ht

theorem matching_mono {userId : String} {direction : Option String} {a b : List Tip} (h : a <+: b) :
    matching userId direction a <+: matching userId direction b := List.IsPrefix.filter _ h

theorem send_inv {rd : Reader} {s : St} (h : Inv rd s) (r : SendRequest) : Inv rd (s.step rd (.send r)) where
  keys := step_keys h.keys r
  offset := h.offset
  begun := h.begun
  first := fun first hfirst => (h.first first hfirst).trans (step_appends rd.env s.table r)
  whole := ⟨h.whole.nodup, h.whole.complete⟩

theorem step_fetch (rd : Reader) (s : St) (order : List Tip) :
    s.step rd (.fetch order) = if s.first.isSome && !s.hasMore then s else fetchTips rd s order := rfl

/-- what an answer is -/
theorem listTips_eq_some {env : Env} {tips : List Tip} {authorization direction : Option String} {limit offset : ℤ}
    {order : List Tip} {data : List TipOut} (h : listTips env tips authorization direction limit offset order = some data) :
    ∃ userId, env.getUserId authorization = some userId ∧ Ordered order (matching userId direction tips) ∧
      data = page limit.toNat offset.toNat (order.map toOut) := by
  unfold listTips at h
  rw [Option.bind_eq_bind, Option.bind_eq_some_iff] at h
  obtain ⟨userId, hu, hdata⟩ := h
  split_ifs at hdata with hnegative hordered
  refine ⟨userId, hu, hordered, ?_⟩
  rw [← Option.some.inj hdata, page, page, ← List.map_drop, ← List.map_take]

/-- the first page is added to nothing -/
theorem fetchTips_of_some {rd : Reader} {s : St} {order : List Tip} {data : List TipOut}
    (hdata : listTips rd.env s.table rd.authorization rd.direction pageSize s.offset order = some data)
    (hbegun : s.first = none → s.tips = []) :
    fetchTips rd s order = ⟨s.table, s.tips ++ data, s.offset + data.length, data.length = pageSize,
      s.first.orElse fun _ => some s.table⟩ := by
  unfold fetchTips
  rw [hdata]
  cases hfirst : s.first with
  | none => simp [hbegun hfirst]
  | some first => simp

theorem fetchTips_of_none {rd : Reader} {s : St} {order : List Tip}
    (hdata : listTips rd.env s.table rd.authorization rd.direction pageSize s.offset order = none) :
    fetchTips rd s order = s := by
  unfold fetchTips
  rw [hdata]

/-- **One page.** -/
theorem fetch_inv {rd : Reader} {s : St} (h : Inv rd s) {order : List Tip} (ho : InOrder rd s (.fetch order)) :
    Inv rd (s.step rd (.fetch order)) := by
  rw [step_fetch]
  split_ifs
  · exact h
  cases hdata : listTips rd.env s.table rd.authorization rd.direction pageSize s.offset order with
  | none =>
    rw [fetchTips_of_none hdata]
    exact h
  | some data =>
    rw [fetchTips_of_some hdata h.begun]
    have ho : InFront s.tips (order.map toOut) := ho (by rw [hdata]; simp)
    obtain ⟨userId, hu, hordered, hpage⟩ := listTips_eq_some hdata
    rw [h.offset, Int.toNat_natCast, Int.toNat_natCast] at hpage
    have hfirst : ∀ first, (s.first.orElse fun _ => some s.table) = some first → first <+: s.table := by
      intro first hsome
      cases hs : s.first with
      | none =>
        rw [hs] at hsome
        rw [← Option.some.inj hsome]
      | some first' =>
        rw [hs] at hsome
        rw [← Option.some.inj hsome]
        exact h.first first' hs
    have hids : ((order.map toOut).map TipOut.tipId).Nodup := by
      rw [toOut_tipId, (hordered.1.map Tip.tipId).nodup_iff]
      exact h.keys.sublist (List.filter_sublist.map _)
    refine ⟨h.keys, ?_, ?_, hfirst, ?_, ?_⟩
    · rw [List.length_append, h.offset]
    · intro hnone
      cases hs : s.first with
      | none => simp [hs] at hnone
      | some first => simp [hs] at hnone
    · have hreceived := received_perm ho pageSize
      rw [← hpage] at hreceived
      rw [(hreceived.map _).nodup_iff]
      exact hids.sublist ((List.take_sublist _ _).map _)
    · intro first user hsome hshort huser t ht
      rw [hu, Option.some.injEq] at huser
      have hlen : data.length < pageSize := by
        have hle : data.length ≤ pageSize := hpage ▸ length_page_le
        have hne : data.length ≠ pageSize := by simpa using hshort
        omega
      have hall := perm_of_short ho (hpage ▸ hlen)
      rw [← hpage] at hall
      rw [hall.mem_iff]
      apply List.mem_map_of_mem
      rw [hordered.1.mem_iff, huser]
      exact (matching_mono (hfirst first hsome)).subset ht

theorem step_inv {rd : Reader} {s : St} {op : Op} (h : Inv rd s) (ho : InOrder rd s op) : Inv rd (s.step rd op) := by
  cases op with
  | send r => exact send_inv h r
  | fetch order => exact fetch_inv h ho

theorem start_inv (rd : Reader) {table : List Tip} (h : (table.map Tip.tipId).Nodup) : Inv rd (start table) where
  keys := h
  offset := rfl
  begun _ := rfl
  first := nofun
  whole := ⟨List.nodup_nil, nofun⟩

/-! ## Runs -/

/-- **Whole lists.** In a run in which the rows in front of each page are the tips received so far, the list is whole at any
time. -/
theorem pages_whole (rd : Reader) {table : List Tip} (h : (table.map Tip.tipId).Nodup) {ops : List Op}
    (hops : Along (St.step rd) (InOrder rd) (start table) ops) : ∀ a, a <+: ops → Whole rd (run (St.step rd) (start table) a) := by
  intro a ha
  obtain ⟨b, rfl⟩ := ha
  exact (run_inv (fun _ _ hs ho => step_inv hs ho) (start_inv rd h) (along_append.1 hops).1).whole

/-- all tips that the reader sees have times of their own -/
def DistinctTimes (rd : Reader) (table : List Tip) : Prop :=
  ∀ userId, rd.env.getUserId rd.authorization = some userId → ∀ a ∈ matching userId rd.direction table,
    ∀ b ∈ matching userId rd.direction table, a.createdAt = b.createdAt → a = b

/-- there is one order of distinct times -/
theorem ordered_unique {rows a b : List Tip} (hdistinct : ∀ x ∈ rows, ∀ y ∈ rows, x.createdAt = y.createdAt → x = y)
    (ha : Ordered a rows) (hb : Ordered b rows) : a = b := by
  apply eq_of_strict Tip.createdAt (ha.1.trans hb.1.symm) ha.2 hb.2
  intro x hx y hy
  exact hdistinct x (ha.1.mem_iff.1 hx) y (ha.1.mem_iff.1 hy)

/-- what has come goes in front of every answer -/
structure Calm (rd : Reader) (rows : List Tip) (s : St) : Prop where
  table : s.table = rows
  offset : s.offset = s.tips.length
  begun : s.first = none → s.tips = []
  inFront : ∀ userId order, rd.env.getUserId rd.authorization = some userId →
    Ordered order (matching userId rd.direction rows) → InFront s.tips (order.map toOut)

theorem Calm.fetch {rd : Reader} {table : List Tip} {s : St} (h : Calm rd table s) (hdistinct : DistinctTimes rd table)
    (order : List Tip) : Calm rd table (s.step rd (.fetch order)) := by
  rw [step_fetch]
  split_ifs
  · exact h
  cases hdata : listTips rd.env s.table rd.authorization rd.direction pageSize s.offset order with
  | none =>
    rw [fetchTips_of_none hdata]
    exact h
  | some data =>
    rw [fetchTips_of_some hdata h.begun]
    obtain ⟨userId, hu, hordered, hpage⟩ := listTips_eq_some hdata
    rw [h.table] at hordered
    rw [h.offset, Int.toNat_natCast, Int.toNat_natCast] at hpage
    refine ⟨h.table, ?_, ?_, ?_⟩
    · rw [List.length_append, h.offset]
    · intro hnone
      cases hs : s.first with
      | none => simp [hs] at hnone
      | some first => simp [hs] at hnone
    · intro user order' huser hordered'
      obtain rfl : userId = user := Option.some.inj (hu.symm.trans huser)
      obtain rfl := ordered_unique (hdistinct userId hu) hordered hordered'
      rw [hpage]
      exact inFront_next (h.inFront userId order hu hordered)

/-- **Calm tables.** While no tip is sent and no two tips have the same time, the rows in front of each page are the tips
received so far. -/
theorem calm_inFront (rd : Reader) {table : List Tip} (hdistinct : DistinctTimes rd table) (orders : List (List Tip)) :
    Along (St.step rd) (InOrder rd) (start table) (orders.map Op.fetch) := by
  have hstart : Calm rd table (start table) := ⟨rfl, rfl, fun _ => rfl, fun _ _ _ _ => inFront_nil⟩
  generalize start table = s at hstart
  induction orders generalizing s with
  | nil => trivial
  | cons order orders ih =>
    refine ⟨?_, ih _ (hstart.fetch hdistinct order)⟩
    intro hanswered
    obtain ⟨data, hdata⟩ := Option.ne_none_iff_exists'.1 hanswered
    obtain ⟨userId, hu, hordered, -⟩ := listTips_eq_some hdata
    rw [hstart.table] at hordered
    exact hstart.inFront userId order hu hordered

/-! ## Two pages -/

/-- a tip from alice to bob -/
def tipAt (n : ℕ) : Tip := ⟨toString n, "alice", "bob", 100, "USD", "", n⟩

/-- alice's tips of these times, the newest first -/
def newest (n : ℕ) : List Tip := (List.range n).reverse.map tipAt

def aliceSent : Reader := ⟨byName, some "Bearer alice", some "sent"⟩

/-- both pages of 21 tips -/
theorem calm_pages : Whole aliceSent
    (run (St.step aliceSent) (start (newest 21)) [.fetch (newest 21), .fetch (newest 21)]) := by
  have hdistinct : DistinctTimes aliceSent (newest 21) := by
    intro userId _ a ha b hb htime
    obtain ⟨m, -, rfl⟩ := List.mem_map.1 (List.mem_of_mem_filter ha)
    obtain ⟨n, -, rfl⟩ := List.mem_map.1 (List.mem_of_mem_filter hb)
    exact congrArg tipAt htime
  have hcalm := calm_inFront aliceSent hdistinct [newest 21, newest 21]
  exact pages_whole aliceSent (by decide +kernel) hcalm _ List.prefix_rfl

/-- a tip is sent after the first page: the last tip of that page is the first of the next one -/
theorem tip_twice :
    let ops := [Op.fetch (newest 21), .send { (thanks 500) with now := 21 },
      .fetch (requested { (thanks 500) with now := 21 } "alice" :: newest 21)]
    ((newest 21).map Tip.tipId).Nodup ∧ (run (St.step aliceSent) (start (newest 21)) ops).tips.length = 22 ∧
      ¬ Whole aliceSent (run (St.step aliceSent) (start (newest 21)) ops) := by
  intro ops
  have hlist : (run (St.step aliceSent) (start (newest 21)) ops).tips.map TipOut.tipId =
      ((newest 21).take 20).map Tip.tipId ++ ["1", "0"] := by decide +kernel
  refine ⟨by decide +kernel, by decide +kernel, ?_⟩
  intro h
  have hnodup := h.nodup
  rw [hlist] at hnodup
  revert hnodup
  decide +kernel

end Concordia.Tips
