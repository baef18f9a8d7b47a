/-
The tips service (`services/tips/main.py`): sending a tip, and reading it back.

`TipCreate` bounds nothing; the columns of the table do. PostgreSQL refuses a row when a value does not fit its column, and
cuts off the spaces by which a text is too long for a VARCHAR; it takes no text with the character zero, and no index entry
of more than a third of a page. An insert that fails is not caught: the answer is 500.

- `RoundTrip`: a tip that was sent is one new row, and its sender and its recipient read it back, whatever is sent after it.
- `run_appends`: rows are only added.
- `tips_persist_iff`: a tip that passes `send_tip`'s checks makes the round trip exactly if its values fit their columns.
- `large_tip_lost`: 30 million dollars.
-/
import Concordia.Lib.Run
import Concordia.Servers.UuidText

namespace Concordia.Tips

open Concordia.Lib
open Concordia.Servers (Uuid)

/-! ## Data -/

/-- a row of `tips` -/
@[ext] structure Tip where
  tipId : String
  senderId : String
  recipientId : String
  amountCents : ℤ
  currency : String
  message : String
  /-- in microseconds -/
  createdAt : ℕ
deriving DecidableEq, Repr

/-- a request's body -/
structure TipCreate where
  recipientId : String
  amountCents : ℤ
  currency : String := "USD"
  message : String := ""
deriving DecidableEq, Repr

/-- an answer's body; `created_at` is the text of the same time -/
structure TipOut where
  tipId : String
  senderId : String
  recipientId : String
  amountCents : ℤ
  currency : String
  message : String
  createdAt : ℕ
deriving DecidableEq, Repr

def toOut (t : Tip) : TipOut :=
  ⟨t.tipId, t.senderId, t.recipientId, t.amountCents, t.currency, t.message, t.createdAt⟩

inductive Answer where
  /-- 201 -/
  | created (tip : TipOut)
  /-- 200 -/
  | ok (tip : TipOut)
  | error (status : ℕ) (detail : String)
deriving DecidableEq, Repr

structure Env where
  /-- `jwt.decode`: `none` when it raises, else the claim `sub` -/
  decode : String → Option (Option String)
  /-- an index on a text column takes an entry for this text -/
  indexable : String → Bool

def unauthorized : Answer := .error 401 "unauthorized"

/-- `_get_user_id`; an absent header counts as an empty one -/
def Env.getUserId (env : Env) (authorization : Option String) : Option String := do
  let auth := authorization.getD ""
  guard ("Bearer ".toList.isPrefixOf auth.toList)
  let claims ← env.decode (String.ofList (auth.toList.drop 7))
  claims.filter (· ≠ "")

/-! ## The table -/

def integer (n : ℤ) : Option ℤ := if -2 ^ 31 ≤ n ∧ n < 2 ^ 31 then some n else none

def text (s : String) : Option String := if '\x00' ∈ s.toList then none else some s

def varchar (n : ℕ) (s : String) : Option String :=
  (text s).bind fun s =>
    if s.length ≤ n then some s
    else if (s.toList.drop n).all (· = ' ') then some (String.ofList (s.toList.take n)) else none

/-- the row as the table takes it, with `tip_id` for its primary key and an index on the sender and on the recipient -/
def insert (env : Env) (tips : List Tip) (tip : Tip) : Option Tip :=
  if tips.any (·.tipId = tip.tipId) || !env.indexable tip.senderId || !env.indexable tip.recipientId then none
  else do
    let tipId ← text tip.tipId
    let senderId ← text tip.senderId
    let recipientId ← text tip.recipientId
    let amountCents ← integer tip.amountCents
    let currency ← varchar 8 tip.currency
    let message ← varchar 500 tip.message
    return ⟨tipId, senderId, recipientId, amountCents, currency, message, tip.createdAt⟩

/-! ## Endpoints -/

/-- a request to send a tip, the id that is drawn for it and the time -/
structure SendRequest where
  authorization : Option String
  body : TipCreate
  id : Uuid
  now : ℕ
deriving DecidableEq

def sendTip (env : Env) (tips : List Tip) (r : SendRequest) : Answer × List Tip :=
  match env.getUserId r.authorization with
  | none => (unauthorized, tips)
  | some senderId =>
    if senderId = r.body.recipientId then (.error 400 "cannot tip yourself", tips)
    else if r.body.amountCents ≤ 0 then (.error 400 "amount must be positive", tips)
    else
      match insert env tips ⟨Uuid.toString r.id, senderId, r.body.recipientId, r.body.amountCents, r.body.currency,
        r.body.message, r.now⟩ with
      -- nothing catches the exception
      | none => (.error 500 "Internal Server Error", tips)
      | some row => (.created (toOut row), tips ++ [row])

def getTip (env : Env) (tips : List Tip) (authorization : Option String) (tipId : String) : Answer :=
  match env.getUserId authorization with
  | none => unauthorized
  | some userId =>
    match text tipId with
    -- the database takes no such text, and nothing catches the exception
    | none => .error 500 "Internal Server Error"
    | some tipId =>
      match tips.find? fun t => t.tipId = tipId with
      | none => .error 404 "not found"
      | some result =>
        if result.senderId ≠ userId ∧ result.recipientId ≠ userId then .error 404 "not found" else .ok (toOut result)

/-- tips that are sent one after the other -/
def step (env : Env) (tips : List Tip) (r : SendRequest) : List Tip := (sendTip env tips r).2

/-! ## The round trip -/

/-- the tip is answered with 201 and is one new row, which its sender and its recipient read back at any later time -/
def RoundTrip (env : Env) (tips : List Tip) (r : SendRequest) (senderId : String) : Prop :=
  ∃ row : Tip, row.senderId = senderId ∧ row.recipientId = r.body.recipientId ∧ row.amountCents = r.body.amountCents ∧
    row.currency = r.body.currency ∧ row.message = r.body.message ∧
    sendTip env tips r = (.created (toOut row), tips ++ [row]) ∧
    ∀ later authorization userId, env.getUserId authorization = some userId →
      userId = senderId ∨ userId = r.body.recipientId →
      getTip env (run (step env) (tips ++ [row]) later) authorization row.tipId = .ok (toOut row)

/-- no value is too large for its column -/
structure Fits (env : Env) (senderId : String) (body : TipCreate) : Prop where
  amount : body.amountCents < 2 ^ 31
  currency : body.currency.length ≤ 8
  message : body.message.length ≤ 500
  texts : ∀ s ∈ [senderId, body.recipientId, body.currency, body.message], '\x00' ∉ s.toList
  indexed : env.indexable senderId = true ∧ env.indexable body.recipientId = true

/-! ## Columns -/

theorem text_eq_some {s s' : String} : text s = some s' ↔ s' = s ∧ '\x00' ∉ s.toList := by
  unfold text
  split_ifs with h
  · simp [h]
  · simp [h, eq_comm]

theorem integer_eq_some {n n' : ℤ} : integer n = some n' ↔ n' = n ∧ -2 ^ 31 ≤ n ∧ n < 2 ^ 31 := by
  unfold integer
  by_cases h : -2 ^ 31 ≤ n ∧ n < 2 ^ 31
  · rw [if_pos h, Option.some.injEq, eq_comm]
    exact (and_iff_left h).symm
  · rw [if_neg h]
    exact ⟨nofun, fun hn => absurd hn.2 h⟩

/-- a text is stored as it is exactly if it is not too long -/
theorem varchar_self {n : ℕ} {s : String} : varchar n s = some s ↔ s.length ≤ n ∧ '\x00' ∉ s.toList := by
  unfold varchar
  by_cases hnul : '\x00' ∈ s.toList
  · rw [show text s = none from if_pos hnul]
    exact ⟨nofun, fun h => absurd hnul h.2⟩
  · rw [show text s = some s from if_neg hnul, Option.bind_some]
    by_cases hlen : s.length ≤ n
    · rw [if_pos hlen]
      exact ⟨fun _ => ⟨hlen, hnul⟩, fun _ => rfl⟩
    · rw [if_neg hlen]
      refine ⟨?_, fun h => absurd h.1 hlen⟩
      intro h
      -- what is left of it after the cut is shorter
      split_ifs at h
      have hcut := congrArg String.length (Option.some.inj h)
      rw [String.length_ofList, List.length_take] at hcut
      omega

theorem text_uuid (id : Uuid) : text (Uuid.toString id) = some (Uuid.toString id) := by
  have hdigit : ∀ d < 16, Nat.digitChar d ≠ '\x00' := by decide
  have hhex : ∀ w n, '\x00' ∉ Servers.hexDigits w n := by
    intro w n h
    obtain ⟨d, hd, heq⟩ := Servers.mem_hexDigits h
    exact hdigit d hd heq.symm
  apply if_neg
  rw [Uuid.toString, String.toList_ofList]
  simp [hhex]

/-- a row that is stored has the tip's id and time -/
theorem insert_eq_some {env : Env} {tips : List Tip} {tip row : Tip} (h : insert env tips tip = some row) :
    (∀ t ∈ tips, t.tipId ≠ tip.tipId) ∧ env.indexable tip.senderId = true ∧ env.indexable tip.recipientId = true ∧
      text tip.tipId = some row.tipId ∧ text tip.senderId = some row.senderId ∧
      text tip.recipientId = some row.recipientId ∧ integer tip.amountCents = some row.amountCents ∧
      varchar 8 tip.currency = some row.currency ∧ varchar 500 tip.message = some row.message ∧
      row.createdAt = tip.createdAt := by
  unfold insert at h
  split_ifs at h with hguard
  simp only [Bool.or_eq_true, List.any_eq_true, decide_eq_true_eq, Bool.not_eq_eq_eq_not, Bool.not_true, not_or, not_exists,
    not_and, Bool.not_eq_false] at hguard
  simp only [Option.bind_eq_bind, Option.bind_eq_some_iff] at h
  obtain ⟨tipId, htip, senderId, hsender, recipientId, hrecipient, amount, hamount, currency, hcurrency, message, hmessage,
    hrow⟩ := h
  obtain rfl := Option.some.inj hrow
  exact ⟨hguard.1.1, hguard.1.2, hguard.2, htip, hsender, hrecipient, hamount, hcurrency, hmessage, rfl⟩

/-- **Storing.** A tip with a new id is stored as it is exactly if its values fit. -/
theorem insert_self {env : Env} {tips : List Tip} {senderId : String} {body : TipCreate} (id : Uuid) (now : ℕ)
    (hfresh : ∀ t ∈ tips, t.tipId ≠ Uuid.toString id) (hpos : 0 < body.amountCents) :
    (insert env tips ⟨Uuid.toString id, senderId, body.recipientId, body.amountCents, body.currency, body.message, now⟩ =
      some ⟨Uuid.toString id, senderId, body.recipientId, body.amountCents, body.currency, body.message, now⟩) ↔
      Fits env senderId body := by
  refine ⟨?_, ?_⟩
  · intro h
    obtain ⟨-, hs, hr, -, hsender, hrecipient, hamount, hcurrency, hmessage, -⟩ := insert_eq_some h
    obtain ⟨hclen, hcnul⟩ := varchar_self.1 hcurrency
    obtain ⟨hmlen, hmnul⟩ := varchar_self.1 hmessage
    refine ⟨(integer_eq_some.1 hamount).2.2, hclen, hmlen, ?_, hs, hr⟩
    simp only [List.forall_mem_cons]
    exact ⟨(text_eq_some.1 hsender).2, (text_eq_some.1 hrecipient).2, hcnul, hmnul, by simp⟩
  · intro h
    have htexts := h.texts
    simp only [List.forall_mem_cons] at htexts
    obtain ⟨hsnul, hrnul, hcnul, hmnul, -⟩ := htexts
    have hnew : (tips.any fun t => t.tipId = Uuid.toString id) = false := by
      rw [List.any_eq_false]
      intro t ht
      simpa using hfresh t ht
    have hsender : text senderId = some senderId := if_neg hsnul
    have hrecipient : text body.recipientId = some body.recipientId := if_neg hrnul
    have hamount : integer body.amountCents = some body.amountCents :=
      integer_eq_some.2 ⟨rfl, by omega, h.amount⟩
    unfold insert
    simp [hnew, h.indexed.1, h.indexed.2, text_uuid, hsender, hrecipient, hamount, varchar_self.2 ⟨h.currency, hcnul⟩,
      varchar_self.2 ⟨h.message, hmnul⟩]

/-! ## Rows are only added -/

theorem step_appends (env : Env) (tips : List Tip) (r : SendRequest) : tips <+: step env tips r := by
  unfold step sendTip
  cases env.getUserId r.authorization with
  | none => exact List.prefix_rfl
  | some senderId =>
    dsimp only
    split_ifs
    · exact List.prefix_rfl
    · exact List.prefix_rfl
    · split
      · exact List.prefix_rfl
      · exact List.prefix_append _ _

theorem run_appends (env : Env) (tips : List Tip) (requests : List SendRequest) : tips <+: run (step env) tips requests :=
  run_rel (fun _ => List.prefix_rfl) (fun _ _ _ => List.IsPrefix.trans) (step_appends env) tips requests

/-- the first row with an id is found by it, whatever comes after -/
theorem getTip_first {env : Env} {tips later : List Tip} {row : Tip} (htext : text row.tipId = some row.tipId)
    (hfresh : ∀ t ∈ tips, t.tipId ≠ row.tipId)
    (hlater : tips ++ [row] <+: later) {authorization : Option String} {userId : String}
    (hu : env.getUserId authorization = some userId) (hinvolved : userId = row.senderId ∨ userId = row.recipientId) :
    getTip env later authorization row.tipId = .ok (toOut row) := by
  obtain ⟨rest, rfl⟩ := hlater
  have hfound : (tips ++ [row] ++ rest).find? (fun t => t.tipId = row.tipId) = some row := by
    rw [List.append_assoc, List.find?_append, List.find?_eq_none.2 (by simpa using hfresh)]
    simp
  unfold getTip
  rw [hu]
  simp only [htext, hfound]
  apply if_neg
  rcases hinvolved with rfl | rfl <;> simp

/-- the row that a request asks for -/
def requested (r : SendRequest) (senderId : String) : Tip :=
  ⟨Uuid.toString r.id, senderId, r.body.recipientId, r.body.amountCents, r.body.currency, r.body.message, r.now⟩

/-- past the checks it is the table that decides -/
theorem sendTip_checked {env : Env} {tips : List Tip} {r : SendRequest} {senderId : String}
    (hu : env.getUserId r.authorization = some senderId) (hne : senderId ≠ r.body.recipientId)
    (hpos : 0 < r.body.amountCents) :
    sendTip env tips r = match insert env tips (requested r senderId) with
      | none => (.error 500 "Internal Server Error", tips)
      | some row => (.created (toOut row), tips ++ [row]) := by
  unfold sendTip
  rw [hu]
  dsimp only
  rw [if_neg hne, if_neg (not_le.2 hpos)]
  rfl

/-- **Tips persist.** A tip that passes `send_tip`'s checks, under a new id, makes the round trip exactly if its values fit
their columns. -/
theorem tips_persist_iff {env : Env} {tips : List Tip} {r : SendRequest} {senderId : String}
    (hu : env.getUserId r.authorization = some senderId) (hne : senderId ≠ r.body.recipientId)
    (hpos : 0 < r.body.amountCents) (hfresh : ∀ t ∈ tips, t.tipId ≠ Uuid.toString r.id) :
    RoundTrip env tips r senderId ↔ Fits env senderId r.body := by
  have hsend := @sendTip_checked env tips r senderId hu hne hpos
  rw [← insert_self r.id r.now hfresh hpos]
  change _ ↔ insert env tips (requested r senderId) = some (requested r senderId)
  refine ⟨?_, ?_⟩
  · intro h
    obtain ⟨row, hsender, hrecipient, hamount, hcurrency, hmessage, hcreated, -⟩ := h
    rw [hsend] at hcreated
    cases hinsert : insert env tips (requested r senderId) with
    | none =>
      rw [hinsert] at hcreated
      cases hcreated
    | some stored =>
      rw [hinsert] at hcreated
      obtain rfl : stored = row := by simpa using congrArg Prod.snd hcreated
      obtain ⟨-, -, -, hid, -, -, -, -, -, hnow⟩ := insert_eq_some hinsert
      have hid : stored.tipId = Uuid.toString r.id := (text_eq_some.1 hid).1
      exact congrArg some (Tip.ext hid hsender hrecipient hamount hcurrency hmessage hnow)
  · intro h
    rw [h] at hsend
    refine ⟨requested r senderId, rfl, rfl, rfl, rfl, rfl, hsend, ?_⟩
    have hnew : ∀ t ∈ tips, t.tipId ≠ (requested r senderId).tipId := hfresh
    intro later authorization userId huser hinvolved
    exact getTip_first (insert_eq_some h).2.2.2.1 hnew (run_appends env _ later) huser hinvolved

/-! ## Two tips -/

/-- tokens are names, and every text can be indexed -/
def byName : Env where
  decode token := some (some token)
  indexable _ := true

def thanks (amountCents : ℤ) : SendRequest where
  authorization := some "Bearer alice"
  body := { recipientId := "bob", amountCents, message := "Great help!" }
  id := 1
  now := 0

theorem small_tip_kept : RoundTrip byName [] (thanks 500) "alice" :=
  (tips_persist_iff (by decide) (by decide) (by decide) (by decide)).2
    ⟨by decide, by decide, by decide, by decide, by decide⟩

/-- three thousand million cents pass the checks, and are lost with a 500 -/
theorem large_tip_lost :
    byName.getUserId (thanks 3000000000).authorization = some "alice" ∧ (thanks 3000000000).body.recipientId ≠ "alice" ∧
      0 < (thanks 3000000000).body.amountCents ∧
      sendTip byName [] (thanks 3000000000) = (.error 500 "Internal Server Error", []) ∧
      ¬ RoundTrip byName [] (thanks 3000000000) "alice" := by
  have hsend : sendTip byName [] (thanks 3000000000) = (.error 500 "Internal Server Error", []) := by decide
  refine ⟨by decide, by decide, by decide, hsend, ?_⟩
  intro h
  obtain ⟨row, -, -, -, -, -, hcreated, -⟩ := h
  rw [hsend] at hcreated
  cases hcreated

end Concordia.Tips
