/-
Who learns of a tip (`get_tip`, `list_tips`, `send_tip` in `services/tips/main.py`).

A tip concerns its sender and its recipient. Everybody's requests reach one table; the id in `GET /tips/{tip_id}` is any
text, and a list is any window of it.

- `Request`, `respond`: the three endpoints over one table; the order of the rows is the database's choice.
- `tips_private`: over every run, a user's answers show only tips that concern the user, and are those of the run in which
  nobody else has sent tips to anybody else, or asked for anything: whether such a tip exists cannot be told.
-/
import Concordia.Lib.Purge
import Concordia.Tips.Paging

namespace Concordia.Tips

open Concordia.Lib OffsetPaging
open Concordia.Servers (Uuid)

/-! ## The service -/

inductive Request where
  /-- `POST /tips` -/
  | send (r : SendRequest)
  /-- `GET /tips/{tip_id}` -/
  | get (authorization : Option String) (tipId : String)
  /-- `GET /tips`, and the order in which the database puts the rows -/
  | list (authorization direction : Option String) (limit offset : ℤ) (order : List Tip)

inductive Reply where
  | tip (answer : Answer)
  | tips (data : Option (List TipOut))

def respond (env : Env) (tips : List Tip) : Request → List Tip × Reply
  | .send r => ((sendTip env tips r).2, .tip (sendTip env tips r).1)
  | .get authorization tipId => (tips, .tip (getTip env tips authorization tipId))
  | .list authorization direction limit offset order =>
    (tips, .tips (listTips env tips authorization direction limit offset order))

def Request.authorization : Request → Option String
  | .send r => r.authorization
  | .get authorization _ => authorization
  | .list authorization .. => authorization

/-- the tips in a reply -/
def Reply.shown : Reply → List TipOut
  | .tip (.created t) | .tip (.ok t) => [t]
  | .tip (.error ..) => []
  | .tips data => data.getD []

/-! ## What concerns a user -/

/-- the request is the user's own -/
def own (env : Env) (userId : String) (q : Request) : Bool := env.getUserId q.authorization = some userId

/-- the request is the user's own, or sends the user a tip -/
def concerns (env : Env) (userId : String) : Request → Bool
  | .send r => own env userId (.send r) || r.body.recipientId = userId
  | q => own env userId q

/-- the user sent or received the tip -/
def involves (userId : String) (t : Tip) : Bool := t.senderId = userId || t.recipientId = userId

/-- a tip gets an id that no stored tip has -/
def NewId (tips : List Tip) : Request → Prop
  | .send r => ∀ t ∈ tips, t.tipId ≠ Uuid.toString r.id
  | _ => True

instance (tips : List Tip) (q : Request) : Decidable (NewId tips q) := by
  cases q with
  | send r => exact inferInstanceAs (Decidable (∀ t ∈ tips, t.tipId ≠ Uuid.toString r.id))
  | _ => exact isTrue trivial

/-- the second table is what the first one has about the user -/
structure View (userId : String) (tips part : List Tip) : Prop where
  keys : (tips.map Tip.tipId).Nodup
  part : part = tips.filter (involves userId)

variable {env : Env} {userId : String} {tips : List Tip}

/-! ## One request -/

/-- what a request to send a tip does: the table stays, or gets the row of its sender and its recipient -/
theorem sendTip_cases (env : Env) (tips : List Tip) (r : SendRequest) :
    (sendTip env tips r).2 = tips ∨
      ∃ row, (sendTip env tips r).2 = tips ++ [row] ∧ env.getUserId r.authorization = some row.senderId ∧
        row.recipientId = r.body.recipientId := by
  unfold sendTip
  cases hu : env.getUserId r.authorization with
  | none => exact .inl rfl
  | some senderId =>
    dsimp only
    split_ifs
    · exact .inl rfl
    · exact .inl rfl
    · split
      · exact .inl rfl
      · next row hrow =>
        obtain ⟨-, -, -, -, hsender, hrecipient, -⟩ := insert_eq_some hrow
        exact .inr ⟨row, rfl, congrArg some (text_eq_some.1 hsender).1.symm, (text_eq_some.1 hrecipient).1⟩

/-- whether a tip with a new id is stored does not depend on the other rows -/
theorem insert_congr (env : Env) {part : List Tip} {tip : Tip} (h : ∀ t ∈ tips, t.tipId ≠ tip.tipId)
    (h' : ∀ t ∈ part, t.tipId ≠ tip.tipId) : insert env tips tip = insert env part tip := by
  have hnew : ∀ rows : List Tip, (∀ t ∈ rows, t.tipId ≠ tip.tipId) → (rows.any fun t => t.tipId = tip.tipId) = false := by
    intro rows hrows
    rw [List.any_eq_false]
    intro t ht
    simpa using hrows t ht
  unfold insert
  rw [hnew tips h, hnew part h']

theorem sendTip_congr (env : Env) {part : List Tip} {r : SendRequest} (h : ∀ t ∈ tips, t.tipId ≠ Uuid.toString r.id)
    (h' : ∀ t ∈ part, t.tipId ≠ Uuid.toString r.id) :
    (sendTip env tips r).1 = (sendTip env part r).1 ∧
      ∃ added, (sendTip env tips r).2 = tips ++ added ∧ (sendTip env part r).2 = part ++ added := by
  unfold sendTip
  cases env.getUserId r.authorization with
  | none => exact ⟨rfl, [], by simp⟩
  | some senderId =>
    dsimp only
    split_ifs
    · exact ⟨rfl, [], by simp⟩
    · exact ⟨rfl, [], by simp⟩
    · have hsame : insert env tips (requested r senderId) = insert env part (requested r senderId) := insert_congr env h h'
      unfold requested at hsame
      rw [hsame]
      cases insert env part _ with
      | none => exact ⟨rfl, [], by simp⟩
      | some row => exact ⟨rfl, [row], rfl, rfl⟩

/-- a tip is found among those of its sender and its recipient, if it is found at all -/
theorem getTip_part (h : (tips.map Tip.tipId).Nodup) {authorization : Option String}
    (hu : env.getUserId authorization = some userId) (tipId : String) :
    getTip env tips authorization tipId = getTip env (tips.filter (involves userId)) authorization tipId := by
  unfold getTip
  rw [hu]
  dsimp only
  cases text tipId with
  | none => rfl
  | some tipId =>
  dsimp only
  cases hfull : tips.find? fun t => t.tipId = tipId with
  | none =>
    have hpart : (tips.filter (involves userId)).find? (fun t => t.tipId = tipId) = none := by
      rw [List.find?_eq_none] at hfull ⊢
      exact fun t ht => hfull t (List.mem_filter.1 ht).1
    rw [hpart]
  | some result =>
    obtain ⟨hmem, hid⟩ := find?_some_iff_mem hfull
    by_cases hinvolved : involves userId result = true
    · have hpart : (tips.filter (involves userId)).find? (fun t => t.tipId = tipId) = some result := by
        refine find?_eq_of_unique (List.mem_filter.2 ⟨hmem, hinvolved⟩) hid fun y hy hp => ?_
        refine eq_of_key h (List.mem_filter.1 hy).1 hmem ?_
        exact (of_decide_eq_true hp).trans (of_decide_eq_true hid).symm
      rw [hpart]
    · -- the only tip with this id is somebody else's: not found either way
      have hpart : (tips.filter (involves userId)).find? (fun t => t.tipId = tipId) = none := by
        rw [List.find?_eq_none]
        intro t ht hp
        obtain ⟨ht, hti⟩ := List.mem_filter.1 ht
        have : t = result := eq_of_key h ht hmem ((of_decide_eq_true hp).trans (of_decide_eq_true hid).symm)
        exact hinvolved (this ▸ hti)
      rw [hpart]
      have hforeign : result.senderId ≠ userId ∧ result.recipientId ≠ userId := by
        simpa [involves] using hinvolved
      exact if_pos hforeign

theorem matching_part (direction : Option String) :
    matching userId direction (tips.filter (involves userId)) = matching userId direction tips := by
  unfold matching
  rw [List.filter_filter]
  refine List.filter_congr fun t _ => ?_
  unfold involves
  split_ifs <;> grind

theorem listTips_part {authorization : Option String} (hu : env.getUserId authorization = some userId)
    (direction : Option String) (limit offset : ℤ) (order : List Tip) :
    listTips env tips authorization direction limit offset order =
      listTips env (tips.filter (involves userId)) authorization direction limit offset order := by
  unfold listTips
  rw [hu]
  simp only [Option.bind_eq_bind, Option.bind_some]
  rw [matching_part]

/-! ## The two runs -/

/-- a tip concerns a user as the request for it does -/
theorem involves_row {r : SendRequest} {row : Tip} (hsender : env.getUserId r.authorization = some row.senderId)
    (hrecipient : row.recipientId = r.body.recipientId) : involves userId row = concerns env userId (.send r) := by
  simp [involves, concerns, own, Request.authorization, hsender, hrecipient]

theorem View.send (env : Env) {part : List Tip} (h : View userId tips part) {r : SendRequest} (hnew : NewId tips (.send r))
    (hconcerns : concerns env userId (.send r) = true) :
    View userId (sendTip env tips r).2 (sendTip env part r).2 ∧ (sendTip env tips r).1 = (sendTip env part r).1 := by
  have hnew' : ∀ t ∈ part, t.tipId ≠ Uuid.toString r.id := by
    rw [h.part]
    exact fun t ht => hnew t (List.mem_filter.1 ht).1
  obtain ⟨hsame, added, htips, hpart⟩ := sendTip_congr env hnew hnew'
  refine ⟨⟨step_keys h.keys r, ?_⟩, hsame⟩
  rw [hpart, htips, List.filter_append, h.part]
  congr 1
  -- a row that is added concerns the user
  rcases sendTip_cases env tips r with hkept | ⟨row, hrow, hsender, hrecipient⟩
  · rw [htips, List.append_right_eq_self] at hkept
    rw [hkept]
    rfl
  · rw [htips, List.append_cancel_left_eq] at hrow
    rw [hrow, List.filter_cons_of_pos ((involves_row hsender hrecipient).trans hconcerns)]
    rfl

/-- a tip between others leaves the view as it is -/
theorem View.foreign {part : List Tip} (h : View userId tips part) {r : SendRequest}
    (hforeign : concerns env userId (.send r) = false) : View userId (sendTip env tips r).2 part := by
  refine ⟨step_keys h.keys r, ?_⟩
  rcases sendTip_cases env tips r with hkept | ⟨row, hrow, hsender, hrecipient⟩
  · rw [hkept]
    exact h.part
  · have hapart : involves userId row = false := (involves_row hsender hrecipient).trans hforeign
    rw [hrow, List.filter_append, List.filter_cons_of_neg (by simp [hapart]), List.filter_nil, List.append_nil]
    exact h.part

theorem respond_kept {part : List Tip} (h : View userId tips part) {q : Request} (hnew : NewId tips q)
    (hkept : concerns env userId q = true) :
    View userId (respond env tips q).1 (respond env part q).1 ∧
      (own env userId q = true → (respond env tips q).2 = (respond env part q).2) := by
  cases q with
  | send r =>
    obtain ⟨hview, hsame⟩ := View.send env h hnew hkept
    exact ⟨hview, fun _ => congrArg Reply.tip hsame⟩
  | get authorization tipId =>
    refine ⟨h, fun hown => congrArg Reply.tip ?_⟩
    rw [h.part]
    exact getTip_part h.keys (of_decide_eq_true hown) tipId
  | list authorization direction limit offset order =>
    refine ⟨h, fun hown => congrArg Reply.tips ?_⟩
    rw [h.part]
    exact listTips_part (of_decide_eq_true hown) direction limit offset order

theorem respond_purged {part : List Tip} (h : View userId tips part) {q : Request}
    (hforeign : concerns env userId q = false) : View userId (respond env tips q).1 part := by
  cases q with
  | send r => exact h.foreign hforeign
  | get => exact h
  | list => exact h

/-! ## What a user is shown -/

/-- the user sent or received the tip that is shown -/
def Shows (userId : String) (tip : TipOut) : Prop := tip.senderId = userId ∨ tip.recipientId = userId

theorem sendTip_shown {r : SendRequest} (hu : env.getUserId r.authorization = some userId) :
    ∀ tip ∈ (Reply.tip (sendTip env tips r).1).shown, Shows userId tip := by
  intro tip htip
  unfold sendTip at htip
  rw [hu] at htip
  dsimp only at htip
  split_ifs at htip
  · cases htip
  · cases htip
  · cases hrow : insert env tips ⟨Uuid.toString r.id, userId, r.body.recipientId, r.body.amountCents, r.body.currency,
        r.body.message, r.now⟩ with
    | none =>
      rw [hrow] at htip
      cases htip
    | some row =>
      rw [hrow] at htip
      obtain ⟨-, -, -, -, hsender, -⟩ := insert_eq_some hrow
      rw [List.mem_singleton.1 htip]
      exact .inl (text_eq_some.1 hsender).1

theorem getTip_shown {authorization : Option String} (hu : env.getUserId authorization = some userId) (tipId : String) :
    ∀ tip ∈ (Reply.tip (getTip env tips authorization tipId)).shown, Shows userId tip := by
  intro tip htip
  unfold getTip at htip
  rw [hu] at htip
  dsimp only at htip
  cases htext : text tipId with
  | none =>
    rw [htext] at htip
    cases htip
  | some tipId =>
  rw [htext] at htip
  dsimp only at htip
  cases hfound : tips.find? fun t => t.tipId = tipId with
  | none =>
    rw [hfound] at htip
    cases htip
  | some result =>
    rw [hfound] at htip
    dsimp only at htip
    split_ifs at htip with hforeign
    · cases htip
    · rw [List.mem_singleton.1 htip]
      change result.senderId = userId ∨ result.recipientId = userId
      tauto

theorem listTips_shown {authorization : Option String} (hu : env.getUserId authorization = some userId)
    (direction : Option String) (limit offset : ℤ) (order : List Tip) :
    ∀ tip ∈ (Reply.tips (listTips env tips authorization direction limit offset order)).shown, Shows userId tip := by
  intro tip htip
  cases hdata : listTips env tips authorization direction limit offset order with
  | none =>
    rw [hdata] at htip
    cases htip
  | some data =>
    rw [hdata] at htip
    obtain ⟨u, hu', hordered, rfl⟩ := listTips_eq_some hdata
    rw [hu] at hu'
    cases hu'
    have hmem : tip ∈ order.map toOut := List.mem_of_mem_drop (List.mem_of_mem_take htip)
    obtain ⟨t, ht, rfl⟩ := List.mem_map.1 hmem
    obtain ⟨-, hdirection⟩ := List.mem_filter.1 (hordered.1.mem_iff.1 ht)
    change t.senderId = userId ∨ t.recipientId = userId
    split_ifs at hdirection
    · exact .inl (of_decide_eq_true hdirection)
    · exact .inr (of_decide_eq_true hdirection)
    · simpa using hdirection

theorem respond_shown {q : Request} (hown : own env userId q = true) :
    ∀ tip ∈ (respond env tips q).2.shown, Shows userId tip := by
  have hu : env.getUserId q.authorization = some userId := of_decide_eq_true hown
  cases q with
  | send r => exact sendTip_shown hu
  | get authorization tipId => exact getTip_shown hu tipId
  | list authorization direction limit offset order => exact listTips_shown hu direction limit offset order

/-- **Tips are private.** Over every run of requests of anybody, in which each tip gets an id of its own, what a user is
answered shows only tips that the user sent or received, and is exactly what it would be if nobody else had asked for
anything or sent a tip to anybody but that user. -/
theorem tips_private (env : Env) (userId : String) {requests : List Request}
    (hnew : Along (fun tips q => (respond env tips q).1) NewId [] requests) :
    (∀ reply ∈ answers (respond env) (own env userId) [] requests, ∀ tip ∈ reply.shown, Shows userId tip) ∧
    answers (respond env) (own env userId) [] requests =
      answers (respond env) (own env userId) [] (requests.filter (concerns env userId)) := by
  have hshown : ∀ tips q, own env userId q = true → ∀ tip ∈ (respond env tips q).2.shown, Shows userId tip :=
    fun _ _ hown => respond_shown hown
  refine ⟨fun reply hreply => @answers_forall _ _ _ _ _ (fun reply => ∀ tip ∈ reply.shown, Shows userId tip) hshown _ _ _
    hreply, ?_⟩
  have hown : ∀ q, own env userId q = true → concerns env userId q = true := by
    intro q hq
    cases q with
    | send r => simp [concerns, hq]
    | get => exact hq
    | list => exact hq
  have hstart : View userId [] [] := ⟨List.nodup_nil, rfl⟩
  exact @answers_purge _ _ _ (respond env) _ _ NewId (View userId) hown (fun _ _ _ h hC hk => respond_kept h hC hk)
    (fun _ _ _ h _ hk => respond_purged h hk) _ _ _ hstart hnew

/-- alice tips bob, carol tips dave, and bob asks for both tips -/
def fourPeople : List Request :=
  [.send ⟨some "Bearer alice", { recipientId := "bob", amountCents := 500 }, 1, 0⟩,
    .send ⟨some "Bearer carol", { recipientId := "dave", amountCents := 700 }, 2, 1⟩,
    .get (some "Bearer bob") (Uuid.toString 1), .get (some "Bearer bob") (Uuid.toString 2)]

theorem fourPeople_private :
    (fourPeople.filter (concerns byName "bob")).length = 3 ∧
    answers (respond byName) (own byName "bob") [] fourPeople =
      answers (respond byName) (own byName "bob") [] (fourPeople.filter (concerns byName "bob")) :=
  ⟨by decide, (tips_private byName "bob" (by decide)).2⟩

end Concordia.Tips
