/-
One `broadcast` while other coroutines connect and disconnect (`services/voice/signaling.py`), as `join_voice_channel` and
`leave_voice_channel` of `main.py` await it after their Redis writes.

`broadcast` iterates over the channel's dictionary in the registry and is suspended in each send; then any sequence of
`connect` and `disconnect`, on any channel, may run. The dictionary is an object: when its last user goes it leaves the
registry and stays empty, and later users of the channel are in a new one.

- `notifies_iff`: broadcast raises nothing, ends, and sends once to each user who is registered throughout, iff whenever
  its loop goes on nobody has been added to or removed from the dictionary since it began.
- `change_connect_again`: a user who connects again is neither.
- `sent_alone`: with no changes it sends to the registry's recipients.
- `answered_500`: somebody connects while a join is announced.
-/
import Concordia.Lib.DictIterator
import Concordia.Voice.System

namespace Concordia.Voice.Broadcast

open Concordia.Lib Concordia.Voice

/-! ## Model -/

/-- what another coroutine does to the registry -/
inductive Change (σ : Type) where
  | connect (channelId userId : String) (websocket : σ)
  | disconnect (channelId userId : String)

inductive Phase where
  /-- before the loop's next item -/
  | looping
  /-- in `await ws.send_json(message)` -/
  | sending
  | finished
  /-- RuntimeError -/
  | raised
  /-- Python leaves open how the iteration goes on -/
  | unspecified
deriving DecidableEq, Repr

structure St (σ : Type) where
  active : Registry σ
  /-- `channel_conns` is the channel's entry in the registry -/
  attached : Bool
  iterator : DictIterator
  phase : Phase
  /-- the users whose socket `send_json` has been called on -/
  sent : List (String × σ)
  /-- how often the loop has gone on -/
  turns : ℕ

inductive Op (σ : Type) where
  /-- the loop goes on -/
  | next
  /-- the send has ended, or has failed -/
  | sent
  | change (ch : Change σ)

section

variable {σ : Type} (channelId : String) (excludeUserId : Option String)

/-- `channel_conns`: without an entry a dictionary of its own, and an entry that has been deleted was empty -/
def St.conns (s : St σ) : Dict String σ := if s.attached then (s.active.get channelId).getD Dict.empty else Dict.empty

def begin (r : Registry σ) : St σ :=
  ⟨r, (r.get channelId).isSome, .begin ((r.get channelId).getD Dict.empty), .looping, [], 0⟩

def Change.apply (r : Registry σ) : Change σ → Registry σ
  | .connect c u ws => r.connect c u ws
  | .disconnect c u => r.disconnect c u

/-- another coroutine's change; an entry that is deleted never comes back as the same dictionary -/
def St.change (s : St σ) (ch : Change σ) : St σ :=
  let s' := { s with active := ch.apply s.active, attached := s.attached && ((ch.apply s.active).get channelId).isSome }
  { s' with iterator := s.iterator.watch (s.conns channelId) (s'.conns channelId) }

def St.next (s : St σ) : St σ :=
  let s := { s with turns := s.turns + 1 }
  match s.iterator.next (s.conns channelId) with
  | .item uid ws =>
    if some uid = excludeUserId then { s with iterator := s.iterator.advance }
    else { s with iterator := s.iterator.advance, phase := .sending, sent := s.sent ++ [(uid, ws)] }
  | .stop => { s with phase := .finished }
  | .runtimeError => { s with phase := .raised }
  | .unspecified => { s with phase := .unspecified }

/-- no other coroutine runs while the loop does -/
def step (s : St σ) : Op σ → St σ
  | .next => if s.phase = .looping then s.next channelId excludeUserId else s
  | .sent => if s.phase = .sending then { s with phase := .looping } else s
  | .change ch => if s.phase = .looping then s else s.change channelId ch

def reached (r : Registry σ) (ops : List (Op σ)) : St σ := run (step channelId excludeUserId) (begin channelId r) ops

/-- the users registered for the channel -/
def users (r : Registry σ) : List String := ((r.get channelId).getD Dict.empty).keys

inductive Request where
  | join
  | leave
deriving DecidableEq, Repr

/-- the status of the request that awaits the broadcast -/
def Request.status (req : Request) : Phase → Option ℕ
  | .finished => some (match req with | .join => 200 | .leave => 204)
  | .raised => some 500
  | .looping | .sending | .unspecified => none

/-! ## Properties -/

/-- what broadcast promises in every state of a run -/
structure Notifies (r : Registry σ) (ops : List (Op σ)) : Prop where
  /-- it raises nothing, and Python does not leave open what it does -/
  safe : ∀ a, a <+: ops → (reached channelId excludeUserId r a).phase ≠ .raised ∧
    (reached channelId excludeUserId r a).phase ≠ .unspecified
  answered : ∀ a, a <+: ops → ∀ req : Request, req.status (reached channelId excludeUserId r a).phase ≠ some 500
  /-- it ends when its loop has gone on once for each user and once more -/
  ends : ∀ a, a <+: ops → (users channelId r).length < (reached channelId excludeUserId r a).turns →
    (reached channelId excludeUserId r a).phase = .finished
  /-- once it has ended, each user registered throughout has been sent the message once -/
  once : ∀ a, a <+: ops → (reached channelId excludeUserId r a).phase = .finished → ∀ u, some u ≠ excludeUserId →
    (∀ b, b <+: a → (reached channelId excludeUserId r b).active.peer channelId u ≠ none) →
    ((reached channelId excludeUserId r a).sent.map Prod.fst).count u = 1

/-- where the loop goes on, nobody has been added to or removed from its dictionary since it began -/
def Undisturbed (s : St σ) : Op σ → Prop
  | .next => s.phase = .looping → s.iterator.disturbed = false
  | _ => True

/-! ## Invariant -/

/-- a broadcast that began with these users -/
structure Invariant (keys : List String) (s : St σ) : Prop where
  follows : s.iterator.Follows keys (s.conns channelId)
  sent : s.sent.map Prod.fst = (keys.take s.iterator.position).filter fun u => some u ≠ excludeUserId
  finished : s.phase = .finished → s.iterator.position = keys.length
  turns : s.turns ≤ s.iterator.position + if s.phase = .finished then 1 else 0

variable {channelId excludeUserId} {keys : List String} {s : St σ}

theorem conns_begin (r : Registry σ) : (begin channelId r).conns channelId = (r.get channelId).getD Dict.empty := by
  unfold St.conns begin
  cases r.get channelId <;> rfl

theorem invariant_begin (r : Registry σ) : Invariant channelId excludeUserId (users channelId r) (begin channelId r) := by
  refine ⟨?_, rfl, nofun, Nat.zero_le _⟩
  rw [conns_begin]
  exact DictIterator.follows_begin _

/-- an undisturbed loop passes over the excluded user, or sends, or ends -/
theorem next_cases (h : Invariant channelId excludeUserId keys s) (hd : s.iterator.disturbed = false) :
    (∃ uid, keys[s.iterator.position]? = some uid ∧ some uid = excludeUserId ∧
      s.next channelId excludeUserId = { s with turns := s.turns + 1, iterator := s.iterator.advance }) ∨
    (∃ uid ws, keys[s.iterator.position]? = some uid ∧ some uid ≠ excludeUserId ∧
      s.next channelId excludeUserId = { s with
        turns := s.turns + 1
        iterator := s.iterator.advance
        phase := .sending
        sent := s.sent ++ [(uid, ws)] }) ∨
    (s.iterator.position = keys.length ∧
      s.next channelId excludeUserId = { s with turns := s.turns + 1, phase := .finished }) := by
  have hconns : ({ s with turns := s.turns + 1 } : St σ).conns channelId = s.conns channelId := rfl
  unfold St.next
  simp only [hconns]
  rcases h.follows.next hd with ⟨uid, ws, hnext, hkey, -⟩ | ⟨hnext, hend⟩
  · rw [hnext]
    by_cases huid : some uid = excludeUserId
    · exact .inl ⟨uid, hkey, huid, if_pos huid⟩
    · exact .inr (.inl ⟨uid, ws, hkey, huid, if_neg huid⟩)
  · rw [hnext]
    exact .inr (.inr ⟨hend, rfl⟩)

theorem take_position {it : DictIterator} {uid : String} (hkey : keys[it.position]? = some uid) :
    keys.take it.advance.position = keys.take it.position ++ [uid] := by
  rw [DictIterator.advance, List.take_add_one, hkey]
  rfl

theorem Invariant.next (h : Invariant channelId excludeUserId keys s) (hlooping : s.phase = .looping)
    (hd : s.iterator.disturbed = false) : Invariant channelId excludeUserId keys (s.next channelId excludeUserId) := by
  have hturns : s.turns ≤ s.iterator.position := by simpa [hlooping] using h.turns
  rcases next_cases h hd with ⟨uid, hkey, hexcluded, heq⟩ | ⟨uid, ws, hkey, hothers, heq⟩ | ⟨hend, heq⟩
  · rw [heq]
    refine ⟨h.follows.advance hkey, ?_, fun hf => absurd (hlooping.symm.trans hf) (by decide), ?_⟩
    · rw [take_position hkey, List.filter_append, h.sent]
      simp [hexcluded]
    · simpa [hlooping, DictIterator.advance] using hturns
  · rw [heq]
    refine ⟨h.follows.advance hkey, ?_, nofun, ?_⟩
    · rw [take_position hkey, List.filter_append, List.map_append, h.sent]
      simp [hothers]
    · simpa [DictIterator.advance] using hturns
  · rw [heq]
    exact ⟨h.follows, h.sent, fun _ => hend, by simpa using hturns⟩

theorem Invariant.step (h : Invariant channelId excludeUserId keys s) {o : Op σ} (hu : Undisturbed s o) :
    Invariant channelId excludeUserId keys (step channelId excludeUserId s o) := by
  cases o with
  | next =>
    simp only [Broadcast.step]
    split_ifs with hlooping
    · exact h.next hlooping (hu hlooping)
    · exact h
  | sent =>
    simp only [Broadcast.step]
    split_ifs with hsending
    · refine ⟨h.follows, h.sent, nofun, ?_⟩
      simpa [hsending] using h.turns
    · exact h
  | change ch =>
    simp only [Broadcast.step]
    split_ifs with hlooping
    · exact h
    · exact ⟨h.follows.watch _, h.sent, h.finished, h.turns⟩

/-- a user of the dictionary who connects again, on another socket, disturbs nothing -/
theorem change_connect_again (hattached : s.attached = true) {u : String} (hu : u ∈ users channelId s.active) (ws : σ) :
    (s.change channelId (.connect channelId u ws)).iterator = s.iterator := by
  have hentry : ∃ conns, s.active.get channelId = some conns := by
    rw [← Option.isSome_iff_exists, Option.isSome_iff_ne_none]
    intro hnone
    rw [users, hnone] at hu
    cases hu
  obtain ⟨conns, hconns⟩ := hentry
  rw [users, hconns, Option.getD_some] at hu
  simp only [St.change, St.conns, Change.apply, Registry.connect, hattached, hconns, Option.isSome_some, if_true,
    Dict.get_set_self, Bool.and_self, Option.getD_some]
  exact DictIterator.watch_set hu ws

/-! ## Runs -/

def Safe (s : St σ) : Prop := s.phase ≠ .raised ∧ s.phase ≠ .unspecified

theorem safe_step_iff (h : Invariant channelId excludeUserId keys s) (hsafe : Safe s) (o : Op σ) :
    Safe (step channelId excludeUserId s o) ↔ Undisturbed s o := by
  cases o with
  | sent =>
    refine iff_of_true ?_ trivial
    simp only [step]
    split_ifs
    · exact ⟨nofun, nofun⟩
    · exact hsafe
  | change ch =>
    refine iff_of_true ?_ trivial
    simp only [step]
    split_ifs
    · exact hsafe
    · exact hsafe
  | next =>
    simp only [step]
    split_ifs with hlooping
    swap
    · exact iff_of_true hsafe fun hl => absurd hl hlooping
    cases hd : s.iterator.disturbed with
    | false =>
      refine iff_of_true ?_ fun _ => hd
      rcases next_cases h hd with ⟨uid, -, -, heq⟩ | ⟨uid, ws, -, -, heq⟩ | ⟨-, heq⟩
      · rw [heq]
        exact hsafe
      · rw [heq]
        exact ⟨nofun, nofun⟩
      · rw [heq]
        exact ⟨nofun, nofun⟩
    | true =>
      refine iff_of_false ?_ fun hu => by rw [hu hlooping] at hd; cases hd
      have hconns : ({ s with turns := s.turns + 1 } : St σ).conns channelId = s.conns channelId := rfl
      unfold St.next
      simp only [hconns]
      rcases DictIterator.next_disturbed (d := s.conns channelId) hd with hnext | hnext
      · rw [hnext]
        exact fun hs => hs.1 rfl
      · rw [hnext]
        exact fun hs => hs.2 rfl

theorem safe_iff (r : Registry σ) (ops : List (Op σ)) : (∀ a, a <+: ops → Safe (reached channelId excludeUserId r a)) ↔
    Along (step channelId excludeUserId) Undisturbed (begin channelId r) ops :=
  always_iff_along (I := Invariant channelId excludeUserId (users channelId r)) (P := Safe)
    (fun _ o h hsafe => safe_step_iff h hsafe o) (fun _ _ h _ hu => h.step hu) (invariant_begin r) ⟨nofun, nofun⟩ ops

theorem invariant_reached (r : Registry σ) {ops : List (Op σ)}
    (h : Along (step channelId excludeUserId) Undisturbed (begin channelId r) ops) :
    Invariant channelId excludeUserId (users channelId r) (reached channelId excludeUserId r ops) :=
  run_inv (fun _ _ hi hu => hi.step hu) (invariant_begin r) h

/-- the users registered at the beginning -/
theorem mem_users {r : Registry σ} {u : String} : u ∈ users channelId r ↔ r.peer channelId u ≠ none := by
  unfold users Registry.peer Dict.keys
  cases r.get channelId with
  | none => simp [Dict.empty]
  | some conns => simp [Dict.get_eq_none]

theorem nodup_users (r : Registry σ) : (users channelId r).Nodup := ((r.get channelId).getD Dict.empty).nodup

/-- **Broadcast notifies** iff whenever its loop goes on nobody has been added to or removed from its dictionary. -/
theorem notifies_iff (channelId : String) (excludeUserId : Option String) (r : Registry σ) (ops : List (Op σ)) :
    Notifies channelId excludeUserId r ops ↔
      Along (step channelId excludeUserId) Undisturbed (begin channelId r) ops := by
  refine ⟨fun h => (safe_iff r ops).1 h.safe, fun h => ?_⟩
  have hprefix : ∀ {a}, a <+: ops →
      Invariant channelId excludeUserId (users channelId r) (reached channelId excludeUserId r a) := by
    rintro a ⟨b, rfl⟩
    exact invariant_reached r (along_append.1 h).1
  have hsafe := (safe_iff r ops).2 h
  refine ⟨hsafe, ?_, ?_, ?_⟩
  · intro a ha req
    cases hp : (reached channelId excludeUserId r a).phase with
    | raised => exact absurd hp (hsafe a ha).1
    | finished => cases req <;> simp [Request.status]
    | looping | sending | unspecified => simp [Request.status]
  · intro a ha hturns
    have hi := hprefix ha
    by_contra hnot
    have hle := hi.turns
    rw [if_neg hnot] at hle
    have := hi.follows.position
    omega
  · intro a ha hfin u hu hthroughout
    have hi := hprefix ha
    have hmem : u ∈ users channelId r := mem_users.2 (hthroughout [] List.nil_prefix)
    rw [hi.sent, hi.finished hfin, List.take_length, List.count_filter (by simpa using hu)]
    exact List.count_eq_one_of_mem (nodup_users r) hmem

/-! ## Without changes -/

/-- a broadcast during which nothing has changed -/
structure Alone (channelId : String) (excludeUserId : Option String) (r : Registry σ) (s : St σ) : Prop where
  conns : s.conns channelId = (r.get channelId).getD Dict.empty
  undisturbed : s.iterator.disturbed = false
  follows : s.iterator.Follows (users channelId r) (s.conns channelId)
  sent : s.sent = (((r.get channelId).getD Dict.empty).items.take s.iterator.position).filter
    fun p => some p.1 ≠ excludeUserId
  finished : s.phase = .finished → s.iterator.position = (users channelId r).length

theorem alone_begin (r : Registry σ) : Alone channelId excludeUserId r (begin channelId r) := by
  refine ⟨conns_begin r, rfl, ?_, rfl, nofun⟩
  rw [conns_begin]
  exact DictIterator.follows_begin _

theorem Alone.next {r : Registry σ} (h : Alone channelId excludeUserId r s) (hlooping : s.phase = .looping) :
    Alone channelId excludeUserId r (s.next channelId excludeUserId) := by
  have hconns : ({ s with turns := s.turns + 1 } : St σ).conns channelId = s.conns channelId := rfl
  unfold St.next
  simp only [hconns]
  rcases h.follows.next h.undisturbed with ⟨uid, ws, hnext, hkey, hitem⟩ | ⟨hnext, hend⟩
  · rw [hnext]
    have htake : ((r.get channelId).getD Dict.empty).items.take s.iterator.advance.position =
        ((r.get channelId).getD Dict.empty).items.take s.iterator.position ++ [(uid, ws)] := by
      rw [DictIterator.advance, List.take_add_one, ← h.conns, hitem]
      rfl
    by_cases huid : some uid = excludeUserId
    · simp only [huid, if_true]
      refine ⟨h.conns, h.undisturbed, h.follows.advance hkey, ?_, fun hf => absurd (hlooping.symm.trans hf) (by decide)⟩
      rw [htake, List.filter_append, ← h.sent]
      simp [huid]
    · simp only [huid, if_false]
      refine ⟨h.conns, h.undisturbed, h.follows.advance hkey, ?_, nofun⟩
      rw [htake, List.filter_append, ← h.sent]
      simp [huid]
  · rw [hnext]
    exact ⟨h.conns, h.undisturbed, h.follows, h.sent, fun _ => hend⟩

/-- with no changes the message goes to the registry's recipients, in their order -/
theorem sent_alone (channelId exclude : String) (r : Registry σ) {ops : List (Op σ)} (h : ∀ o ∈ ops, ∀ ch, o ≠ .change ch)
    (hfin : (reached channelId (some exclude) r ops).phase = .finished) :
    (reached channelId (some exclude) r ops).sent = r.recipients channelId exclude := by
  have halone : Alone channelId (some exclude) r (reached channelId (some exclude) r ops) := by
    refine run_inv (C := fun _ o => ∀ ch, o ≠ .change ch) ?_ (alone_begin r) (along_of_mem h)
    intro s o hs ho
    cases o with
    | next =>
      simp only [step]
      split_ifs with hlooping
      · exact hs.next hlooping
      · exact hs
    | sent =>
      simp only [step]
      split_ifs
      · exact ⟨hs.conns, hs.undisturbed, hs.follows, hs.sent, nofun⟩
      · exact hs
    | change ch => exact absurd rfl (ho ch)
  have hlen : (users channelId r).length = ((r.get channelId).getD Dict.empty).items.length := by simp [users, Dict.keys]
  rw [halone.sent, halone.finished hfin, hlen, List.take_length, Registry.recipients]
  simp

/-- alice is being told that carol joins when bob connects: carol's request is answered 500 -/
theorem answered_500 : ∃ (r : Registry ℕ) (ops : List (Op ℕ)), ¬Notifies "lounge" (some "carol") r ops ∧
    Request.join.status (reached "lounge" (some "carol") r ops).phase = some 500 := by
  have hstatus : Request.join.status (reached "lounge" (some "carol") (Registry.connect Dict.empty "lounge" "alice" 0)
      [.next, .change (.connect "lounge" "bob" 1), .sent, .next]).phase = some 500 := by decide
  exact ⟨_, _, fun h => h.answered _ (List.prefix_refl _) .join hstatus, hstatus⟩

end

end Concordia.Voice.Broadcast
