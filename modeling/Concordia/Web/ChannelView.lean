/-
A text channel on the screen (`apps/web-app/app/components/ChannelView.tsx`): the messages that are not fetched, the sends
under way and the WebSocket with its reconnects.

- `navigate`: the `channelId` prop changes. The cleanup of the old socket effect and the effects of the new channel run in
  one go; events of sockets and timers come before or after.
- A socket and a timer keep the `connectWs` they were made by, which is to say its `channelId`. A socket on which `close()`
  was called is `closing` until its `onclose` runs, and gets no messages any more.
- A send keeps what `handleSend` has in its scope. The chat service answers with a message of the channel that was posted to
  and gives it a UUID.
- `view` counts the channels that were shown.

The component stays mounted. The header, the list of channels, the subscription frame that `onopen` sends and the messages
that are fetched (`MessageList`) are left out.
-/
import Concordia.Lib.Run
import Concordia.Web.Messages

namespace Concordia.Web.ChannelView

open Concordia.Lib

/-! ## Data -/

structure CurrentUser where
  userId : String
  username : String
deriving DecidableEq, Repr

inductive Outcome where
  | pending
  /-- the POST has succeeded with the created message -/
  | created (real : Message)
  | failed
deriving DecidableEq, Repr

/-- a call of `handleSend` -/
structure Send where
  tempId : MessageId
  channelId : String
  username : String
  view : ℕ
  outcome : Outcome
deriving DecidableEq, Repr

inductive ReadyState where
  | connecting
  | opened
  | closing
deriving DecidableEq, Repr

structure Socket where
  id : ℕ
  channelId : String
  readyState : ReadyState
deriving DecidableEq, Repr

def Socket.live (x : Socket) : Bool := x.readyState ≠ .closing

/-- a pending `setTimeout(connectWs, delay)` -/
structure Timer where
  id : ℕ
  channelId : String
  delay : ℕ
deriving DecidableEq, Repr

/-- what `connectWs` meets -/
inductive Connect where
  /-- no access token is stored -/
  | noToken
  /-- `new WebSocket` throws -/
  | throws
  | socket
deriving DecidableEq, Repr

structure St where
  channelId : String
  view : ℕ
  extraMessages : List Message
  sends : List Send
  alive : Bool
  wsRef : Option ℕ
  reconnectTimer : Option ℕ
  reconnectAttempts : ℕ
  /-- sockets whose `onclose` has not run -/
  sockets : List Socket
  timers : List Timer
  /-- sockets and timers made so far -/
  made : ℕ

inductive Op where
  | navigate (channelId : String) (connect : Connect)
  | handleSend (currentUser : Option CurrentUser) (content : String) (now : ℕ) (createdAt : String)
  /-- the POST of a send is answered; `none` is a body that is no JSON -/
  | answered (send status : ℕ) (real : Option Stored)
  /-- `apiFetch` throws -/
  | threw (send : ℕ)
  | onopen (socket : ℕ)
  | onmessage (socket : ℕ) (type : String) (payload : Stored)
  /-- the socket fails, and `onerror` calls `close`, or the server closes it -/
  | onerror (socket : ℕ)
  | onclose (socket : ℕ)
  | timeout (timer : ℕ) (connect : Connect)
deriving DecidableEq, Repr

/-! ## Steps -/

/-- exponential backoff: 1s, 2s, 4s, 8s, 16s, 30s (max) -/
def delay (reconnectAttempts : ℕ) : ℕ := min (1000 * 2 ^ reconnectAttempts) 30000

namespace St

/-- `reconnectTimer.current = setTimeout(connectWs, delay)` -/
def setTimeout (s : St) (channelId : String) (delay : ℕ) : St :=
  { s with timers := s.timers ++ [⟨s.made, channelId, delay⟩], reconnectTimer := some s.made, made := s.made + 1 }

def connectWs (s : St) (channelId : String) (connect : Connect) : St :=
  if s.alive then
    match connect with
    | .noToken => s.setTimeout channelId 2000
    | .throws => s
    | .socket =>
      { s with sockets := s.sockets ++ [⟨s.made, channelId, .connecting⟩], wsRef := some s.made, made := s.made + 1 }
  else s

/-- `ws.close()` -/
def close (s : St) (k : ℕ) : St :=
  { s with sockets := s.sockets.map fun x => if x.id = k then { x with readyState := .closing } else x }

/-- the cleanup of the socket effect -/
def cleanup (s : St) : St :=
  let cleared : St := { s with alive := false, timers := s.timers.filter fun t => some t.id ≠ s.reconnectTimer }
  match s.wsRef with
  | some k => cleared.close k
  | none => cleared

/-- `ws.onclose` -/
def onclose (s : St) (x : Socket) : St :=
  let closed : St := { s with sockets := s.sockets.filter (·.id ≠ x.id) }
  if s.alive then
    { closed.setTimeout x.channelId (delay s.reconnectAttempts) with reconnectAttempts := s.reconnectAttempts + 1 }
  else closed

def placeholder (s : St) (currentUser : CurrentUser) (content : String) (now : ℕ) (createdAt : String) : Message :=
  ⟨.opt now, s.channelId, currentUser.userId, content, createdAt, some currentUser.username⟩

/-- the answer to a POST is handled -/
def settle (s : St) (i : ℕ) (send : Send) (real : Option Message) : St :=
  match real with
  | some real =>
    { s with
      extraMessages := confirm send.tempId real send.username s.extraMessages
      sends := s.sends.set i { send with outcome := .created real } }
  | none =>
    { s with
      extraMessages := dropId send.tempId s.extraMessages
      sends := s.sends.set i { send with outcome := .failed } }

end St

/-- `res.ok || res.status === 201` -/
def created (status : ℕ) : Bool := (200 ≤ status ∧ status ≤ 299) ∨ status = 201

def step (s : St) : Op → St
  | .navigate channelId connect =>
    if channelId = s.channelId then s
    else ({ s.cleanup with channelId := channelId, view := s.view + 1, extraMessages := [], alive := true }).connectWs
      channelId connect
  | .handleSend currentUser content now createdAt =>
    match currentUser with
    | none => s
    | some user =>
      { s with
        extraMessages := s.extraMessages ++ [s.placeholder user content now createdAt]
        sends := s.sends ++ [⟨.opt now, s.channelId, user.username, s.view, .pending⟩] }
  | .answered i status real =>
    match s.sends[i]? with
    | some send =>
      if send.outcome = .pending then
        s.settle i send (if created status then real.map fun x => { x.toMessage with channelId := send.channelId } else none)
      else s
    | none => s
  | .threw i =>
    match s.sends[i]? with
    | some send => if send.outcome = .pending then s.settle i send none else s
    | none => s
  | .onopen k =>
    if ∃ x ∈ s.sockets, x.id = k ∧ x.readyState = .connecting then
      { s with
        reconnectAttempts := 0
        sockets := s.sockets.map fun x => if x.id = k then { x with readyState := .opened } else x }
    else s
  | .onmessage k type payload =>
    match s.sockets.find? (·.id = k) with
    | some x =>
      if x.readyState = .opened ∧ type = "new_message" ∧ payload.channelId = x.channelId then
        { s with extraMessages := appendNew payload.toMessage s.extraMessages }
      else s
    | none => s
  | .onerror k => s.close k
  | .onclose k =>
    match s.sockets.find? (·.id = k) with
    | some x => s.onclose x
    | none => s
  | .timeout t connect =>
    match s.timers.find? (·.id = t) with
    | some timer => { s with timers := s.timers.filter (·.id ≠ t) }.connectWs timer.channelId connect
    | none => s

/-- the component is mounted on a channel -/
def start (channelId : String) (connect : Connect) : St :=
  (St.mk channelId 0 [] [] true none none 0 [] [] 0).connectWs channelId connect

/-! ## What the steps leave alone -/

section

variable (s : St) (c : String) (connect : Connect) (k : ℕ)

@[simp] theorem connectWs_channelId : (s.connectWs c connect).channelId = s.channelId := by
  unfold St.connectWs
  cases connect <;> split_ifs <;> rfl

@[simp] theorem connectWs_view : (s.connectWs c connect).view = s.view := by
  unfold St.connectWs
  cases connect <;> split_ifs <;> rfl

@[simp] theorem connectWs_extraMessages : (s.connectWs c connect).extraMessages = s.extraMessages := by
  unfold St.connectWs
  cases connect <;> split_ifs <;> rfl

@[simp] theorem connectWs_sends : (s.connectWs c connect).sends = s.sends := by
  unfold St.connectWs
  cases connect <;> split_ifs <;> rfl

@[simp] theorem cleanup_sends : s.cleanup.sends = s.sends := by
  unfold St.cleanup
  cases s.wsRef <;> rfl

end

/-! ## What a step does to the messages and the sends -/

/-- when a call of `handleSend` that gets past its guard is started -/
def Op.startedAt : Op → Option ℕ
  | .handleSend (some _) _ now _ => some now
  | _ => none

/-- the message that comes from the chat service -/
def Op.brings : Op → Option Stored
  | .answered _ _ real => real
  | .onmessage _ _ payload => some payload
  | _ => none

inductive Change (s : St) : Op → St → Prop where
  | navigate {c : String} {connect : Connect} {s' : St} (view : s'.view = s.view + 1)
      (extraMessages : s'.extraMessages = []) (sends : s'.sends = s.sends) : Change s (.navigate c connect) s'
  | handleSend (user : CurrentUser) (content : String) (now : ℕ) (createdAt : String) :
      Change s (.handleSend (some user) content now createdAt)
        { s with
          extraMessages := s.extraMessages ++ [s.placeholder user content now createdAt]
          sends := s.sends ++ [⟨.opt now, s.channelId, user.username, s.view, .pending⟩] }
  | settle {o : Op} {i : ℕ} {send : Send} {real : Option Message} (at_i : s.sends[i]? = some send)
      (pending : send.outcome = .pending) (start : o.startedAt = none)
      (brings : ∀ r, real = some r → ∃ x, o.brings = some x ∧ r.messageId = .stored x.messageId) :
      Change s o (s.settle i send real)
  | onmessage (k : ℕ) (type : String) (payload : Stored) :
      Change s (.onmessage k type payload) { s with extraMessages := appendNew payload.toMessage s.extraMessages }
  | quiet {o : Op} {s' : St} (start : o.startedAt = none) (view : s'.view = s.view)
      (extraMessages : s'.extraMessages = s.extraMessages) (sends : s'.sends = s.sends) : Change s o s'

theorem step_change (s : St) (o : Op) : Change s o (step s o) := by
  cases o with
  | navigate c connect =>
    simp only [step]
    split_ifs
    · exact .quiet rfl rfl rfl rfl
    · exact .navigate (by simp) (by simp) (by simp)
  | handleSend currentUser content now createdAt =>
    cases currentUser with
    | none => exact .quiet rfl rfl rfl rfl
    | some user => exact .handleSend user content now createdAt
  | answered i status real =>
    simp only [step]
    split
    · next send hi =>
      split_ifs with hpending
      · refine .settle hi hpending rfl fun r hr => ?_
        obtain ⟨x, hx, rfl⟩ := Option.map_eq_some_iff.1 hr
        exact ⟨x, hx, rfl⟩
      · exact .settle hi hpending rfl nofun
      · exact .quiet rfl rfl rfl rfl
    · exact .quiet rfl rfl rfl rfl
  | threw i =>
    simp only [step]
    split
    · next send hi =>
      split_ifs with hpending
      · exact .settle hi hpending rfl nofun
      · exact .quiet rfl rfl rfl rfl
    · exact .quiet rfl rfl rfl rfl
  | onopen k =>
    simp only [step]
    split_ifs <;> exact .quiet rfl rfl rfl rfl
  | onmessage k type payload =>
    simp only [step]
    split
    · split_ifs
      · exact .onmessage k type payload
      · exact .quiet rfl rfl rfl rfl
    · exact .quiet rfl rfl rfl rfl
  | onerror k => exact .quiet rfl rfl rfl rfl
  | onclose k =>
    simp only [step, St.onclose]
    split
    · split_ifs <;> exact .quiet rfl rfl rfl rfl
    · exact .quiet rfl rfl rfl rfl
  | timeout t connect =>
    simp only [step]
    split
    · exact .quiet rfl (by simp) (by simp) (by simp)
    · exact .quiet rfl rfl rfl rfl

/-! ## What a step does to the sockets -/

/-- sockets have numbers of their own -/
structure Numbered (s : St) : Prop where
  nodup : (s.sockets.map Socket.id).Nodup
  made : ∀ x ∈ s.sockets, x.id < s.made

/-- a socket is one of before, of the same channel and live only if it was, or it is a new one -/
structure Follows (s t : St) : Prop where
  numbered : Numbered t
  made : s.made ≤ t.made
  sockets : ∀ y ∈ t.sockets, (∃ x ∈ s.sockets, x.id = y.id ∧ x.channelId = y.channelId ∧ (y.live = true → x.live = true)) ∨
    s.made ≤ y.id

theorem Follows.trans {s t u : St} (h : Follows s t) (h' : Follows t u) : Follows s u := by
  refine ⟨h'.numbered, h.made.trans h'.made, ?_⟩
  intro y hy
  rcases h'.sockets y hy with ⟨x, hx, hid, hchannel, hlive⟩ | hnew
  · rcases h.sockets x hx with ⟨w, hw, hid', hchannel', hlive'⟩ | hnew
    · exact .inl ⟨w, hw, hid'.trans hid, hchannel'.trans hchannel, fun hy => hlive' (hlive hy)⟩
    · exact .inr (hid ▸ hnew)
  · exact .inr (h.made.trans hnew)

/-- sockets go -/
theorem follows_of_sublist {s t : St} (hs : Numbered s) (h : t.sockets.Sublist s.sockets) (hmade : s.made ≤ t.made) : Follows s t := by
  refine ⟨⟨hs.nodup.sublist (h.map _), fun x hx => (hs.made x (h.subset hx)).trans_le hmade⟩, hmade, ?_⟩
  exact fun y hy => .inl ⟨y, h.subset hy, rfl, rfl, id⟩

/-- sockets change their state -/
theorem follows_of_map {s t : St} {f : Socket → Socket} (hs : Numbered s) (h : t.sockets = s.sockets.map f) (hmade : s.made ≤ t.made)
    (hid : ∀ x, (f x).id = x.id) (hchannel : ∀ x, (f x).channelId = x.channelId)
    (hlive : ∀ x ∈ s.sockets, (f x).live = true → x.live = true) : Follows s t := by
  refine ⟨⟨?_, ?_⟩, hmade, ?_⟩
  · rw [h, map_update_keys hid]
    exact hs.nodup
  · intro y hy
    obtain ⟨x, hx, rfl⟩ := List.mem_map.1 (h ▸ hy)
    rw [hid]
    exact (hs.made x hx).trans_le hmade
  · intro y hy
    obtain ⟨x, hx, rfl⟩ := List.mem_map.1 (h ▸ hy)
    exact .inl ⟨x, hx, (hid x).symm, (hchannel x).symm, hlive x hx⟩

theorem connectWs_follows {s : St} (hs : Numbered s) (c : String) (connect : Connect) : Follows s (s.connectWs c connect) := by
  unfold St.connectWs
  split_ifs
  · cases connect with
    | noToken => exact follows_of_sublist hs (List.Sublist.refl _) (Nat.le_succ _)
    | throws => exact follows_of_sublist hs (List.Sublist.refl _) le_rfl
    | socket =>
      refine ⟨⟨?_, ?_⟩, Nat.le_succ _, ?_⟩
      · refine nodup_keys_snoc hs.nodup fun hmem => ?_
        obtain ⟨x, hx, hid⟩ := List.mem_map.1 hmem
        exact (hs.made x hx).ne hid
      · intro y hy
        rcases mem_snoc.1 hy with hy | rfl
        · exact (hs.made y hy).trans (Nat.lt_succ_self _)
        · exact Nat.lt_succ_self _
      · intro y hy
        rcases mem_snoc.1 hy with hy | rfl
        · exact .inl ⟨y, hy, rfl, rfl, id⟩
        · exact .inr le_rfl
  · exact follows_of_sublist hs (List.Sublist.refl _) le_rfl

theorem close_follows {s : St} (hs : Numbered s) (k : ℕ) : Follows s (s.close k) := by
  refine follows_of_map hs rfl le_rfl (fun x => by split_ifs <;> rfl) (fun x => by split_ifs <;> rfl) ?_
  intro x _ hlive
  split_ifs at hlive
  · cases hlive
  · exact hlive

theorem cleanup_follows {s : St} (hs : Numbered s) : Follows s s.cleanup := by
  have hcleared : Follows s { s with alive := false, timers := s.timers.filter fun t => some t.id ≠ s.reconnectTimer } :=
    follows_of_sublist hs (List.Sublist.refl _) le_rfl
  simp only [St.cleanup]
  split
  · exact hcleared.trans (close_follows hcleared.numbered _)
  · exact hcleared

theorem settle_sockets (s : St) (i : ℕ) (send : Send) (real : Option Message) :
    (s.settle i send real).sockets = s.sockets ∧ (s.settle i send real).made = s.made := by
  cases real <;> exact ⟨rfl, rfl⟩

theorem step_follows {s : St} (hs : Numbered s) (o : Op) : Follows s (step s o) := by
  have hsame : ∀ t : St, t.sockets = s.sockets ∧ t.made = s.made → Follows s t := by
    rintro t ⟨hsockets, hmade⟩
    exact follows_of_sublist hs (hsockets ▸ List.Sublist.refl _) hmade.ge
  cases o with
  | navigate c connect =>
    simp only [step]
    split_ifs
    · exact hsame s ⟨rfl, rfl⟩
    · have hclean := cleanup_follows hs
      have hnext := hclean.trans (t := s.cleanup) (u := { s.cleanup with
        channelId := c, view := s.view + 1, extraMessages := [], alive := true })
        (follows_of_sublist hclean.numbered (List.Sublist.refl _) le_rfl)
      exact hnext.trans (connectWs_follows hnext.numbered c connect)
  | handleSend currentUser content now createdAt => cases currentUser <;> exact hsame _ ⟨rfl, rfl⟩
  | answered i status real =>
    simp only [step]
    split
    · split_ifs
      · exact hsame _ (settle_sockets s i _ _)
      · exact hsame _ (settle_sockets s i _ _)
      · exact hsame s ⟨rfl, rfl⟩
    · exact hsame s ⟨rfl, rfl⟩
  | threw i =>
    simp only [step]
    split
    · split_ifs
      · exact hsame _ (settle_sockets s i _ _)
      · exact hsame s ⟨rfl, rfl⟩
    · exact hsame s ⟨rfl, rfl⟩
  | onopen k =>
    simp only [step]
    split_ifs with hex
    · refine follows_of_map hs rfl le_rfl (fun x => by split_ifs <;> rfl) (fun x => by split_ifs <;> rfl) ?_
      -- only a socket that was connecting opens
      obtain ⟨x, hx, hid, hready⟩ := hex
      intro y hy hlive
      split_ifs at hlive with hyid
      · rw [eq_of_key hs.nodup hy hx (hyid.trans hid.symm), Socket.live, hready]
        rfl
      · exact hlive
    · exact hsame s ⟨rfl, rfl⟩
  | onmessage k type payload =>
    simp only [step]
    split
    · split_ifs <;> exact hsame _ ⟨rfl, rfl⟩
    · exact hsame s ⟨rfl, rfl⟩
  | onerror k => exact close_follows hs k
  | onclose k =>
    simp only [step, St.onclose]
    split
    · split_ifs
      · exact follows_of_sublist hs List.filter_sublist (Nat.le_succ _)
      · exact follows_of_sublist hs List.filter_sublist le_rfl
    · exact hsame s ⟨rfl, rfl⟩
  | timeout t connect =>
    simp only [step]
    split
    · have hfired := hsame { s with timers := s.timers.filter (·.id ≠ t) } ⟨rfl, rfl⟩
      exact hfired.trans (connectWs_follows hfired.numbered _ connect)
    · exact hsame s ⟨rfl, rfl⟩

end Concordia.Web.ChannelView
