/-
Deleting a message on the screen (`apps/web-app/app/components/MessageList.tsx`, `handleDelete`). The list that is shown
merges the messages of `MessageList` with the `extraMessages` of `ChannelView`; `handleDelete` knows only the former.

- What the server sends takes its time: an answer to a load or a page is on its way between `answerLoad` or `answerPage` and
  its receipt, a frame and the answer to a POST between `push` or `answer` and `receive` or `receiveAnswer`. A frame whose
  socket is closed meanwhile is never received.
- `remove` is the chat service deleting a message, for this client or another; `deleted` is the response to a DELETE.
- `stays_deleted_iff`: while the server sends the deleted message no more, it stays out of the list exactly if it is not
  among the extra messages and nothing on its way has it.

The ids whose buttons are disabled meanwhile are left out.
-/
import Concordia.Web.ChannelView
import Concordia.Web.MessageList

namespace Concordia.Web.Deletion

open Concordia.Lib
open ChannelView (Numbered Socket Send step_follows step_change)

/-! ## Model -/

/-- a frame that the gateway has sent -/
structure Push where
  socket : ℕ
  type : String
  payload : Stored
deriving DecidableEq, Repr

/-- the answer to the POST of a send; `none` is a body that is no JSON -/
structure Answer where
  send : ℕ
  status : ℕ
  real : Option Stored
deriving DecidableEq, Repr

/-- frames go over sockets and answers to sends that were made -/
structure Known (view : ChannelView.St) (pushes : List Push) (answers : List Answer) : Prop where
  numbered : Numbered view
  tempIds : ∀ send ∈ view.sends, ∃ now, send.tempId = .opt now
  pushes : ∀ p ∈ pushes, p.socket < view.made
  answers : ∀ a ∈ answers, a.send < view.sends.length

theorem Known.mono {view : ChannelView.St} {pushes pushes' : List Push} {answers answers' : List Answer}
    (h : Known view pushes answers) (hpushes : pushes' ⊆ pushes) (hanswers : answers' ⊆ answers) :
    Known view pushes' answers' :=
  ⟨h.numbered, h.tempIds, fun p hp => h.pushes p (hpushes hp), fun a ha => h.answers a (hanswers ha)⟩

/-- sends are added, and each keeps its placeholder's id -/
theorem step_sends (s : ChannelView.St) (o : ChannelView.Op) : s.sends.length ≤ (ChannelView.step s o).sends.length ∧
    ((∀ send ∈ s.sends, ∃ now, send.tempId = .opt now) → ∀ send ∈ (ChannelView.step s o).sends, ∃ now, send.tempId = .opt now) := by
  have hchange := step_change s o
  generalize ChannelView.step s o = s' at hchange ⊢
  cases hchange with
  | navigate view extraMessages sends => rw [sends]; exact ⟨le_rfl, id⟩
  | handleSend user content now createdAt =>
    refine ⟨by simp, fun h send hsend => ?_⟩
    rcases mem_snoc.1 hsend with hsend | rfl
    · exact h send hsend
    · exact ⟨now, rfl⟩
  | @settle _ i send real at_i pending start brings =>
    have hsends : ∃ outcome, (s.settle i send real).sends = s.sends.set i { send with outcome := outcome } := by
      cases real <;> exact ⟨_, rfl⟩
    obtain ⟨outcome, hsends⟩ := hsends
    rw [hsends]
    refine ⟨by simp, fun h x hx => ?_⟩
    rcases List.mem_or_eq_of_mem_set hx with hx | rfl
    · exact h x hx
    · exact h send (List.mem_of_getElem? at_i)
  | onmessage k type payload => exact ⟨le_rfl, id⟩
  | quiet start view extraMessages sends => rw [sends]; exact ⟨le_rfl, id⟩

theorem Known.step {view : ChannelView.St} {pushes : List Push} {answers : List Answer} (h : Known view pushes answers)
    (o : ChannelView.Op) : Known (ChannelView.step view o) pushes answers := by
  have hfollows := step_follows h.numbered o
  obtain ⟨hlength, htemp⟩ := step_sends view o
  exact ⟨hfollows.numbered, htemp h.tempIds, fun p hp => (h.pushes p hp).trans_le hfollows.made,
    fun a ha => (h.answers a ha).trans_le hlength⟩

structure View where
  list : MessageList.St
  view : ChannelView.St
  /-- sent, and not received -/
  pushes : List Push
  answers : List Answer
  known : Known view pushes answers

namespace View

def allMessages (s : View) : List Message := Web.allMessages (s.list.messages.map Stored.toMessage) s.view.extraMessages

/-- something happens in `ChannelView` -/
def browse (s : View) (o : ChannelView.Op) : View := { s with view := ChannelView.step s.view o, known := s.known.step o }

/-- the gateway sends a frame -/
def push (s : View) (p : Push) : View :=
  if h : p.socket < s.view.made then
    { s with
      pushes := s.pushes ++ [p]
      known := ⟨s.known.numbered, s.known.tempIds,
        fun q hq => (mem_snoc.1 hq).elim (s.known.pushes q) fun heq => heq ▸ h, s.known.answers⟩ }
  else s

/-- the chat service answers a POST -/
def answer (s : View) (a : Answer) : View :=
  if h : a.send < s.view.sends.length then
    { s with
      answers := s.answers ++ [a]
      known := ⟨s.known.numbered, s.known.tempIds, s.known.pushes,
        fun b hb => (mem_snoc.1 hb).elim (s.known.answers b) fun heq => heq ▸ h⟩ }
  else s

def receive (s : View) (j : ℕ) : View :=
  match s.pushes[j]? with
  | some p =>
    browse { s with pushes := s.pushes.eraseIdx j, known := s.known.mono (List.eraseIdx_subset) (List.Subset.refl _) }
      (.onmessage p.socket p.type p.payload)
  | none => s

def receiveAnswer (s : View) (j : ℕ) : View :=
  match s.answers[j]? with
  | some a =>
    browse { s with answers := s.answers.eraseIdx j, known := s.known.mono (List.Subset.refl _) (List.eraseIdx_subset) }
      (.answered a.send a.status a.real)
  | none => s

end View

/-- a message is gone from the history of its channel -/
def removeMessage (server : MessageList.Server) (id : MessageId) : MessageList.Server where
  history c := (server.history c).filter fun m => .stored m.messageId ≠ id
  ascending c := (server.ascending c).filter _
  channel c m hm := server.channel c m (List.mem_of_mem_filter hm)

inductive Op where
  | list (o : MessageList.Op)
  /-- what the user, the sockets and the timers do -/
  | view (o : ChannelView.Op)
  | push (p : Push)
  | answer (a : Answer)
  /-- the browser receives the frame, or the answer, at this place -/
  | receive (j : ℕ)
  | receiveAnswer (j : ℕ)
  /-- the chat service deletes a message -/
  | remove (id : MessageId)
  /-- the DELETE of a message is answered -/
  | deleted (id : MessageId) (status : ℕ)

/-- what begins with the server -/
def fromServer : ChannelView.Op → Bool
  | .answered _ _ _ | .onmessage _ _ _ => true
  | _ => false

/-- `res.ok || res.status === 204` -/
def success (status : ℕ) : Bool := (200 ≤ status ∧ status ≤ 299) ∨ status = 204

/-- the rest of `handleDelete`, once the DELETE is answered -/
def handleDelete (s : View) (id : MessageId) (status : ℕ) : View :=
  if success status then
    { s with list := { s.list with messages := s.list.messages.filter fun m => m.toMessage.messageId ≠ id } }
  else s

def step (s : View) : Op → View
  | .list o => { s with list := MessageList.step s.list o }
  | .view o => if fromServer o then s else s.browse o
  | .push p => s.push p
  | .answer a => s.answer a
  | .receive j => s.receive j
  | .receiveAnswer j => s.receiveAnswer j
  | .remove id => { s with list := { s.list with server := removeMessage s.list.server id } }
  | .deleted id status => handleDelete s id status

/-- both components are mounted on a channel -/
def start (server : MessageList.Server) (channelId : String) (connect : ChannelView.Connect) : View where
  list := MessageList.start server channelId
  view := ChannelView.start channelId connect
  pushes := []
  answers := []
  known :=
    { numbered :=
        (ChannelView.connectWs_follows (s := ChannelView.St.mk channelId 0 [] [] true none none 0 [] [] 0)
          ⟨List.nodup_nil, List.forall_mem_nil _⟩ channelId connect).numbered
      tempIds := by
        rw [ChannelView.start, ChannelView.connectWs_sends]
        exact List.forall_mem_nil _
      pushes := List.forall_mem_nil _
      answers := List.forall_mem_nil _ }

/-! ## What the server sends -/

/-- the channel stays, and the server answers no load and no page with the message -/
def ListSilent (id : MessageId) (s : MessageList.St) : MessageList.Op → Prop
  | .setChannel _ => False
  | .answerLoad k => ∀ load, s.loads[k]? = some load →
      ∀ m ∈ (s.server.listMessages load.channelId none).messages, .stored m.messageId ≠ id
  | .answerPage k => ∀ page, s.pages[k]? = some page →
      ∀ m ∈ (s.server.listMessages page.channelId (some page.before)).messages, .stored m.messageId ≠ id
  | _ => True

/-- the channel stays, and the server neither returns the message nor pushes it -/
def Silent (id : MessageId) (s : View) : Op → Prop
  | .list o => ListSilent id s.list o
  | .view (.navigate _ _) => False
  | .push p => .stored p.payload.messageId ≠ id
  | .answer a => ∀ x, a.real = some x → .stored x.messageId ≠ id
  | _ => True

/-- something on its way has the message and will be shown when it is received -/
inductive UnderWay (id : MessageId) (s : View) : Prop where
  | load {load : MessageList.Load} {data : MessageList.Response} {m : Stored} (mem : load ∈ s.list.loads)
      (current : load.cancelled = false) (answered : load.request = .answered data) (has : m ∈ data.messages)
      (same : .stored m.messageId = id)
  | page {page : MessageList.Page} {data : MessageList.Response} {m : Stored} (mem : page ∈ s.list.pages)
      (answered : page.request = .answered data) (has : m ∈ data.messages) (same : .stored m.messageId = id)
  | push {p : Push} {x : Socket} (mem : p ∈ s.pushes) (type : p.type = "new_message") (socket : x ∈ s.view.sockets)
      (of_socket : x.id = p.socket) (live : x.live = true) (channel : p.payload.channelId = x.channelId)
      (same : .stored p.payload.messageId = id)
  | answer {a : Answer} {send : Send} {x : Stored} (mem : a ∈ s.answers) (of_send : s.view.sends[a.send]? = some send)
      (pending : send.outcome = .pending) (created : ChannelView.created a.status = true) (real : a.real = some x)
      (same : .stored x.messageId = id)

/-! ## The fetched messages -/

/-- an answer under way does not have the message -/
def Without (id : MessageId) (request : MessageList.Request) : Prop :=
  ∀ data, request = .answered data → ∀ m ∈ data.messages, .stored m.messageId ≠ id

/-- the message is in no answer that will be shown when it is received -/
structure Unanswered (id : MessageId) (s : MessageList.St) : Prop where
  messages : ∀ m ∈ s.messages, .stored m.messageId ≠ id
  loads : ∀ load ∈ s.loads, load.cancelled = false → Without id load.request
  pages : ∀ page ∈ s.pages, Without id page.request

namespace Unanswered

variable {id : MessageId} {s s' : MessageList.St}

theorem of_eq (h : Unanswered id s) (hmessages : s'.messages = s.messages) (hloads : s'.loads = s.loads)
    (hpages : s'.pages = s.pages) : Unanswered id s' :=
  ⟨hmessages ▸ h.messages, hloads ▸ h.loads, hpages ▸ h.pages⟩

/-- a load goes on -/
theorem setLoad (h : Unanswered id s) (k : ℕ) (load : MessageList.Load) {request : MessageList.Request}
    (hrequest : Without id request) : Unanswered id (s.setLoad k load request) := by
  refine ⟨h.messages, ?_, h.pages⟩
  intro x hx hcurrent
  rcases List.mem_or_eq_of_mem_set hx with hx | rfl
  · exact h.loads x hx hcurrent
  · exact hrequest

/-- a page goes on -/
theorem setPage (h : Unanswered id s) (k : ℕ) (page : MessageList.Page) {request : MessageList.Request}
    (hrequest : Without id request) : Unanswered id (s.setPage k page request) := by
  refine ⟨h.messages, h.loads, ?_⟩
  intro x hx
  rcases List.mem_or_eq_of_mem_set hx with hx | rfl
  · exact h.pages x hx
  · exact hrequest

theorem done : Without id .done := fun _ h => by cases h

theorem step (h : Unanswered id s) {o : MessageList.Op} (hsilent : ListSilent id s o) :
    Unanswered id (MessageList.step s o) := by
  cases o with
  | setChannel c => exact hsilent.elim
  | render => exact h.of_eq rfl rfl rfl
  | post message => exact h.of_eq rfl rfl rfl
  | sentinel =>
    simp only [MessageList.step]
    split_ifs
    · exact h
    · split
      · exact h
      · refine ⟨h.messages, h.loads, fun page hpage => ?_⟩
        rcases mem_snoc.1 hpage with hpage | rfl
        · exact h.pages page hpage
        · exact fun _ hsent => by cases hsent
  | answerLoad k =>
    simp only [MessageList.step]
    split
    · next load hk =>
      split_ifs
      · refine h.setLoad k load fun data hdata => ?_
        rw [← MessageList.Request.answered.inj hdata]
        exact hsilent load hk
      · exact h
    · exact h
  | answerPage k =>
    simp only [MessageList.step]
    split
    · next page hk =>
      split_ifs
      · refine h.setPage k page fun data hdata => ?_
        rw [← MessageList.Request.answered.inj hdata]
        exact hsilent page hk
      · exact h
    · exact h
  | receiveLoad k =>
    simp only [MessageList.step]
    split
    · next load hk =>
      split
      · next data hdata =>
        have hset := h.setLoad k load done
        split_ifs with hcancelled
        · exact hset
        · refine ⟨fun m hm => ?_, hset.loads, hset.pages⟩
          exact h.loads load (List.mem_of_getElem? hk) (by simpa using hcancelled) data hdata m (List.mem_reverse.1 hm)
      · exact h
    · exact h
  | receivePage k =>
    simp only [MessageList.step]
    split
    · next page hk =>
      split
      · next data hdata =>
        have hset := h.setPage k page done
        refine ⟨fun m hm => ?_, hset.loads, hset.pages⟩
        rcases List.mem_append.1 hm with hm | hm
        · exact h.pages page (List.mem_of_getElem? hk) data hdata m (List.mem_reverse.1 hm)
        · exact h.messages m hm
      · exact h
    · exact h
  | failLoad k =>
    simp only [MessageList.step]
    split
    · next load hk =>
      have hset := h.setLoad k load done
      split_ifs
      · exact h
      · exact hset
      · exact hset.of_eq rfl rfl rfl
    · exact h
  | failPage k =>
    simp only [MessageList.step]
    split
    · next page hk =>
      split_ifs
      · exact h
      · exact (h.setPage k page done).of_eq rfl rfl rfl
    · exact h

end Unanswered

/-! ## The extra messages -/

/-- the answer to a POST brings no message but the created one -/
theorem settle_absent {id : MessageId} {s : ChannelView.St} (h : id ∉ ids s.extraMessages) (i : ℕ)
    (send : Send) {real : Option Message} (hreal : ∀ r, real = some r → r.messageId ≠ id) :
    id ∉ ids (s.settle i send real).extraMessages := by
  cases real with
  | none => exact fun hmem => h (mem_ids_dropId.1 hmem).1
  | some r =>
    intro hmem
    obtain ⟨m, hm, rfl⟩ := List.mem_map.1 hmem
    rcases mem_of_mem_confirm hm with hm | ⟨rfl, -⟩
    · exact h (List.mem_map_of_mem hm)
    · exact hreal r rfl rfl

/-- what the user, the sockets and the timers do brings no stored message -/
theorem browse_absent {u : Servers.Uuid} {s : ChannelView.St} {o : ChannelView.Op} (hown : fromServer o = false)
    (hstays : ∀ c connect, o ≠ .navigate c connect) (h : .stored u ∉ ids s.extraMessages) :
    .stored u ∉ ids (ChannelView.step s o).extraMessages := by
  have hbrings : o.brings = none := by
    cases o <;> simp_all [fromServer, ChannelView.Op.brings]
  have hchange := step_change s o
  generalize ChannelView.step s o = s' at hchange ⊢
  cases hchange with
  | navigate view extraMessages sends => exact absurd rfl (hstays _ _)
  | handleSend user content now createdAt =>
    intro hmem
    rcases mem_snoc.1 (ids_append _ _ ▸ hmem) with hmem | heq
    · exact h hmem
    · cases heq
  | settle at_i pending start brings =>
    apply settle_absent h
    intro r hr
    obtain ⟨x, hx, -⟩ := brings r hr
    rw [hbrings] at hx
    cases hx
  | onmessage k type payload => cases hown
  | quiet start view extraMessages sends => rwa [extraMessages]

/-- a send that is pending was so before -/
theorem pending_of_step {s : ChannelView.St} {o : ChannelView.Op} {i : ℕ} (hi : i < s.sends.length) {send : Send}
    (hsend : (ChannelView.step s o).sends[i]? = some send) (hpending : send.outcome = .pending) :
    s.sends[i]? = some send := by
  have hchange := step_change s o
  generalize ChannelView.step s o = s' at hchange hsend
  cases hchange with
  | navigate view extraMessages sends => rwa [sends] at hsend
  | handleSend user content now createdAt => rwa [List.getElem?_append_left hi] at hsend
  | @settle _ j other real at_j pending start brings =>
    have hset : ∃ outcome, outcome ≠ .pending ∧
        (s.settle j other real).sends = s.sends.set j { other with outcome := outcome } := by
      cases real with
      | none => exact ⟨.failed, by simp, rfl⟩
      | some r => exact ⟨.created r, by simp, rfl⟩
    obtain ⟨outcome, hne, heq⟩ := hset
    rw [heq, List.getElem?_set] at hsend
    split_ifs at hsend with hji
    · -- the answered send is pending no more
      obtain rfl := Option.some.inj hsend
      exact absurd hpending hne
    · exact hsend
  | onmessage k type payload => exact hsend
  | quiet start view extraMessages sends => rwa [sends] at hsend

/-! ## A message that is gone -/

/-- the message is not in the list, and nothing that has it will be shown when it is received -/
structure Gone (id : MessageId) (s : View) : Prop where
  list : Unanswered id s.list
  extra : id ∉ ids s.view.extraMessages
  pushes : ∀ p ∈ s.pushes, p.type = "new_message" → .stored p.payload.messageId = id →
    ∀ x ∈ s.view.sockets, x.id = p.socket → x.live = true → p.payload.channelId ≠ x.channelId
  answers : ∀ a ∈ s.answers, ChannelView.created a.status = true → ∀ x, a.real = some x → .stored x.messageId = id →
    ∀ send, s.view.sends[a.send]? = some send → send.outcome ≠ .pending

theorem absent_iff {id : MessageId} {s : View} : id ∉ ids s.allMessages ↔
    (∀ m ∈ s.list.messages, .stored m.messageId ≠ id) ∧ id ∉ ids s.view.extraMessages := by
  have hids : (∀ m ∈ s.list.messages, .stored m.messageId ≠ id) ↔ id ∉ ids (s.list.messages.map Stored.toMessage) := by
    simp [ids, Stored.toMessage]
  rw [hids, View.allMessages, mem_ids_allMessages, not_or]

theorem gone_of_not_underWay {id : MessageId} {s : View} (h : id ∉ ids s.allMessages) (hway : ¬ UnderWay id s) :
    Gone id s := by
  obtain ⟨hmessages, hextra⟩ := absent_iff.1 h
  refine ⟨⟨hmessages, ?_, ?_⟩, hextra, ?_, ?_⟩
  · exact fun load hload hcurrent data hdata m hm hid => hway (.load hload hcurrent hdata hm hid)
  · exact fun page hpage data hdata m hm hid => hway (.page hpage hdata hm hid)
  · exact fun p hp htype hid x hx hsocket hlive hchannel => hway (.push hp htype hx hsocket hlive hchannel hid)
  · exact fun a ha hcreated x hx hid send hsend hpending => hway (.answer ha hsend hpending hcreated hx hid)

namespace Gone

variable {id : MessageId} {s : View}

/-- what is on its way over closed sockets and to settled sends stays so -/
theorem browse (h : Gone id s) (o : ChannelView.Op) (hextra : id ∉ ids (ChannelView.step s.view o).extraMessages) :
    Gone id (s.browse o) := by
  refine ⟨h.list, hextra, ?_, ?_⟩
  · intro p hp htype hid y hy hsocket hlive
    have hmade := s.known.pushes p hp
    rcases (step_follows s.known.numbered o).sockets y hy with ⟨x, hx, hxid, hchannel, hlive'⟩ | hnew
    · rw [← hchannel]
      exact h.pushes p hp htype hid x hx (hxid.trans hsocket) (hlive' hlive)
    · omega
  · intro a ha hcreated x hx hid send hsend hpending
    exact h.answers a ha hcreated x hx hid send (pending_of_step (s.known.answers a ha) hsend hpending) hpending

theorem receive (h : Gone id s) (j : ℕ) : Gone id (s.receive j) := by
  unfold View.receive
  split
  · next p hp =>
    have hmem := List.mem_of_getElem? hp
    have hrest : Gone id { s with
        pushes := s.pushes.eraseIdx j, known := s.known.mono List.eraseIdx_subset (List.Subset.refl _) } :=
      ⟨h.list, h.extra, fun q hq => h.pushes q (List.eraseIdx_subset hq), h.answers⟩
    refine hrest.browse _ ?_
    simp only [ChannelView.step]
    split
    · next x hfind =>
      obtain ⟨hx, hid⟩ := find?_some_iff_mem hfind
      split_ifs with hshown
      · obtain ⟨hready, htype, hchannel⟩ := hshown
        intro hextra
        rcases mem_ids_appendNew.1 hextra with hextra | heq
        · exact h.extra hextra
        · exact h.pushes p hmem htype heq.symm x hx (by simpa using hid) (by simp [Socket.live, hready]) hchannel
      · exact h.extra
    · exact h.extra
  · exact h

theorem receiveAnswer (h : Gone id s) (j : ℕ) : Gone id (s.receiveAnswer j) := by
  unfold View.receiveAnswer
  split
  · next a ha =>
    have hmem := List.mem_of_getElem? ha
    have hrest : Gone id { s with
        answers := s.answers.eraseIdx j, known := s.known.mono (List.Subset.refl _) List.eraseIdx_subset } :=
      ⟨h.list, h.extra, h.pushes, fun b hb => h.answers b (List.eraseIdx_subset hb)⟩
    refine hrest.browse _ ?_
    simp only [ChannelView.step]
    split
    · next send hsend =>
      split_ifs with hpending hcreated
      · apply settle_absent h.extra
        intro r hr hid
        obtain ⟨x, hx, rfl⟩ := Option.map_eq_some_iff.1 hr
        exact h.answers a hmem hcreated x hx hid send hsend hpending
      · exact settle_absent h.extra _ _ fun r hr => by cases hr
      · exact h.extra
    · exact h.extra
  · exact h

end Gone

theorem step_gone {u : Servers.Uuid} {s : View} {o : Op} (h : Gone (.stored u) s) (hsilent : Silent (.stored u) s o) :
    Gone (.stored u) (step s o) := by
  cases o with
  | list o => exact ⟨h.list.step hsilent, h.extra, h.pushes, h.answers⟩
  | view o =>
    simp only [step]
    split_ifs with hserver
    · exact h
    · refine h.browse o (browse_absent (by simpa using hserver) ?_ h.extra)
      rintro c connect rfl
      exact hsilent
  | push p =>
    simp only [step, View.push]
    split_ifs
    · refine ⟨h.list, h.extra, fun q hq htype hid => ?_, h.answers⟩
      rcases mem_snoc.1 hq with hq | rfl
      · exact h.pushes q hq htype hid
      · exact absurd hid hsilent
    · exact h
  | answer a =>
    simp only [step, View.answer]
    split_ifs
    · refine ⟨h.list, h.extra, h.pushes, fun b hb hcreated x hx hid => ?_⟩
      rcases mem_snoc.1 hb with hb | rfl
      · exact h.answers b hb hcreated x hx hid
      · exact absurd hid (hsilent x hx)
    · exact h
  | receive j => exact h.receive j
  | receiveAnswer j => exact h.receiveAnswer j
  | remove id => exact ⟨h.list.of_eq rfl rfl rfl, h.extra, h.pushes, h.answers⟩
  | deleted id status =>
    simp only [step, handleDelete]
    split_ifs
    · exact ⟨⟨fun m hm => h.list.messages m (List.mem_of_mem_filter hm), h.list.loads, h.list.pages⟩, h.extra, h.pushes,
        h.answers⟩
    · exact h

/-! ## What brings a message back -/

theorem shown_of_fetched {s : View} {m : Stored} (h : m ∈ s.list.messages) : .stored m.messageId ∈ ids s.allMessages :=
  mem_ids_allMessages.2 (.inl (List.mem_map_of_mem (List.mem_map_of_mem h)))

theorem shown_of_extra {id : MessageId} {s : View} (h : id ∈ ids s.view.extraMessages) : id ∈ ids s.allMessages :=
  mem_ids_allMessages.2 (.inr h)

/-- a frame is received over its open socket -/
theorem receive_shown {s : View} {j : ℕ} {p : Push} {x : Socket} (hj : s.pushes[j]? = some p) (htype : p.type = "new_message")
    (hx : x ∈ s.view.sockets) (hid : x.id = p.socket) (hready : x.readyState = .opened)
    (hchannel : p.payload.channelId = x.channelId) :
    .stored p.payload.messageId ∈ ids (s.receive j).view.extraMessages := by
  have hfind : s.view.sockets.find? (·.id = p.socket) = some x := by
    refine find?_eq_of_unique hx (by simpa using hid) fun y hy hyid => ?_
    exact eq_of_key s.known.numbered.nodup hy hx ((by simpa using hyid : y.id = p.socket).trans hid.symm)
  simp only [View.receive, hj, View.browse, ChannelView.step, hfind]
  rw [if_pos ⟨hready, htype, hchannel⟩]
  exact mem_ids_appendNew.2 (.inr rfl)

/-- the created message takes the place of its placeholder -/
theorem receiveAnswer_shown {s : View} {j : ℕ} {a : Answer} {send : Send} {x : Stored} (hj : s.answers[j]? = some a)
    (hsend : s.view.sends[a.send]? = some send) (hpending : send.outcome = .pending)
    (hcreated : ChannelView.created a.status = true) (hreal : a.real = some x) (htemp : send.tempId ∈ ids s.view.extraMessages) :
    .stored x.messageId ∈ ids (s.receiveAnswer j).view.extraMessages := by
  obtain ⟨now, hnow⟩ := s.known.tempIds send (List.mem_of_getElem? hsend)
  simp only [View.receiveAnswer, hj, View.browse, ChannelView.step, hsend, hpending, if_true, hcreated, hreal,
    Option.map_some, ChannelView.St.settle]
  refine (mem_ids_confirm _ ?_).2 (.inr ⟨rfl, .inr htemp⟩)
  rw [hnow]
  exact fun h => by cases h

/-- an answer that has the message is shown when it is received -/
theorem shown_of_underWay {id : MessageId} {s : View} (h : UnderWay id s) :
    ∃ rest, Along step (Silent id) s rest ∧ id ∈ ids (run step s rest).allMessages := by
  cases h with
  | @load load data m mem current answered has same =>
    obtain ⟨k, hk⟩ := List.mem_iff_getElem?.1 mem
    refine ⟨[.list (.receiveLoad k)], ⟨trivial, trivial⟩, same ▸ shown_of_fetched ?_⟩
    simp only [run_cons, run_nil, step, MessageList.step, hk, answered, current, Bool.false_eq_true, if_false]
    exact List.mem_reverse.2 has
  | @page page data m mem answered has same =>
    obtain ⟨k, hk⟩ := List.mem_iff_getElem?.1 mem
    refine ⟨[.list (.receivePage k)], ⟨trivial, trivial⟩, same ▸ shown_of_fetched ?_⟩
    simp only [run_cons, run_nil, step, MessageList.step, hk, answered]
    exact List.mem_append_left _ (List.mem_reverse.2 has)
  | @push p x mem type socket of_socket live channel same =>
    obtain ⟨j, hj⟩ := List.mem_iff_getElem?.1 mem
    cases hready : x.readyState with
    | opened =>
      exact ⟨[.receive j], ⟨trivial, trivial⟩,
        same ▸ shown_of_extra (receive_shown hj type socket of_socket hready channel)⟩
    | connecting =>
      -- it opens first
      have hex : ∃ y ∈ s.view.sockets, y.id = x.id ∧ y.readyState = .connecting := ⟨x, socket, rfl, hready⟩
      have hopened : { x with readyState := .opened } ∈ (step s (.view (.onopen x.id))).view.sockets := by
        simp only [step, fromServer, Bool.false_eq_true, if_false, View.browse, ChannelView.step, if_pos hex]
        exact List.mem_map.2 ⟨x, socket, if_pos rfl⟩
      exact ⟨[.view (.onopen x.id), .receive j], ⟨trivial, trivial, trivial⟩,
        same ▸ shown_of_extra (receive_shown (s := step s (.view (.onopen x.id))) hj type hopened of_socket rfl channel)⟩
    | closing => rw [Socket.live, hready] at live; cases live
  | @answer a send x mem of_send pending created real same =>
    obtain ⟨j, hj⟩ := List.mem_iff_getElem?.1 mem
    obtain ⟨now, hnow⟩ := s.known.tempIds send (List.mem_of_getElem? of_send)
    -- a placeholder of the same time, if the first is gone
    let again : ChannelView.Op := .handleSend (some ⟨"", ""⟩) "" now ""
    have hsends : (step s (.view again)).view.sends[a.send]? = some send := by
      simp only [again, step, fromServer, Bool.false_eq_true, if_false, View.browse, ChannelView.step]
      rw [List.getElem?_append_left (s.known.answers a mem)]
      exact of_send
    have htemp : send.tempId ∈ ids (step s (.view again)).view.extraMessages := by
      simp [again, step, fromServer, View.browse, ChannelView.step, ids, ChannelView.St.placeholder, hnow]
    exact ⟨[.view again, .receiveAnswer j], ⟨trivial, trivial, trivial⟩,
      same ▸ shown_of_extra (receiveAnswer_shown (s := step s (.view again)) hj hsends pending created real htemp)⟩

/-- a new placeholder may have any time -/
theorem shown_of_opt (now : ℕ) (s : View) :
    ∃ rest, Along step (Silent (.opt now)) s rest ∧ .opt now ∈ ids (run step s rest).allMessages := by
  refine ⟨[.view (.handleSend (some ⟨"", ""⟩) "" now "")], ⟨trivial, trivial⟩, shown_of_extra ?_⟩
  simp [run_cons, step, fromServer, View.browse, ChannelView.step, ids, ChannelView.St.placeholder]

/-! ## Deleted messages -/

theorem underWay_handleDelete {id other : MessageId} {s : View} {status : ℕ} :
    UnderWay id (handleDelete s other status) ↔ UnderWay id s := by
  unfold handleDelete
  split_ifs
  · refine ⟨?_, ?_⟩
    · intro h
      cases h with
      | load mem current answered has same => exact .load mem current answered has same
      | page mem answered has same => exact .page mem answered has same
      | push mem type socket of_socket live channel same => exact .push mem type socket of_socket live channel same
      | answer mem of_send pending created real same => exact .answer mem of_send pending created real same
    · intro h
      cases h with
      | load mem current answered has same => exact .load mem current answered has same
      | page mem answered has same => exact .page mem answered has same
      | push mem type socket of_socket live channel same => exact .push mem type socket of_socket live channel same
      | answer mem of_send pending created real same => exact .answer mem of_send pending created real same
  · exact Iff.rfl

/-- a deletion leaves the fetched messages with the other ids, and nothing with its own -/
theorem handleDelete_allMessages {id : MessageId} {s : View} {status : ℕ} (hstatus : success status = true) :
    id ∉ ids (handleDelete s id status).allMessages ↔ id ∉ ids s.view.extraMessages := by
  rw [absent_iff, handleDelete, if_pos hstatus]
  refine and_iff_right ?_
  intro m hm
  exact of_decide_eq_true (List.mem_filter.1 hm).2

/-- **Deleting removes a message from view.** After a DELETE that has succeeded, the message is in the list in no later state
of the channel view in which the server has sent it no more, exactly if it is a stored message, it was not among the extra
messages, and nothing on its way had it. -/
theorem stays_deleted_iff (s : View) (m : Message) (status : ℕ) (hstatus : success status = true) :
    (∀ rest, Along step (Silent m.messageId) (handleDelete s m.messageId status) rest →
      m.messageId ∉ ids (run step (handleDelete s m.messageId status) rest).allMessages) ↔
      (∃ u, m.messageId = .stored u) ∧ m.messageId ∉ ids s.view.extraMessages ∧ ¬ UnderWay m.messageId s := by
  refine ⟨?_, ?_⟩
  · intro h
    have hstays : ¬ ∃ rest, Along step (Silent m.messageId) (handleDelete s m.messageId status) rest ∧
        m.messageId ∈ ids (run step (handleDelete s m.messageId status) rest).allMessages := by
      rintro ⟨rest, hrest, hshown⟩
      exact h rest hrest hshown
    refine ⟨?_, (handleDelete_allMessages hstatus).1 (h [] trivial), ?_⟩
    · cases hid : m.messageId with
      | stored u => exact ⟨u, rfl⟩
      | opt now => exact absurd (hid ▸ shown_of_opt now _) hstays
    · exact fun hway => hstays (shown_of_underWay (underWay_handleDelete.2 hway))
  · rintro ⟨⟨u, hid⟩, hextra, hway⟩ rest hrest
    have hgone : Gone m.messageId (handleDelete s m.messageId status) :=
      gone_of_not_underWay ((handleDelete_allMessages hstatus).2 hextra) (mt underWay_handleDelete.1 hway)
    rw [hid] at hgone hrest ⊢
    have hend := run_inv (fun s o h hsilent => step_gone h hsilent) hgone hrest
    exact absent_iff.2 ⟨hend.list.messages, hend.extra⟩

/-- a channel whose newest messages the initial load has brought -/
def fetched : View := run step (start MessageList.oneMore "c" .socket) [.list (.answerLoad 0), .list (.receiveLoad 0)]

def greeting : Stored := ⟨51, "c", "alice", "hi", "2026-01-01T00:00:00Z", none⟩

theorem fetched_quiet (id : MessageId) : ¬ UnderWay id fetched := by
  intro h
  cases h with
  | load mem current answered has same =>
    rw [show fetched.list.loads = [⟨"c", false, .done⟩] from rfl, List.mem_singleton] at mem
    rw [mem] at answered
    cases answered
  | page mem answered has same => cases mem
  | push mem type socket of_socket live channel same => cases mem
  | answer mem of_send pending created real same => cases mem

/-- one of them is deleted, and another message is pushed -/
theorem fetched_deleted : .stored 7 ∈ ids fetched.allMessages ∧
    .stored 7 ∉ ids (run step (handleDelete fetched (.stored 7) 204)
      [.remove (.stored 7), .view (.onopen 0), .push ⟨0, "new_message", greeting⟩, .receive 0]).allMessages :=
  ⟨by decide +kernel, (stays_deleted_iff fetched { greeting.toMessage with messageId := .stored 7 } 204 (by decide)).2
    ⟨⟨7, rfl⟩, by decide +kernel, fetched_quiet _⟩ _ ⟨trivial, trivial, by simp [Silent, greeting], trivial, trivial⟩⟩

/-- a page that was answered twice: the first answer shows its message, which is deleted, and the second brings it back -/
example :
    let s := run step fetched [.list .render, .list .sentinel, .list .sentinel, .list (.answerPage 0), .list (.answerPage 1),
      .list (.receivePage 0), .remove (.stored 0)]
    .stored 0 ∈ ids s.allMessages ∧ .stored 0 ∉ ids (handleDelete s (.stored 0) 204).allMessages ∧
      .stored 0 ∈ ids (run step (handleDelete s (.stored 0) 204) [.list (.receivePage 1)]).allMessages := by
  decide +kernel

/-- a message that its own author has sent in this view -/
def sent : View := run step (start MessageList.oneMore "c" .socket)
  [.view (.handleSend (some ⟨"alice", "Alice"⟩) "hi" 5 "2026-01-01T00:00:00Z"), .answer ⟨0, 201, some greeting⟩,
    .receiveAnswer 0]

/-- **An extra message stays.** The author deletes the message that was just sent; the server deletes it, and it is still in
the list. -/
theorem sent_stays : .stored 51 ∈ ids sent.allMessages ∧
    .stored 51 ∈ ids (handleDelete (step sent (.remove (.stored 51))) (.stored 51) 204).allMessages := by
  decide +kernel

end Concordia.Web.Deletion
