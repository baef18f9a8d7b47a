/-
The list of a channel's messages (`apps/web-app/app/components/MessageList.tsx`): the initial load, the pages that the
sentinel at the top asks for, and a `channelId` prop that changes while the component stays mounted.

- `Server`: the messages of each channel, oldest first; a new message is the newest of its channel. `listMessages` answers
  with the right page for a channel and a cursor, newest first.
- `rendered` is what the last render had of the flags: the callback of the observer keeps these until the next render, so it
  may fire again before one. There is an observer once `loading` has been rendered as false.
- An initial load belongs to one run of its effect, whose cleanup cancels it; a page that the sentinel has asked for is not
  cancelled.

`messages_iff`: the messages of the shown channel, in order and without gaps, exactly while each page comes to its channel
and to the message it ends before. The scroll position, the spinner and deletions are left out.
-/
import Concordia.Lib.Run
import Concordia.Lib.Segments
import Concordia.Web.Messages

namespace Concordia.Web.MessageList

open Concordia.Lib Concordia.Lib.Segments
open Concordia.Servers (Uuid)

/-! ## The server -/

structure Server where
  history : String → List Stored
  ascending : ∀ c, Ascending Stored.messageId (history c)
  channel : ∀ c, ∀ m ∈ history c, m.channelId = c

/-- `MessagesResponse` -/
structure Response where
  /-- newest first -/
  messages : List Stored
  hasMore : Bool
deriving DecidableEq, Repr

/-- `limit: '50'` -/
def limit : ℕ := 50

namespace Server

def older (server : Server) (channelId : String) (before : Option Uuid) : List Stored :=
  (server.history channelId).filter fun m => before.all (m.messageId < ·)

def listMessages (server : Server) (channelId : String) (before : Option Uuid) : Response where
  messages := (server.older channelId before).reverse.take limit
  hasMore := limit < (server.older channelId before).length

/-- a message is stored in its channel, newer than those before it -/
def post (server : Server) (x : Stored) : Server :=
  if h : ∀ m ∈ server.history x.channelId, m.messageId < x.messageId then
    { history := Function.update server.history x.channelId (server.history x.channelId ++ [x])
      ascending := by
        intro c
        by_cases hc : c = x.channelId
        · subst hc
          rw [Function.update_self]
          refine List.pairwise_append.2 ⟨server.ascending _, List.pairwise_singleton _ _, fun m hm y hy => ?_⟩
          rw [List.mem_singleton.1 hy]
          exact h m hm
        · rw [Function.update_of_ne hc]
          exact server.ascending c
      channel := by
        intro c m hm
        by_cases hc : c = x.channelId
        · subst hc
          rw [Function.update_self] at hm
          rcases List.mem_append.1 hm with hm | hm
          · exact server.channel _ m hm
          · rw [List.mem_singleton.1 hm]
        · rw [Function.update_of_ne hc] at hm
          exact server.channel c m hm }
  else server

end Server

/-! ## The component -/

inductive Request where
  | sent
  | answered (data : Response)
  | done
deriving DecidableEq, Repr

structure Load where
  channelId : String
  cancelled : Bool
  request : Request
deriving DecidableEq, Repr

/-- a page that the sentinel has asked for -/
structure Page where
  channelId : String
  before : Uuid
  request : Request
deriving DecidableEq, Repr

structure Flags where
  hasMore : Bool
  loading : Bool
  loadingMore : Bool
deriving DecidableEq, Repr

structure St where
  server : Server
  channelId : String
  messages : List Stored
  flags : Flags
  rendered : Flags
  loads : List Load
  pages : List Page

inductive Op where
  | setChannel (channelId : String)
  | render
  /-- the observer fires, and the sentinel intersects -/
  | sentinel
  | post (message : Stored)
  /-- the server answers the request of an initial load -/
  | answerLoad (load : ℕ)
  | answerPage (page : ℕ)
  | receiveLoad (load : ℕ)
  | receivePage (page : ℕ)
  | failLoad (load : ℕ)
  | failPage (page : ℕ)
deriving DecidableEq, Repr

namespace St

/-- the effect of the initial load -/
def initialLoad (s : St) : St :=
  { s with
    messages := []
    flags := { s.flags with hasMore := false, loading := true }
    loads := s.loads ++ [⟨s.channelId, false, .sent⟩] }

def setLoad (s : St) (k : ℕ) (load : Load) (request : Request) : St :=
  { s with loads := s.loads.set k { load with request := request } }

def setPage (s : St) (k : ℕ) (page : Page) (request : Request) : St :=
  { s with pages := s.pages.set k { page with request := request } }

end St

def step (s : St) : Op → St
  | .setChannel channelId =>
    if channelId = s.channelId then s
    else
      St.initialLoad
        { s with
          channelId := channelId
          rendered := s.flags
          loads := s.loads.map fun load => { load with cancelled := true } }
  | .render => { s with rendered := s.flags }
  | .sentinel =>
    if s.rendered.loading ∨ ¬ s.rendered.hasMore ∨ s.rendered.loadingMore then s
    else
      match s.messages.head? with
      | none => s
      | some oldest =>
        { s with
          flags := { s.flags with loadingMore := true }
          pages := s.pages ++ [⟨s.channelId, oldest.messageId, .sent⟩] }
  | .post message => { s with server := s.server.post message }
  | .answerLoad k =>
    match s.loads[k]? with
    | some load =>
      if load.request = .sent then s.setLoad k load (.answered (s.server.listMessages load.channelId none)) else s
    | none => s
  | .answerPage k =>
    match s.pages[k]? with
    | some page =>
      if page.request = .sent then s.setPage k page (.answered (s.server.listMessages page.channelId (some page.before)))
      else s
    | none => s
  | .receiveLoad k =>
    match s.loads[k]? with
    | some load =>
      match load.request with
      | .answered data =>
        if load.cancelled then s.setLoad k load .done
        else { s.setLoad k load .done with
          messages := data.messages.reverse
          flags := { s.flags with hasMore := data.hasMore, loading := false } }
      | _ => s
    | none => s
  | .receivePage k =>
    match s.pages[k]? with
    | some page =>
      match page.request with
      | .answered data =>
        { s.setPage k page .done with
          messages := data.messages.reverse ++ s.messages
          flags := { s.flags with hasMore := data.hasMore, loadingMore := false } }
      | _ => s
    | none => s
  | .failLoad k =>
    match s.loads[k]? with
    | some load =>
      if load.request = .done then s
      else if load.cancelled then s.setLoad k load .done
      else { s.setLoad k load .done with flags := { s.flags with loading := false } }
    | none => s
  | .failPage k =>
    match s.pages[k]? with
    | some page =>
      if page.request = .done then s
      else { s.setPage k page .done with flags := { s.flags with loadingMore := false } }
    | none => s

/-- the component is mounted -/
def start (server : Server) (channelId : String) : St :=
  (St.mk server channelId [] ⟨false, true, false⟩ ⟨false, true, false⟩ [] []).initialLoad

/-! ## What is claimed of a state -/

structure Sound (s : St) : Prop where
  channel : ∀ m ∈ s.messages, m.channelId = s.channelId
  nodup : (s.messages.map Stored.messageId).Nodup
  ascending : Ascending Stored.messageId s.messages
  gapless : Gapless Stored.messageId (s.server.history s.channelId) s.messages
  merged : ∀ extraMessages, (ids extraMessages).Nodup →
    (ids (allMessages (s.messages.map Stored.toMessage) extraMessages)).Nodup

/-- a page that brings messages comes to its channel, and to the message it ends before if there is any -/
def Fits (s : St) : Op → Prop
  | .receivePage k =>
    match s.pages[k]? with
    | some ⟨channelId, before, .answered data⟩ =>
      data.messages ≠ [] → channelId = s.channelId ∧ ∀ m ∈ s.messages.head?, m.messageId = before
    | _ => True
  | _ => True

/-- the requests under way ask for what their channel has -/
structure Inv (s : St) : Prop where
  loads : ∀ load ∈ s.loads, load.cancelled = false → load.channelId = s.channelId
  answeredLoads : ∀ load ∈ s.loads, ∀ data, load.request = .answered data →
    data.messages.reverse <:+: s.server.history load.channelId
  cursors : ∀ page ∈ s.pages, ∃ x ∈ s.server.history page.channelId, x.messageId = page.before
  answeredPages : ∀ page ∈ s.pages, ∀ data, page.request = .answered data →
    data.messages.reverse = pageBefore Stored.messageId limit (some page.before) (s.server.history page.channelId)
  stored : ∀ m ∈ s.messages, m ∈ s.server.history m.channelId

/-- a part of the channel's history -/
def Whole (s : St) : Prop := s.messages <:+: s.server.history s.channelId

theorem sound_iff {s : St} (h : Inv s) : Sound s ↔ Whole s := by
  have hasc := s.server.ascending s.channelId
  rw [Whole, infix_iff hasc]
  refine ⟨?_, ?_⟩
  · intro hs
    refine ⟨fun m hm => ?_, hs.ascending, hs.gapless⟩
    exact hs.channel m hm ▸ h.stored m hm
  · intro hw
    obtain ⟨hsub, hascending, hgapless⟩ := hw
    have hnodup := hascending.nodup
    refine ⟨fun m hm => s.server.channel _ m (hsub hm), hnodup, hascending, hgapless, ?_⟩
    exact fun extraMessages hextra => nodup_allMessages (nodup_ids_stored.2 hnodup) hextra

/-! ## The server's answers -/

theorem listMessages_messages (server : Server) (c : String) (before : Option Uuid) :
    (server.listMessages c before).messages.reverse = pageBefore Stored.messageId limit before (server.history c) :=
  take_reverse_reverse _ _

theorem latest_infix (server : Server) (c : String) :
    (server.listMessages c none).messages.reverse <:+: server.history c := by
  rw [listMessages_messages, pageBefore_none]
  exact (latest_suffix _ _).isInfix

/-- a channel's history stays, or has a newest message more -/
theorem post_history (server : Server) (x : Stored) (c : String) : (server.post x).history c = server.history c ∨
    (∀ m ∈ server.history c, m.messageId < x.messageId) ∧ (server.post x).history c = server.history c ++ [x] := by
  unfold Server.post
  split_ifs with h
  · by_cases hc : c = x.channelId
    · subst hc
      exact .inr ⟨h, Function.update_self _ _ _⟩
    · exact .inl (Function.update_of_ne hc _ _)
  · exact .inl rfl

theorem post_grows (server : Server) (x : Stored) (c : String) : server.history c <+: (server.post x).history c := by
  rcases post_history server x c with h | ⟨-, h⟩
  · rw [h]
  · rw [h]
    exact List.prefix_append _ _

/-- no page before a stored message changes -/
theorem pageBefore_post (server : Server) (x m : Stored) {c : String} (hm : m ∈ server.history c) (n : ℕ) :
    pageBefore Stored.messageId n (some m.messageId) ((server.post x).history c) =
      pageBefore Stored.messageId n (some m.messageId) (server.history c) := by
  rcases post_history server x c with h | ⟨hnew, h⟩
  · rw [h]
  · rw [h]
    exact pageBefore_snoc hm hnew n

/-! ## Steps -/

namespace Inv

variable {s : St}

theorem setLoad (h : Inv s) {k : ℕ} {load : Load} (hk : s.loads[k]? = some load) (request : Request)
    (hrequest : ∀ data, request = .answered data → data.messages.reverse <:+: s.server.history load.channelId) :
    Inv (s.setLoad k load request) := by
  have hmem := List.mem_of_getElem? hk
  refine ⟨?_, ?_, h.cursors, h.answeredPages, h.stored⟩
  · intro x hx
    rcases List.mem_or_eq_of_mem_set hx with hx | rfl
    · exact h.loads x hx
    · exact h.loads load hmem
  · intro x hx
    rcases List.mem_or_eq_of_mem_set hx with hx | rfl
    · exact h.answeredLoads x hx
    · exact hrequest

theorem setPage (h : Inv s) {k : ℕ} {page : Page} (hk : s.pages[k]? = some page) (request : Request)
    (hrequest : ∀ data, request = .answered data → data.messages.reverse =
      pageBefore Stored.messageId limit (some page.before) (s.server.history page.channelId)) :
    Inv (s.setPage k page request) := by
  have hmem := List.mem_of_getElem? hk
  refine ⟨h.loads, h.answeredLoads, ?_, ?_, h.stored⟩
  · intro x hx
    rcases List.mem_or_eq_of_mem_set hx with hx | rfl
    · exact h.cursors x hx
    · exact h.cursors page hmem
  · intro x hx
    rcases List.mem_or_eq_of_mem_set hx with hx | rfl
    · exact h.answeredPages x hx
    · exact hrequest

theorem setFlags (h : Inv s) (flags rendered : Flags) : Inv { s with flags := flags, rendered := rendered } :=
  ⟨h.loads, h.answeredLoads, h.cursors, h.answeredPages, h.stored⟩

theorem setMessages (h : Inv s) {l : List Stored} (hl : ∀ m ∈ l, m ∈ s.server.history m.channelId) (flags : Flags) :
    Inv { s with messages := l, flags := flags } :=
  ⟨h.loads, h.answeredLoads, h.cursors, h.answeredPages, hl⟩

/-- messages of a channel's history are where their channel says -/
theorem of_history {l : List Stored} {c : String} (hl : l ⊆ s.server.history c) :
    ∀ m ∈ l, m ∈ s.server.history m.channelId := by
  intro m hm
  have hmem := hl hm
  rwa [s.server.channel c m hmem]

theorem post (h : Inv s) (x : Stored) : Inv { s with server := s.server.post x } := by
  have hsub : ∀ c, s.server.history c ⊆ (s.server.post x).history c := fun c => (post_grows s.server x c).subset
  refine ⟨h.loads, ?_, ?_, ?_, fun m hm => hsub _ (h.stored m hm)⟩
  · intro load hload data hdata
    exact (h.answeredLoads load hload data hdata).trans (post_grows s.server x _).isInfix
  · intro page hpage
    obtain ⟨m, hm, hid⟩ := h.cursors page hpage
    exact ⟨m, hsub _ hm, hid⟩
  · intro page hpage data hdata
    obtain ⟨m, hm, hid⟩ := h.cursors page hpage
    calc data.messages.reverse
        = pageBefore Stored.messageId limit (some page.before) (s.server.history page.channelId) :=
          h.answeredPages page hpage data hdata
      _ = pageBefore Stored.messageId limit (some page.before) ((s.server.post x).history page.channelId) := by
          rw [← hid, pageBefore_post s.server x m hm]

/-- the next channel is shown: the loads so far are cancelled -/
theorem setChannel (h : Inv s) (c : String) (rendered : Flags) : Inv (St.initialLoad
    { s with channelId := c, rendered := rendered, loads := s.loads.map fun load => { load with cancelled := true } }) := by
  have hloads : ∀ x ∈ (s.loads.map fun load => { load with cancelled := true }) ++ [⟨c, false, .sent⟩],
      x = ⟨c, false, .sent⟩ ∨ ∃ load ∈ s.loads, x = { load with cancelled := true } := by
    intro x hx
    rcases List.mem_append.1 hx with hx | hx
    · obtain ⟨load, hload, rfl⟩ := List.mem_map.1 hx
      exact .inr ⟨load, hload, rfl⟩
    · exact .inl (List.mem_singleton.1 hx)
  refine ⟨?_, ?_, h.cursors, h.answeredPages, nofun⟩
  · intro x hx hcancelled
    rcases hloads x hx with rfl | ⟨load, -, rfl⟩
    · rfl
    · cases hcancelled
  · intro x hx data hdata
    rcases hloads x hx with rfl | ⟨load, hload, rfl⟩
    · cases hdata
    · exact h.answeredLoads load hload data hdata

end Inv

/-- a page is received: it belongs in front of the messages exactly if it fits -/
theorem whole_prepend_iff {s : St} (h : Inv s) (hw : Whole s) {page : Page} (hpage : page ∈ s.pages) {data : Response}
    (hdata : page.request = .answered data) :
    data.messages.reverse ++ s.messages <:+: s.server.history s.channelId ↔
      (data.messages ≠ [] → page.channelId = s.channelId ∧ ∀ m ∈ s.messages.head?, m.messageId = page.before) := by
  obtain ⟨cursor, hcursor, hid⟩ := h.cursors page hpage
  have hasc := s.server.ascending s.channelId
  have heq := h.answeredPages page hpage data hdata
  have hnil : data.messages = [] ↔ data.messages.reverse = [] := List.reverse_eq_nil_iff.symm
  rw [ne_eq, hnil, heq, ← hid]
  refine ⟨?_, ?_⟩
  · intro hpart hne
    obtain ⟨x, hx⟩ := List.exists_mem_of_ne_nil _ hne
    have hchannel : page.channelId = s.channelId := by
      have hpagex := s.server.channel _ x (pageBefore_subset _ _ _ hx)
      have hshown := s.server.channel _ x (hpart.subset (List.mem_append_left _ hx))
      rw [← hpagex, hshown]
    refine ⟨hchannel, ?_⟩
    rw [hchannel] at hne hpart hcursor
    intro m hm
    cases hmessages : s.messages with
    | nil => simp [hmessages] at hm
    | cons y rest =>
      rw [hmessages] at hpart hm
      rw [← Option.some.inj hm, head_of_prepend_page hasc hcursor hne hpart]
  · intro hfits
    by_cases hempty : pageBefore Stored.messageId limit (some cursor.messageId) (s.server.history page.channelId) = []
    · rw [hempty]
      exact hw
    · obtain ⟨hchannel, hhead⟩ := hfits hempty
      rw [hchannel] at hcursor ⊢
      cases hmessages : s.messages with
      | nil =>
        rw [List.append_nil]
        obtain ⟨a, b, hsplit⟩ := List.append_of_mem hcursor
        rw [hsplit, pageBefore_split (hsplit ▸ hasc)]
        exact (latest_suffix _ _).isInfix.trans (List.prefix_append _ _).isInfix
      | cons y rest =>
        have hy : y.messageId = cursor.messageId := hhead y (by rw [hmessages]; rfl)
        rw [← hy]
        exact prepend_page hasc (hmessages ▸ hw) limit

theorem receivePage_spec {s : St} (h : Inv s) (hw : Whole s) (k : ℕ) :
    Inv (step s (.receivePage k)) ∧ (Whole (step s (.receivePage k)) ↔ Fits s (.receivePage k)) := by
  simp only [step, Fits]
  cases hk : s.pages[k]? with
  | none => exact ⟨h, iff_true_intro hw⟩
  | some page =>
    have hpage := List.mem_of_getElem? hk
    obtain ⟨channelId, before, request⟩ := page
    cases request with
    | sent => exact ⟨h, iff_true_intro hw⟩
    | done => exact ⟨h, iff_true_intro hw⟩
    | answered data =>
      refine ⟨?_, whole_prepend_iff h hw hpage rfl⟩
      apply (h.setPage hk .done nofun).setMessages
      intro m hm
      rcases List.mem_append.1 hm with hm | hm
      · rw [h.answeredPages _ hpage data rfl] at hm
        exact Inv.of_history (pageBefore_subset _ _ _) m hm
      · exact h.stored m hm

theorem receiveLoad_spec {s : St} (h : Inv s) (hw : Whole s) (k : ℕ) :
    Inv (step s (.receiveLoad k)) ∧ Whole (step s (.receiveLoad k)) := by
  simp only [step]
  cases hk : s.loads[k]? with
  | none => exact ⟨h, hw⟩
  | some load =>
    simp only
    have hload := List.mem_of_getElem? hk
    cases hrequest : load.request with
    | sent => exact ⟨h, hw⟩
    | done => exact ⟨h, hw⟩
    | answered data =>
      have hpart := h.answeredLoads load hload data hrequest
      simp only
      split_ifs with hcancelled
      · exact ⟨h.setLoad hk .done nofun, hw⟩
      · refine ⟨(h.setLoad hk .done nofun).setMessages (Inv.of_history hpart.subset) _, ?_⟩
        -- the load that is not cancelled is that of the shown channel
        rw [h.loads load hload (Bool.eq_false_iff.2 hcancelled)] at hpart
        exact hpart

/-- every step keeps the requests in order, and the messages whole exactly if a page that is received fits -/
theorem step_spec {s : St} (h : Inv s) (hw : Whole s) (o : Op) : Inv (step s o) ∧ (Whole (step s o) ↔ Fits s o) := by
  have hfree : ∀ {s' : St}, Inv s' ∧ Whole s' → Inv s' ∧ (Whole s' ↔ True) := fun hs => hs.imp_right iff_true_intro
  cases o with
  | setChannel c =>
    apply hfree
    simp only [step]
    split_ifs
    · exact ⟨h, hw⟩
    · exact ⟨h.setChannel c _, List.nil_infix⟩
  | render => exact hfree ⟨h.setFlags s.flags s.flags, hw⟩
  | sentinel =>
    apply hfree
    simp only [step]
    split_ifs
    · exact ⟨h, hw⟩
    · cases hhead : s.messages.head? with
      | none => exact ⟨h, hw⟩
      | some oldest =>
        refine ⟨⟨h.loads, h.answeredLoads, ?_, ?_, h.stored⟩, hw⟩
        · intro page hpage
          rcases List.mem_append.1 hpage with hpage | hpage
          · exact h.cursors page hpage
          · rw [List.mem_singleton.1 hpage]
            exact ⟨oldest, hw.subset (List.mem_of_head? hhead), rfl⟩
        · intro page hpage data hdata
          rcases List.mem_append.1 hpage with hpage | hpage
          · exact h.answeredPages page hpage data hdata
          · rw [List.mem_singleton.1 hpage] at hdata
            cases hdata
  | post message => exact hfree ⟨h.post message, hw.trans (post_grows _ _ _).isInfix⟩
  | answerLoad k =>
    apply hfree
    simp only [step]
    split
    · next load hk =>
      split_ifs
      · refine ⟨h.setLoad hk _ fun data hdata => ?_, hw⟩
        rw [← Request.answered.inj hdata]
        exact latest_infix _ _
      · exact ⟨h, hw⟩
    · exact ⟨h, hw⟩
  | answerPage k =>
    apply hfree
    simp only [step]
    split
    · next page hk =>
      split_ifs
      · refine ⟨h.setPage hk _ fun data hdata => ?_, hw⟩
        rw [← Request.answered.inj hdata]
        exact listMessages_messages _ _ _
      · exact ⟨h, hw⟩
    · exact ⟨h, hw⟩
  | receiveLoad k => exact hfree (receiveLoad_spec h hw k)
  | receivePage k => exact receivePage_spec h hw k
  | failLoad k =>
    apply hfree
    simp only [step]
    split
    · next load hk =>
      split_ifs
      · exact ⟨h, hw⟩
      · exact ⟨h.setLoad hk .done nofun, hw⟩
      · exact ⟨(h.setLoad hk .done nofun).setFlags _ s.rendered, hw⟩
    · exact ⟨h, hw⟩
  | failPage k =>
    apply hfree
    simp only [step]
    split
    · next page hk =>
      split_ifs
      · exact ⟨h, hw⟩
      · exact ⟨(h.setPage hk .done nofun).setFlags _ s.rendered, hw⟩
    · exact ⟨h, hw⟩

theorem start_inv (server : Server) (channelId : String) : Inv (start server channelId) := by
  refine ⟨?_, ?_, nofun, nofun, nofun⟩
  · intro load hload _
    rw [List.mem_singleton.1 hload]
    rfl
  · intro load hload data hdata
    rw [List.mem_singleton.1 hload] at hdata
    cases hdata

/-- **The list of messages.** Over a run, the messages are always those of the shown channel, none twice, in order and
without gaps, and the merged list has none twice, exactly if each page that brings messages comes to the channel it was
asked for in, and to the message it ends before. -/
theorem messages_iff (server : Server) (channelId : String) (ops : List Op) :
    (∀ a, a <+: ops → Sound (run step (start server channelId) a)) ↔ Along step Fits (start server channelId) ops := by
  have hinv := start_inv server channelId
  apply always_iff_along _ _ hinv ((sound_iff hinv).2 List.nil_infix)
  · intro s o h hs
    obtain ⟨hstep, hiff⟩ := step_spec h ((sound_iff h).1 hs) o
    exact (sound_iff hstep).trans hiff
  · exact fun s o h hs _ => (step_spec h ((sound_iff h).1 hs) o).1

/-- a channel with one message more than a page -/
def oneMore : Server where
  history c := if c = "c" then (List.range 51).map fun n => ⟨n, "c", "alice", "hi", "2026-01-01T00:00:00Z", none⟩ else []
  ascending c := by
    split_ifs
    · exact List.pairwise_map.2 List.pairwise_lt_range
    · exact List.Pairwise.nil
  channel c m hm := by
    split_ifs at hm with hc
    · obtain ⟨n, -, rfl⟩ := List.mem_map.1 hm
      exact hc.symm
    · cases hm

/-- the observer fires twice before the next render, and both pages come -/
def firesTwice : List Op :=
  [.answerLoad 0, .receiveLoad 0, .render, .sentinel, .sentinel, .answerPage 0, .answerPage 1, .receivePage 0,
    .receivePage 1]

/-- **A page can come twice.** The callback still has `loadingMore` as it was rendered, so it asks for the same page again,
and the page is put in front of itself. -/
theorem page_twice :
    ((run step (start oneMore "c") firesTwice).messages.map Stored.messageId).count 0 = 2 ∧
      ¬ ∀ a, a <+: firesTwice → Sound (run step (start oneMore "c") a) := by
  have hcount : ((run step (start oneMore "c") firesTwice).messages.map Stored.messageId).count 0 = 2 := by
    decide +kernel
  refine ⟨hcount, fun h => ?_⟩
  have hle := List.nodup_iff_count_le_one.1 (h firesTwice List.prefix_rfl).nodup 0
  omega

/-- a page of the channel that was left -/
example : (run step (start oneMore "c") [.answerLoad 0, .receiveLoad 0, .render, .sentinel, .setChannel "d", .answerPage 0,
    .receivePage 0]).messages.map Stored.channelId = ["c"] := by
  decide +kernel

end Concordia.Web.MessageList
