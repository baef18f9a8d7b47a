/-
The WebSocket of a channel view (`apps/web-app/app/components/ChannelView.tsx`, `connectWs` and the effects): what keeps
reconnecting, and for which channel.

- `St.chains`: the channels of the sockets that connect or are open and of the pending timers, each of which goes on
  reconnecting.
- `OneChain`: there is at most one, it is for the channel that is shown, and so is every message.
- `Refs`: `wsRef` and `reconnectTimer` lead to it, so that the cleanup of an effect stops it.
- `oneChain_iff`: this is kept exactly while no `onclose` starts a timer beside another chain or for a channel that is not
  shown any more, and no answer to a POST takes the place of another channel's placeholder.
- `late_close`: the `onclose` of the channel that was left runs after the effect of the next one.
-/
import Concordia.Web.ChannelView

namespace Concordia.Web.ChannelView

open Concordia.Lib

def St.liveSockets (s : St) : List Socket := s.sockets.filter Socket.live

def St.chains (s : St) : List String := s.liveSockets.map Socket.channelId ++ s.timers.map Timer.channelId

structure OneChain (s : St) : Prop where
  one : s.chains.length ≤ 1
  current : ∀ c ∈ s.chains, c = s.channelId
  messages : ∀ m ∈ s.extraMessages, m.channelId = s.channelId

/-- the condition on a step: an `onclose` finds no other chain and is that of a socket of the channel that is shown; the
answer to a POST finds its placeholder in the list only if that is of the channel that was posted to -/
def Kept (s : St) : Op → Prop
  | .onclose k => ∀ x ∈ s.sockets, x.id = k →
      x.channelId = s.channelId ∧ (∀ y ∈ s.sockets, y.live = true → y.id = k) ∧ s.timers = []
  | .answered i status real => ∀ send, s.sends[i]? = some send → send.outcome = .pending → created status = true →
      ∀ x, real = some x → .stored x.messageId ∉ ids s.extraMessages → send.tempId ∈ ids s.extraMessages →
        send.channelId = s.channelId
  | _ => True

/-- what the refs lead to -/
structure Refs (s : St) : Prop where
  alive : s.alive = true
  wsRef : ∀ x ∈ s.liveSockets, s.wsRef = some x.id
  timer : ∀ t ∈ s.timers, s.reconnectTimer = some t.id
  socketIds : (s.sockets.map Socket.id).Nodup
  fresh : ∀ k ∈ s.sockets.map Socket.id, k < s.made

def Idle (s : St) : Prop := s.liveSockets = [] ∧ s.timers = []

theorem chains_of_idle {s : St} (h : Idle s) : s.chains = [] := by
  rw [St.chains, h.1, h.2]
  rfl

theorem mem_liveSockets {s : St} {x : Socket} : x ∈ s.liveSockets ↔ x ∈ s.sockets ∧ x.live = true := List.mem_filter

/-! ## Connecting and closing -/

theorem connectWs_chains {s : St} (hidle : Idle s) (c : String) (connect : Connect) :
    (s.connectWs c connect).chains = [] ∨ (s.connectWs c connect).chains = [c] := by
  obtain ⟨hsockets, htimers⟩ := hidle
  have hnone : s.chains = [] := chains_of_idle ⟨hsockets, htimers⟩
  unfold St.connectWs
  split_ifs
  · cases connect with
    | noToken =>
      right
      simp only [St.chains, St.liveSockets, St.setTimeout, htimers]
      rw [show s.sockets.filter Socket.live = [] from hsockets]
      rfl
    | throws => exact .inl hnone
    | socket =>
      right
      simp only [St.chains, St.liveSockets, htimers]
      rw [List.filter_append, show s.sockets.filter Socket.live = [] from hsockets]
      rfl
  · exact .inl hnone

theorem connectWs_refs {s : St} (h : Refs s) (hidle : Idle s) (c : String) (connect : Connect) :
    Refs (s.connectWs c connect) := by
  obtain ⟨hsockets, htimers⟩ := hidle
  unfold St.connectWs
  rw [if_pos h.alive]
  cases connect with
  | noToken =>
    refine ⟨h.alive, h.wsRef, ?_, h.socketIds, fun k hk => (h.fresh k hk).trans (Nat.lt_succ_self _)⟩
    intro t ht
    simp only [St.setTimeout, htimers, List.nil_append, List.mem_singleton] at ht
    rw [ht]
    rfl
  | throws => exact h
  | socket =>
    refine ⟨h.alive, ?_, ?_, ?_, ?_⟩
    · intro x hx
      obtain ⟨hx, hlive⟩ := mem_liveSockets.1 hx
      rcases mem_snoc.1 hx with hx | rfl
      · exact absurd (mem_liveSockets.2 ⟨hx, hlive⟩) (by rw [hsockets]; exact List.not_mem_nil)
      · rfl
    · rw [htimers]
      exact List.forall_mem_nil _
    · exact nodup_keys_snoc h.socketIds fun hmem => (h.fresh _ hmem).ne rfl
    · intro k hk
      rw [List.map_append] at hk
      rcases mem_snoc.1 hk with hk | rfl
      · exact (h.fresh k hk).trans (Nat.lt_succ_self _)
      · exact Nat.lt_succ_self _

theorem liveSockets_close (s : St) (k : ℕ) : (s.close k).liveSockets = s.liveSockets.filter (·.id ≠ k) := by
  simp only [St.close, St.liveSockets]
  induction s.sockets with
  | nil => rfl
  | cons x l ih =>
    rw [List.map_cons]
    by_cases hid : x.id = k
    · have hclosed : ({ x with readyState := .closing } : Socket).live = false := rfl
      rw [if_pos hid, List.filter_cons_of_neg (by simp [hclosed]), ih]
      cases hx : x.live <;> simp [hx, hid]
    · rw [if_neg hid]
      cases hx : x.live <;> simp [hx, hid, ih]

theorem close_ids (s : St) (k : ℕ) : (s.close k).sockets.map Socket.id = s.sockets.map Socket.id :=
  map_update_keys (fun x => by split_ifs <;> rfl) _

theorem close_refs {s : St} (h : Refs s) (k : ℕ) : Refs (s.close k) := by
  refine ⟨h.alive, ?_, h.timer, close_ids s k ▸ h.socketIds, close_ids s k ▸ h.fresh⟩
  intro x hx
  rw [liveSockets_close] at hx
  exact h.wsRef x (List.mem_of_mem_filter hx)

/-- the cleanup of an effect stops what the refs lead to -/
theorem cleanup_idle {s : St} (h : Refs s) : Idle s.cleanup := by
  have htimers : s.timers.filter (fun t => some t.id ≠ s.reconnectTimer) = [] := by
    apply List.filter_eq_nil_iff.2
    intro t ht
    simp [h.timer t ht]
  unfold St.cleanup
  cases hws : s.wsRef with
  | none =>
    refine ⟨List.eq_nil_iff_forall_not_mem.2 fun x hx => ?_, htimers⟩
    have hnone := h.wsRef x hx
    rw [hws] at hnone
    cases hnone
  | some k =>
    refine ⟨?_, htimers⟩
    rw [liveSockets_close]
    apply List.filter_eq_nil_iff.2
    intro x hx
    have hk := h.wsRef x hx
    rw [hws] at hk
    simp [Option.some.inj hk]

theorem refs_of_idle {s : St} (hidle : Idle s) (halive : s.alive = true) (hids : (s.sockets.map Socket.id).Nodup)
    (hfresh : ∀ k ∈ s.sockets.map Socket.id, k < s.made) : Refs s := by
  refine ⟨halive, ?_, ?_, hids, hfresh⟩
  · rw [hidle.1]
    exact List.forall_mem_nil _
  · rw [hidle.2]
    exact List.forall_mem_nil _

theorem cleanup_ids (s : St) : s.cleanup.sockets.map Socket.id = s.sockets.map Socket.id := by
  unfold St.cleanup
  cases s.wsRef with
  | none => rfl
  | some k => exact close_ids _ k

theorem cleanup_made (s : St) : s.cleanup.made = s.made := by
  unfold St.cleanup
  cases s.wsRef <;> rfl

/-- an idle view connects for the channel that is shown -/
theorem connect_oneChain {s : St} (hidle : Idle s) {c : String} (hc : c = s.channelId)
    (hmessages : ∀ m ∈ s.extraMessages, m.channelId = s.channelId) (connect : Connect) :
    OneChain (s.connectWs c connect) := by
  have hchains := connectWs_chains hidle c connect
  refine ⟨?_, ?_, ?_⟩
  · rcases hchains with h | h <;> simp [h]
  · intro c' hc'
    rw [connectWs_channelId, ← hc]
    rcases hchains with h | h <;> simp_all
  · simpa using hmessages

/-! ## Steps -/

theorem navigate_kept {s : St} (h : Refs s) (hone : OneChain s) (channelId : String) (connect : Connect) :
    OneChain (step s (.navigate channelId connect)) ∧ Refs (step s (.navigate channelId connect)) := by
  simp only [step]
  split_ifs
  · exact ⟨hone, h⟩
  · obtain ⟨hsockets, htimers⟩ := cleanup_idle h
    have hidle :
        Idle { s.cleanup with channelId := channelId, view := s.view + 1, extraMessages := [], alive := true } :=
      ⟨hsockets, htimers⟩
    refine ⟨connect_oneChain hidle rfl (List.forall_mem_nil _) connect,
      connectWs_refs (refs_of_idle hidle rfl ?_ ?_) hidle _ _⟩
    · exact cleanup_ids s ▸ h.socketIds
    · exact cleanup_made s ▸ cleanup_ids s ▸ h.fresh

theorem timeout_kept {s : St} (h : Refs s) (hone : OneChain s) (t : ℕ) (connect : Connect) :
    OneChain (step s (.timeout t connect)) ∧ Refs (step s (.timeout t connect)) := by
  simp only [step]
  cases hfind : s.timers.find? (·.id = t) with
  | none => exact ⟨hone, h⟩
  | some timer =>
    obtain ⟨hmem, hid⟩ := find?_some_iff_mem hfind
    -- the timer is the one chain there is
    have hlength : s.liveSockets.length + s.timers.length ≤ 1 := by simpa [St.chains] using hone.one
    have htimers : s.timers = [timer] := by
      have hpos := List.length_pos_of_mem hmem
      obtain ⟨x, hx⟩ := List.length_eq_one_iff.1 (show s.timers.length = 1 by omega)
      rw [hx] at hmem ⊢
      rw [List.mem_singleton.1 hmem]
    have hsockets : s.liveSockets = [] := by
      rw [htimers, List.length_singleton] at hlength
      exact List.length_eq_zero_iff.1 (by omega)
    have hidle : Idle { s with timers := s.timers.filter (·.id ≠ t) } := ⟨hsockets, by rw [htimers]; simpa using hid⟩
    have hcurrent : timer.channelId = s.channelId :=
      hone.current _ (List.mem_append_right _ (List.mem_map_of_mem hmem))
    exact ⟨connect_oneChain hidle hcurrent hone.messages connect,
      connectWs_refs (refs_of_idle hidle h.alive h.socketIds h.fresh) hidle _ _⟩

/-- one chain less -/
theorem onerror_kept {s : St} (h : Refs s) (hone : OneChain s) (k : ℕ) :
    OneChain (step s (.onerror k)) ∧ Refs (step s (.onerror k)) := by
  have hsub : (s.close k).chains.Sublist s.chains := by
    rw [St.chains, liveSockets_close]
    exact (List.filter_sublist.map _).append_right _
  exact ⟨⟨hsub.length_le.trans hone.one, fun c hc => hone.current c (hsub.subset hc), hone.messages⟩, close_refs h k⟩

/-- sockets change, but none begins or ends to be live -/
theorem map_kept {s : St} (h : Refs s) (hone : OneChain s) {f : Socket → Socket} (hid : ∀ x, (f x).id = x.id)
    (hchannel : ∀ x, (f x).channelId = x.channelId) (hlive : ∀ x ∈ s.sockets, (f x).live = x.live) :
    OneChain { s with sockets := s.sockets.map f } ∧ Refs { s with sockets := s.sockets.map f } := by
  have hsockets : (s.sockets.map f).filter Socket.live = s.liveSockets.map f := by
    rw [List.filter_map]
    exact congrArg (List.map f) (List.filter_congr hlive)
  have hchains : ((s.sockets.map f).filter Socket.live).map Socket.channelId = s.liveSockets.map Socket.channelId := by
    rw [hsockets, List.map_map]
    exact List.map_congr_left fun x _ => hchannel x
  have hids : (s.sockets.map f).map Socket.id = s.sockets.map Socket.id := map_update_keys hid _
  have hone' : St.chains { s with sockets := s.sockets.map f } = s.chains := congrArg (· ++ _) hchains
  refine ⟨⟨hone' ▸ hone.one, hone' ▸ hone.current, hone.messages⟩,
    ⟨h.alive, ?_, h.timer, hids ▸ h.socketIds, hids ▸ h.fresh⟩⟩
  intro x hx
  have hx : x ∈ s.liveSockets.map f := hsockets ▸ hx
  obtain ⟨y, hy, rfl⟩ := List.mem_map.1 hx
  exact (hid y).symm ▸ h.wsRef y hy

theorem onopen_kept {s : St} (h : Refs s) (hone : OneChain s) (k : ℕ) :
    OneChain (step s (.onopen k)) ∧ Refs (step s (.onopen k)) := by
  simp only [step]
  split_ifs with hex
  · obtain ⟨x, hx, hid, hready⟩ := hex
    have hrefs : Refs { s with reconnectAttempts := 0 } := ⟨h.alive, h.wsRef, h.timer, h.socketIds, h.fresh⟩
    have hone' : OneChain { s with reconnectAttempts := 0 } := ⟨hone.one, hone.current, hone.messages⟩
    apply map_kept hrefs hone'
    · exact fun y => by split_ifs <;> rfl
    · exact fun y => by split_ifs <;> rfl
    · intro y hy
      split_ifs with hyid
      · have hself : y = x := eq_of_key h.socketIds hy hx (hyid.trans hid.symm)
        simp [hself, Socket.live, hready]
      · rfl
  · exact ⟨hone, h⟩

theorem onclose_of_alive {s : St} (x : Socket) (h : s.alive = true) : s.onclose x =
    { St.setTimeout { s with sockets := s.sockets.filter (·.id ≠ x.id) } x.channelId (delay s.reconnectAttempts) with
      reconnectAttempts := s.reconnectAttempts + 1 } := if_pos h

/-- a socket has closed: its timer is the one chain exactly if there was no other -/
theorem onclose_kept {s : St} (h : Refs s) (hone : OneChain s) (k : ℕ) :
    (OneChain (step s (.onclose k)) ↔ Kept s (.onclose k)) ∧ (Kept s (.onclose k) → Refs (step s (.onclose k))) := by
  simp only [step, Kept]
  cases hfind : s.sockets.find? (·.id = k) with
  | none =>
    refine ⟨⟨fun _ x hx hid => ?_, fun _ => hone⟩, fun _ => h⟩
    exact absurd (decide_eq_true hid) (List.find?_eq_none.1 hfind x hx)
  | some x =>
    obtain ⟨hx, hid⟩ := find?_some_iff_mem hfind
    obtain rfl : x.id = k := of_decide_eq_true hid
    have hlive : ∀ y, y ∈ (s.sockets.filter (·.id ≠ x.id)).filter Socket.live ↔
        y ∈ s.sockets ∧ y.id ≠ x.id ∧ y.live = true := by
      intro y
      rw [List.mem_filter, List.mem_filter, decide_eq_true_iff, and_assoc]
    simp only [onclose_of_alive x h.alive]
    refine ⟨⟨?_, ?_⟩, ?_⟩
    · intro hstep y hy hyid
      have hlength := hstep.one
      simp only [St.chains, St.liveSockets, St.setTimeout, List.length_append, List.length_map,
        List.length_singleton] at hlength
      obtain rfl : y = x := eq_of_key h.socketIds hy hx hyid
      refine ⟨hstep.current _ (by simp [St.chains, St.setTimeout]), ?_, List.length_eq_zero_iff.1 (by omega)⟩
      intro z hz hzlive
      by_contra hne
      have hpos := List.length_pos_of_mem ((hlive z).2 ⟨hz, hne, hzlive⟩)
      omega
    · intro hkept
      obtain ⟨hchannel, hother, htimers⟩ := hkept x hx rfl
      have hsockets : (s.sockets.filter (·.id ≠ x.id)).filter Socket.live = [] := by
        apply List.eq_nil_iff_forall_not_mem.2
        intro y hy
        obtain ⟨hys, hne, hylive⟩ := (hlive y).1 hy
        exact hne (hother y hys hylive)
      have hchains : St.chains (St.setTimeout { s with sockets := s.sockets.filter (·.id ≠ x.id) } x.channelId
          (delay s.reconnectAttempts)) = [x.channelId] := by
        simp only [St.chains, St.liveSockets, St.setTimeout, hsockets, htimers]
        rfl
      refine ⟨(congrArg List.length hchains).le, ?_, hone.messages⟩
      intro c hc
      exact (List.mem_singleton.1 (hchains ▸ hc)).trans hchannel
    · intro hkept
      obtain ⟨-, hother, htimers⟩ := hkept x hx rfl
      refine ⟨h.alive, ?_, ?_, h.socketIds.sublist (List.filter_sublist.map _), ?_⟩
      · intro y hy
        obtain ⟨hys, hne, hylive⟩ := (hlive y).1 hy
        exact absurd (hother y hys hylive) hne
      · intro t ht
        simp only [St.setTimeout, htimers, List.nil_append, List.mem_singleton] at ht
        rw [ht]
        rfl
      · intro j hj
        exact (h.fresh j ((List.filter_sublist.map _).subset hj)).trans (Nat.lt_succ_self _)

/-- the messages change, and the sockets and timers do not -/
theorem messages_kept {s : St} (h : Refs s) (hone : OneChain s) {l : List Message} {sends : List Send}
    (hl : ∀ m ∈ l, m.channelId = s.channelId) :
    OneChain { s with extraMessages := l, sends := sends } ∧ Refs { s with extraMessages := l, sends := sends } :=
  ⟨⟨hone.one, hone.current, hl⟩, ⟨h.alive, h.wsRef, h.timer, h.socketIds, h.fresh⟩⟩

theorem onmessage_kept {s : St} (h : Refs s) (hone : OneChain s) (k : ℕ) (type : String) (payload : Stored) :
    OneChain (step s (.onmessage k type payload)) ∧ Refs (step s (.onmessage k type payload)) := by
  simp only [step]
  cases hfind : s.sockets.find? (·.id = k) with
  | none => exact ⟨hone, h⟩
  | some x =>
    simp only
    split_ifs with hdelivered
    · obtain ⟨hopened, -, hchannel⟩ := hdelivered
      have hlive : x ∈ s.liveSockets := by
        refine mem_liveSockets.2 ⟨(find?_some_iff_mem hfind).1, ?_⟩
        simp [Socket.live, hopened]
      have hcurrent : x.channelId = s.channelId :=
        hone.current _ (List.mem_append_left _ (List.mem_map_of_mem hlive))
      apply messages_kept h hone
      intro m hm
      rcases mem_of_mem_appendNew hm with hm | rfl
      · exact hone.messages m hm
      · exact hchannel.trans hcurrent
    · exact ⟨hone, h⟩

theorem failed_kept {s : St} (h : Refs s) (hone : OneChain s) (i : ℕ) (send : Send) :
    OneChain (s.settle i send none) ∧ Refs (s.settle i send none) :=
  messages_kept h hone fun m hm => hone.messages m (List.mem_of_mem_filter hm)

theorem threw_kept {s : St} (h : Refs s) (hone : OneChain s) (i : ℕ) :
    OneChain (step s (.threw i)) ∧ Refs (step s (.threw i)) := by
  simp only [step]
  split
  · split_ifs
    · exact failed_kept h hone i _
    · exact ⟨hone, h⟩
  · exact ⟨hone, h⟩

theorem handleSend_kept {s : St} (h : Refs s) (hone : OneChain s) (currentUser : Option CurrentUser) (content : String)
    (now : ℕ) (createdAt : String) : OneChain (step s (.handleSend currentUser content now createdAt)) ∧
      Refs (step s (.handleSend currentUser content now createdAt)) := by
  cases currentUser with
  | none => exact ⟨hone, h⟩
  | some user =>
    apply messages_kept h hone
    intro m hm
    rcases mem_snoc.1 hm with hm | rfl
    · exact hone.messages m hm
    · rfl

/-- a created message takes the place of a placeholder, if there is one, exactly if it is of the channel that is shown -/
theorem created_kept {s : St} (h : Refs s) (hone : OneChain s) (i : ℕ) (send : Send) (real : Message) :
    (OneChain (s.settle i send (some real)) ↔ (real.messageId ∉ ids s.extraMessages →
      send.tempId ∈ ids s.extraMessages → real.channelId = s.channelId)) ∧ Refs (s.settle i send (some real)) := by
  refine ⟨⟨?_, ?_⟩, ⟨h.alive, h.wsRef, h.timer, h.socketIds, h.fresh⟩⟩
  · intro hstep hnew htemp
    obtain ⟨m, hm, hid⟩ := List.mem_map.1 htemp
    have hmem : { real with username := some send.username } ∈ confirm send.tempId real send.username s.extraMessages := by
      rw [confirm, if_neg (mt any_iff_mem.1 hnew)]
      exact List.mem_map.2 ⟨m, hm, if_pos hid⟩
    exact hstep.messages { real with username := some send.username } hmem
  · intro hchannel
    apply (messages_kept h hone _).1
    intro m hm
    rcases mem_of_mem_confirm hm with hm | ⟨rfl, hnew, htemp⟩
    · exact hone.messages m hm
    · exact hchannel hnew htemp

theorem answered_kept {s : St} (h : Refs s) (hone : OneChain s) (i status : ℕ) (real : Option Stored) :
    (OneChain (step s (.answered i status real)) ↔ Kept s (.answered i status real)) ∧
      Refs (step s (.answered i status real)) := by
  simp only [step, Kept]
  cases hi : s.sends[i]? with
  | none => exact ⟨⟨fun _ _ => by simp, fun _ => hone⟩, h⟩
  | some send =>
    simp only [Option.some.injEq, forall_eq']
    split_ifs with hpending hcreated
    · cases real with
      | none =>
        obtain ⟨hone', hrefs⟩ := failed_kept h hone i send
        exact ⟨⟨fun _ _ _ => by simp, fun _ => hone'⟩, hrefs⟩
      | some x =>
        obtain ⟨hiff, hrefs⟩ := created_kept h hone i send { x.toMessage with channelId := send.channelId }
        refine ⟨hiff.trans ?_, hrefs⟩
        simp [hpending, hcreated, Stored.toMessage]
    · obtain ⟨hone', hrefs⟩ := failed_kept h hone i send
      exact ⟨⟨fun _ _ hc => absurd hc hcreated, fun _ => hone'⟩, hrefs⟩
    · exact ⟨⟨fun _ hp => absurd hp hpending, fun _ => hone⟩, h⟩

/-- only an `onclose` and the answer to a POST can break it -/
theorem step_kept {s : St} (h : Refs s) (hone : OneChain s) (o : Op) :
    (OneChain (step s o) ↔ Kept s o) ∧ (Kept s o → Refs (step s o)) := by
  have hfree : ∀ {s' : St}, OneChain s' ∧ Refs s' → (OneChain s' ↔ True) ∧ (True → Refs s') :=
    fun hs => ⟨iff_true_intro hs.1, fun _ => hs.2⟩
  cases o with
  | navigate channelId connect => exact hfree (navigate_kept h hone channelId connect)
  | handleSend currentUser content now createdAt => exact hfree (handleSend_kept h hone currentUser content now createdAt)
  | answered i status real => exact (answered_kept h hone i status real).imp_right fun hrefs _ => hrefs
  | threw i => exact hfree (threw_kept h hone i)
  | onopen k => exact hfree (onopen_kept h hone k)
  | onmessage k type payload => exact hfree (onmessage_kept h hone k type payload)
  | onerror k => exact hfree (onerror_kept h hone k)
  | onclose k => exact onclose_kept h hone k
  | timeout t connect => exact hfree (timeout_kept h hone t connect)

theorem start_kept (channelId : String) (connect : Connect) :
    OneChain (start channelId connect) ∧ Refs (start channelId connect) := by
  have hidle : Idle ⟨channelId, 0, [], [], true, none, none, 0, [], [], 0⟩ := ⟨rfl, rfl⟩
  exact ⟨connect_oneChain hidle rfl (List.forall_mem_nil _) connect,
    connectWs_refs (refs_of_idle hidle rfl List.nodup_nil (List.forall_mem_nil _)) hidle channelId connect⟩

/-- **One live socket, one channel.** In a run, every state has at most one reconnect chain, for the channel that is shown,
and messages of that channel only, exactly if every step of the run meets the condition. -/
theorem oneChain_iff (channelId : String) (connect : Connect) (ops : List Op) :
    (∀ a, a <+: ops → OneChain (run step (start channelId connect) a)) ↔
      Along step Kept (start channelId connect) ops := by
  obtain ⟨hone, hrefs⟩ := start_kept channelId connect
  apply always_iff_along _ _ hrefs hone
  · exact fun s o h hone => (step_kept h hone o).1
  · exact fun s o h hone => (step_kept h hone o).2

def news : Stored := ⟨7, "a", "alice", "hi", "2026-01-01T00:00:00Z", none⟩

/-- the channel changes, and the old socket closes after the new effect has started -/
def lateClose : List Op :=
  [.onopen 0, .navigate "b" .socket, .onclose 0, .timeout 2 .socket, .onopen 3, .onmessage 3 "new_message" news]

/-- **A late close revives the old channel.** The old socket's `onclose` finds `alive` set by the next effect and schedules
its own `connectWs`: two chains, one of them for the channel that was left, whose messages come into the list. -/
theorem late_close :
    let s := run step (start "a" .socket) lateClose
    s.channelId = "b" ∧ s.chains = ["b", "a"] ∧ s.extraMessages = [news.toMessage] ∧
      ¬ ∀ a, a <+: lateClose → OneChain (run step (start "a" .socket) a) := by
  refine ⟨by decide, by decide, by decide, fun h => ?_⟩
  have hlength := (h lateClose List.prefix_rfl).one
  revert hlength
  decide

end Concordia.Web.ChannelView
