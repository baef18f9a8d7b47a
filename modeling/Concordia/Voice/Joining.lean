/-
A voice channel on the screen (`apps/web-app/app/components/VoiceChannelView.tsx`): `handleJoin` with its awaits,
`handleLeave`, `doCleanup` and the events of the signaling sockets, from the mounting of the component to its unmounting and
beyond.

- `stage` is what `handleJoin` awaits. The component may be unmounted meanwhile, and `handleJoin` goes on. A button can be
  clicked only while it is shown and enabled; `joined` is the ref, and the state behind the buttons, which are set together.
- A socket on which `close()` was called is `closing` until its `onclose` runs, and gets no messages any more.
- A message is handled up to its first `await`, which is all that it does to the peers.
- The voice service hears a join or a leave request at any later moment, in any order, or never. The answer to an accepted
  join may be lost, and nobody awaits the answer to a leave.
- `member`: the last request that the service has heard was a join, if those that it refused do not count.

Main results:
- `held_for_call`: the microphone, the socket and the connections are in use during a call or a join only, each once;
  without its view a call goes on exactly if the view was left while joining.
- `released_for_good`: a view that is left while it is not joining holds nothing from then on.
- `unleft_since`: when the service is left believing that the user is there.

The page itself stays. The list of participants on the screen, the audio elements, the errors and the buffered candidates are left out.
-/
import Concordia.Lib.Run

namespace Concordia.Voice.Joining

open Concordia.Lib

/-! ## Data -/

/-- what `handleJoin` awaits -/
inductive Stage where
  | idle
  /-- the answer to the join -/
  | joining
  /-- the microphone -/
  | asking
  /-- the participants -/
  | listing
deriving DecidableEq, Repr

inductive ReadyState where
  | connecting
  | opened
  | closing
deriving DecidableEq, Repr

/-- the participants of a channel are members of a sorted set -/
abbrev UserIds := {ids : List String // ids.Nodup}

structure Socket where
  id : ℕ
  readyState : ReadyState
  /-- to whom its `onopen` sends offers -/
  existingUserIds : UserIds
deriving DecidableEq, Repr

/-- the requests to the voice service, and what it has heard -/
structure Service where
  /-- the joins that it has not heard, by number -/
  joins : List ℕ
  /-- how many joins were requested; the last is the one that is awaited -/
  requested : ℕ
  /-- it has accepted the last join -/
  accepted : Bool
  /-- the leave requests that are on their way -/
  leaves : ℕ
  member : Bool
deriving DecidableEq, Repr

structure St where
  mounted : Bool
  stage : Stage
  joined : Bool
  wsRef : Option ℕ
  localStream : Option ℕ
  /-- `peersRef` -/
  peers : List (String × ℕ)
  /-- sockets whose `onclose` has not run -/
  sockets : List Socket
  /-- streams whose tracks are live -/
  microphones : List ℕ
  /-- connections that are not closed -/
  connections : List ℕ
  service : Service
  /-- sockets, streams and connections made so far -/
  made : ℕ
deriving DecidableEq, Repr

inductive Message where
  | offer (sender : String)
  | participantLeft (userId : String)
  /-- `participant_joined`, `answer`, `ice-candidate` and anything else -/
  | other
deriving DecidableEq, Repr

inductive Op where
  /-- the button is clicked -/
  | join
  /-- the answer to an accepted join comes in, or the join was refused, or something throws -/
  | joinAnswered (ok : Bool)
  | media (granted : Bool)
  /-- the participants are answered, none of them where the status is an error; `none` where something throws. `connects`:
  an access token is stored, and the socket can be made. -/
  | listed (existingUserIds : Option UserIds) (connects : Bool)
  | onopen (socket : ℕ)
  | onmessage (socket : ℕ) (message : Message)
  | onerror (socket : ℕ)
  | onclose (socket : ℕ)
  | leave
  | unmount
  /-- the service hears a join -/
  | hearJoin (join : ℕ) (accepts : Bool)
  | hearLeave
  /-- a leave request fails -/
  | loseLeave
deriving DecidableEq, Repr

/-! ## Steps -/

namespace Service

def requestJoin (v : Service) : Service :=
  { v with joins := v.joins ++ [v.requested + 1], requested := v.requested + 1, accepted := false }

def hearJoin (v : Service) (join : ℕ) (accepts : Bool) : Service :=
  if join ∈ v.joins then
    { v with
      joins := v.joins.erase join
      accepted := v.accepted || accepts && join = v.requested
      member := v.member || accepts }
  else v

def requestLeave (v : Service) : Service := { v with leaves := v.leaves + 1 }

def hearLeave (v : Service) : Service := if 0 < v.leaves then { v with leaves := v.leaves - 1, member := false } else v

def loseLeave (v : Service) : Service := { v with leaves := v.leaves - 1 }

end Service

namespace St

def makePeer (s : St) (userId : String) : St :=
  { s with
    peers := s.peers.filter (·.1 ≠ userId) ++ [(userId, s.made)]
    connections := s.connections ++ [s.made]
    made := s.made + 1 }

def removePeer (s : St) (userId : String) : St :=
  { s with
    peers := s.peers.filter (·.1 ≠ userId)
    connections := s.connections.filter fun k => s.peers.lookup userId ≠ some k }

/-- the part of `handleMessage` before the first `await` -/
def handleMessage (s : St) : Message → St
  | .offer sender => if sender ≠ "" ∧ (s.peers.lookup sender).isNone then s.makePeer sender else s
  | .participantLeft userId => if userId ≠ "" then s.removePeer userId else s
  | .other => s

/-- `ws.close()` -/
def close (s : St) (k : ℕ) : St :=
  { s with sockets := s.sockets.map fun x => if x.id = k then { x with readyState := .closing } else x }

/-- the tracks of `localStreamRef` are stopped, and it is set to null -/
def stopStream (s : St) : St :=
  { s with microphones := s.microphones.filter fun m => s.localStream ≠ some m, localStream := none }

def doCleanup (s : St) (callLeaveApi : Bool) : St :=
  let closed := match s.wsRef with
    | some k => s.close k
    | none => s
  { closed.stopStream with
    wsRef := none
    connections := s.connections.filter fun k => k ∉ s.peers.map Prod.snd
    peers := []
    joined := false
    service := if callLeaveApi then s.service.requestLeave else s.service }

/-- the end of `handleJoin`, from `new WebSocket` on -/
def connect (s : St) (existingUserIds : UserIds) : St :=
  { s with
    stage := .idle
    joined := true
    wsRef := some s.made
    sockets := s.sockets ++ [⟨s.made, .connecting, existingUserIds⟩]
    made := s.made + 1 }

/-- the `catch` of `handleJoin` -/
def failed (s : St) : St := { s.stopStream with stage := .idle }

end St

def step (s : St) : Op → St
  | .join =>
    if s.mounted ∧ ¬ s.joined ∧ s.stage = .idle then { s with stage := .joining, service := s.service.requestJoin } else s
  | .joinAnswered ok =>
    if s.stage = .joining ∧ (ok → s.service.accepted) then { s with stage := if ok then .asking else .idle } else s
  | .media granted =>
    if s.stage = .asking then
      if granted then
        { s with
          stage := .listing
          localStream := some s.made
          microphones := s.microphones ++ [s.made]
          made := s.made + 1 }
      else { s with stage := .idle }
    else s
  | .listed existingUserIds connects =>
    if s.stage = .listing then
      match existingUserIds with
      | some ids =>
        if connects then s.connect ids else s.failed
      | none => s.failed
    else s
  | .onopen k =>
    match s.sockets.find? (·.id = k) with
    | some x =>
      if x.readyState = .connecting then
        x.existingUserIds.1.foldl St.makePeer
          { s with sockets := s.sockets.map fun x => if x.id = k then { x with readyState := .opened } else x }
      else s
    | none => s
  | .onmessage k message =>
    match s.sockets.find? (·.id = k) with
    | some x => if x.readyState = .opened then s.handleMessage message else s
    | none => s
  | .onerror k => s.close k
  | .onclose k =>
    match s.sockets.find? (·.id = k) with
    | some _ =>
      let s := { s with sockets := s.sockets.filter (·.id ≠ k) }
      if s.joined then s.doCleanup false else s
    | none => s
  | .leave => if s.mounted ∧ s.joined then s.doCleanup true else s
  | .unmount =>
    if s.mounted then
      let s := { s with mounted := false }
      if s.joined then s.doCleanup true else s
    else s
  | .hearJoin join accepts => { s with service := s.service.hearJoin join accepts }
  | .hearLeave => { s with service := s.service.hearLeave }
  | .loseLeave => { s with service := s.service.loseLeave }

/-- the component has been mounted -/
def start : St := ⟨true, .idle, false, none, none, [], [], [], [], ⟨[], 0, false, 0, false⟩, 0⟩

def reached (ops : List Op) : St := run step start ops

/-- the sockets that can still bring messages -/
def St.live (s : St) : List ℕ := (s.sockets.filter fun x => x.readyState ≠ .closing).map Socket.id

/-! ## Connections -/

/-- the open connections are those of the peers, one for each -/
structure Tidy (s : St) : Prop where
  connections : s.connections = s.peers.map Prod.snd
  keys : (s.peers.map Prod.fst).Nodup
  nodup : s.connections.Nodup
  below : ∀ k ∈ s.connections, k < s.made

theorem lookup_isNone {peers : List (String × ℕ)} {u : String} : (peers.lookup u).isNone = true ↔ u ∉ peers.map Prod.fst := by
  induction peers with
  | nil => simp
  | cons p peers ih =>
    rcases eq_or_ne u p.1 with rfl | hne
    · simp
    · have hkey : (u == p.1) = false := beq_false_of_ne hne
      rw [List.lookup_cons, hkey, List.map_cons, List.mem_cons]
      simp only [hne, false_or]
      exact ih

theorem filter_absent {peers : List (String × ℕ)} {u : String} (h : u ∉ peers.map Prod.fst) :
    peers.filter (·.1 ≠ u) = peers := by
  refine List.filter_eq_self.2 fun p hp => ?_
  have hne : p.1 ≠ u := fun heq => h (heq ▸ List.mem_map_of_mem hp)
  exact decide_eq_true hne

theorem Tidy.makePeer {s : St} (h : Tidy s) {u : String} (hu : u ∉ s.peers.map Prod.fst) : Tidy (s.makePeer u) := by
  have hfresh : s.made ∉ s.connections := fun hk => lt_irrefl _ (h.below _ hk)
  refine ⟨?_, ?_, ?_, ?_⟩
  · simp only [St.makePeer, filter_absent hu, h.connections, List.map_append, List.map_cons, List.map_nil]
  · simp only [St.makePeer, filter_absent hu, List.map_append, List.map_cons, List.map_nil]
    exact List.nodup_append_comm.1 (List.nodup_cons.2 ⟨hu, h.keys⟩)
  · exact List.nodup_append_comm.1 (List.nodup_cons.2 ⟨hfresh, h.nodup⟩)
  · intro k hk
    rcases List.mem_append.1 hk with hk | hk
    · exact Nat.lt_succ_of_lt (h.below k hk)
    · rw [List.mem_singleton.1 hk]
      exact Nat.lt_succ_self _

/-- peers for a list of users that have none; nothing else changes -/
theorem makePeers {s : St} (h : Tidy s) {ids : List String} (hids : ids.Nodup)
    (hnew : ∀ u ∈ ids, u ∉ s.peers.map Prod.fst) : ∃ peers connections made, s.made ≤ made ∧
      ids.foldl St.makePeer s = { s with peers := peers, connections := connections, made := made } ∧
      Tidy (ids.foldl St.makePeer s) := by
  induction ids generalizing s with
  | nil => exact ⟨_, _, _, le_rfl, rfl, h⟩
  | cons u ids ih =>
    obtain ⟨hu, hids⟩ := List.nodup_cons.1 hids
    have hhead := hnew u List.mem_cons_self
    have hrest : ∀ v ∈ ids, v ∉ (s.makePeer u).peers.map Prod.fst := by
      intro v hv
      simp only [St.makePeer, filter_absent hhead, List.map_append, List.map_cons, List.map_nil, List.mem_append,
        List.mem_singleton, not_or]
      exact ⟨hnew v (List.mem_cons_of_mem _ hv), fun heq => hu (heq ▸ hv)⟩
    obtain ⟨peers, connections, made, hle, heq, htidy⟩ := ih (h.makePeer hhead) hids hrest
    exact ⟨peers, connections, made, (Nat.le_succ _).trans hle, heq, htidy⟩

theorem filter_lookup {peers : List (String × ℕ)} (hkeys : (peers.map Prod.fst).Nodup)
    (hids : (peers.map Prod.snd).Nodup) (u : String) :
    (peers.filter (·.1 ≠ u)).map Prod.snd = (peers.map Prod.snd).filter fun k => peers.lookup u ≠ some k := by
  induction peers with
  | nil => rfl
  | cons p peers ih =>
    obtain ⟨v, k⟩ := p
    obtain ⟨hv, hkeys⟩ := List.nodup_cons.1 hkeys
    obtain ⟨hk, hids⟩ := List.nodup_cons.1 hids
    rcases eq_or_ne u v with rfl | hne
    · have hrest : (peers.map Prod.snd).filter (fun k' => decide (some k ≠ some k')) = peers.map Prod.snd :=
        List.filter_eq_self.2 fun k' hk' => decide_eq_true fun heq => hk (Option.some.inj heq ▸ hk')
      simp only [List.lookup_cons_self, List.map_cons]
      rw [List.filter_cons_of_neg (by simp), List.filter_cons_of_neg (by simp), hrest, filter_absent hv]
    · have hlookup : ((v, k) :: peers).lookup u = peers.lookup u := by
        rw [List.lookup_cons, beq_false_of_ne hne]
      have hother : peers.lookup u ≠ some k := by
        intro h
        obtain ⟨before, after, rfl, -⟩ := List.lookup_eq_some_iff.1 h
        exact hk (by simp)
      rw [hlookup, List.filter_cons_of_pos (by simpa using hne.symm), List.map_cons, List.map_cons,
        List.filter_cons_of_pos (by simpa using hother), ih hkeys hids]

theorem Tidy.removePeer {s : St} (h : Tidy s) (u : String) : Tidy (s.removePeer u) := by
  refine ⟨?_, h.keys.sublist (List.filter_sublist.map _), h.nodup.filter _, fun k hk => h.below k (List.mem_filter.1 hk).1⟩
  simp only [St.removePeer]
  rw [h.connections, filter_lookup h.keys (h.connections ▸ h.nodup)]

theorem Tidy.handleMessage {s : St} (h : Tidy s) (message : Message) : Tidy (s.handleMessage message) := by
  cases message with
  | offer sender =>
    simp only [St.handleMessage]
    split_ifs with hnew
    · exact h.makePeer (lookup_isNone.1 hnew.2)
    · exact h
  | participantLeft userId =>
    simp only [St.handleMessage]
    split_ifs
    · exact h.removePeer userId
    · exact h
  | other => exact h

/-- a message changes nothing but the peers -/
theorem handleMessage_frame (s : St) (message : Message) : ∃ peers connections made, s.made ≤ made ∧
    s.handleMessage message = { s with peers := peers, connections := connections, made := made } := by
  cases message with
  | offer sender =>
    simp only [St.handleMessage]
    split_ifs
    · exact ⟨_, _, _, Nat.le_succ _, rfl⟩
    · exact ⟨_, _, _, le_rfl, rfl⟩
  | participantLeft userId =>
    simp only [St.handleMessage]
    split_ifs
    · exact ⟨_, _, _, le_rfl, rfl⟩
    · exact ⟨_, _, _, le_rfl, rfl⟩
  | other => exact ⟨_, _, _, le_rfl, rfl⟩

/-! ## The invariant -/

structure Inv (s : St) : Prop where
  tidy : Tidy s
  ids : (s.sockets.map Socket.id).Nodup
  below : ∀ x ∈ s.sockets, x.id < s.made
  /-- a socket that is not the current one has been closed -/
  live : ∀ x ∈ s.sockets, x.readyState ≠ .closing → s.wsRef = some x.id
  current : ∀ k, s.wsRef = some k → ∃ x ∈ s.sockets, x.id = k
  joined : s.joined = s.wsRef.isSome
  /-- there are no peers before `onopen` -/
  connecting : ∀ x ∈ s.sockets, x.readyState = .connecting → s.peers = []
  alone : s.joined = false → s.peers = []
  idle : s.joined = true → s.stage = .idle
  stream : s.localStream.isSome = (s.joined || decide (s.stage = .listing))
  microphones : s.microphones = s.localStream.toList

/-- during a join there is no call -/
theorem Inv.not_joined {s : St} (h : Inv s) (hstage : s.stage ≠ .idle) : s.joined = false :=
  Bool.eq_false_of_not_eq_true fun hjoined => hstage (h.idle hjoined)

theorem inv_start : Inv start :=
  ⟨⟨rfl, List.nodup_nil, List.nodup_nil, List.forall_mem_nil _⟩, List.nodup_nil, List.forall_mem_nil _,
    List.forall_mem_nil _, by simp [start], rfl, List.forall_mem_nil _, fun _ => rfl, by simp [start], rfl, rfl⟩

theorem close_ids (s : St) (k : ℕ) : (s.close k).sockets.map Socket.id = s.sockets.map Socket.id := by
  rw [St.close, List.map_map]
  refine List.map_congr_left fun x _ => ?_
  by_cases hx : x.id = k <;> simp [hx]

theorem mem_close {s : St} {k : ℕ} {x : Socket} (hx : x ∈ (s.close k).sockets) :
    ∃ y ∈ s.sockets, y.id = x.id ∧ (x.readyState = .closing ∨ x = y ∧ x.id ≠ k) := by
  obtain ⟨y, hy, rfl⟩ := List.mem_map.1 hx
  refine ⟨y, hy, ?_⟩
  split_ifs with hk
  · exact ⟨rfl, .inl rfl⟩
  · exact ⟨rfl, .inr ⟨rfl, hk⟩⟩

theorem Inv.close {s : St} (h : Inv s) (k : ℕ) : Inv (s.close k) := by
  refine { h with ids := ?_, below := ?_, live := ?_, current := ?_, connecting := ?_, tidy := ?_ }
  · exact ⟨h.tidy.connections, h.tidy.keys, h.tidy.nodup, h.tidy.below⟩
  · rw [close_ids]
    exact h.ids
  · intro x hx
    obtain ⟨y, hy, hid, -⟩ := mem_close hx
    exact hid ▸ h.below y hy
  · intro x hx hlive
    obtain ⟨y, hy, -, hclosing | ⟨rfl, -⟩⟩ := mem_close hx
    · exact absurd hclosing hlive
    · exact h.live x hy hlive
  · intro k' hk'
    obtain ⟨x, hx, hid⟩ := h.current k' hk'
    have hmem : k' ∈ (s.close k).sockets.map Socket.id := close_ids s k ▸ List.mem_map.2 ⟨x, hx, hid⟩
    exact List.mem_map.1 hmem
  · intro x hx hconnecting
    obtain ⟨y, hy, -, hclosing | ⟨rfl, -⟩⟩ := mem_close hx
    · rw [hclosing] at hconnecting
      cases hconnecting
    · exact h.connecting x hy hconnecting

/-- what `doCleanup` needs: the current socket's `onclose` may be the one that is running -/
theorem cleaned {s : St} (htidy : Tidy s) (hids : (s.sockets.map Socket.id).Nodup) (hbelow : ∀ x ∈ s.sockets, x.id < s.made)
    (hlive : ∀ x ∈ s.sockets, x.readyState ≠ .closing → s.wsRef = some x.id) (hstage : s.stage = .idle)
    (hmicrophones : s.microphones = s.localStream.toList) (callLeaveApi : Bool) : Inv (s.doCleanup callLeaveApi) := by
  have hconnections : (s.doCleanup callLeaveApi).connections = [] := by
    simp only [St.doCleanup]
    rw [htidy.connections]
    exact List.filter_eq_nil_iff.2 fun k hk => by simpa using hk
  have hsilent : (s.microphones.filter fun m => s.localStream ≠ some m) = [] := by
    rw [hmicrophones]
    cases s.localStream <;> simp
  have hsockets : ∀ x ∈ (s.doCleanup callLeaveApi).sockets, x.readyState = .closing ∧ ∃ y ∈ s.sockets, y.id = x.id := by
    intro x hx
    unfold St.doCleanup at hx
    cases hws : s.wsRef with
    | none =>
      rw [hws] at hx
      refine ⟨?_, x, hx, rfl⟩
      by_contra hopen
      exact absurd ((hlive x hx hopen).symm.trans hws) (by simp)
    | some k =>
      rw [hws] at hx
      obtain ⟨y, hy, hid, hclosing | ⟨rfl, hother⟩⟩ := mem_close hx
      · exact ⟨hclosing, y, hy, hid⟩
      · refine ⟨?_, x, hy, rfl⟩
        by_contra hopen
        exact hother (Option.some.inj ((hlive x hy hopen).symm.trans hws))
  have hsame : (s.doCleanup callLeaveApi).sockets.map Socket.id = s.sockets.map Socket.id := by
    unfold St.doCleanup
    cases s.wsRef with
    | none => rfl
    | some k => exact close_ids s k
  refine ⟨⟨?_, List.nodup_nil, ?_, ?_⟩, hsame ▸ hids, ?_, ?_, ?_, rfl, ?_, fun _ => rfl, ?_, ?_, ?_⟩
  · exact hconnections
  · rw [hconnections]
    exact List.nodup_nil
  · intro k hk
    rw [hconnections] at hk
    cases hk
  · intro x hx
    obtain ⟨-, y, hy, hid⟩ := hsockets x hx
    have hmade : (s.doCleanup callLeaveApi).made = s.made := by
      unfold St.doCleanup
      cases s.wsRef <;> rfl
    rw [hmade, ← hid]
    exact hbelow y hy
  · exact fun x hx hopen => absurd (hsockets x hx).1 hopen
  · exact fun k hk => absurd hk (by simp [St.doCleanup])
  · intro x hx hconnecting
    rw [(hsockets x hx).1] at hconnecting
    cases hconnecting
  · intro hjoined
    cases hjoined
  · have hkept : (s.doCleanup callLeaveApi).stage = s.stage := by
      unfold St.doCleanup
      cases s.wsRef <;> rfl
    rw [hkept, hstage]
    rfl
  · have hkept : (s.doCleanup callLeaveApi).microphones = s.microphones.filter fun m => s.localStream ≠ some m := by
      unfold St.doCleanup
      cases s.wsRef <;> rfl
    rw [hkept, hsilent]
    rfl

theorem Inv.cleaned {s : St} (h : Inv s) (hjoined : s.joined = true) (callLeaveApi : Bool) :
    Inv (s.doCleanup callLeaveApi) :=
  Joining.cleaned h.tidy h.ids h.below h.live (h.idle hjoined) h.microphones callLeaveApi

/-- the messages and the opening of a socket change the peers of a call -/
theorem Inv.peers {s t : St} (h : Inv s) {peers : List (String × ℕ)} {connections : List ℕ} {made : ℕ} (hle : s.made ≤ made)
    (ht : t = { s with peers := peers, connections := connections, made := made }) (htidy : Tidy t)
    (hconnecting : ∀ x ∈ s.sockets, x.readyState ≠ .connecting) (hjoined : s.joined = true) : Inv t := by
  subst ht
  refine { h with tidy := htidy, below := ?_, connecting := ?_, alone := ?_ }
  · exact fun x hx => (h.below x hx).trans_le hle
  · exact fun x hx hstate => absurd hstate (hconnecting x hx)
  · exact fun hnot => absurd (hnot.symm.trans hjoined) (by simp)

theorem mem_of_find {s : St} {k : ℕ} {x : Socket} (h : s.sockets.find? (·.id = k) = some x) : x ∈ s.sockets ∧ x.id = k :=
  ⟨List.mem_of_find?_eq_some h, by simpa using List.find?_some h⟩

/-- a socket that is not closed is that of the call -/
theorem Inv.of_live {s : St} (h : Inv s) {x : Socket} (hx : x ∈ s.sockets) (hlive : x.readyState ≠ .closing) :
    s.joined = true ∧ ∀ y ∈ s.sockets, y.readyState ≠ .closing → y = x := by
  have hws := h.live x hx hlive
  refine ⟨by rw [h.joined, hws]; rfl, fun y hy hopen => ?_⟩
  exact List.inj_on_of_nodup_map h.ids hy hx (Option.some.inj ((h.live y hy hopen).symm.trans hws))

theorem Inv.onopen {s : St} (h : Inv s) (k : ℕ) : Inv (step s (.onopen k)) := by
  simp only [step]
  split
  · next x hfind =>
    split_ifs with hstate
    · obtain ⟨hx, rfl⟩ := mem_of_find hfind
      have hopen : x.readyState ≠ .closing := by rw [hstate]; decide
      obtain ⟨hjoined, honly⟩ := h.of_live hx hopen
      have hpeers := h.connecting x hx hstate
      -- the socket is open before the peers are made
      let t : St := { s with sockets := s.sockets.map fun y => if y.id = x.id then { y with readyState := .opened } else y }
      have hmem : ∀ y ∈ t.sockets, ∃ z ∈ s.sockets, z.id = y.id ∧
          (y.readyState = .opened ∧ y.id = x.id ∨ y = z ∧ y.id ≠ x.id) := by
        intro y hy
        obtain ⟨z, hz, rfl⟩ := List.mem_map.1 hy
        refine ⟨z, hz, ?_⟩
        split_ifs with hzx
        · exact ⟨rfl, .inl ⟨rfl, hzx⟩⟩
        · exact ⟨rfl, .inr ⟨rfl, hzx⟩⟩
      have hids : t.sockets.map Socket.id = s.sockets.map Socket.id := by
        rw [List.map_map]
        refine List.map_congr_left fun y _ => ?_
        by_cases hy : y.id = x.id <;> simp [hy]
      have hnone : ∀ y ∈ t.sockets, y.readyState ≠ .connecting := by
        intro y hy hconnecting
        obtain ⟨z, hz, -, ⟨hopened, -⟩ | ⟨rfl, hother⟩⟩ := hmem y hy
        · rw [hopened] at hconnecting
          cases hconnecting
        · exact hother (congrArg Socket.id (honly y hz (by rw [hconnecting]; decide)))
      have ht : Inv t := by
        refine { h with ids := hids ▸ h.ids, below := ?_, live := ?_, current := ?_, connecting := ?_, tidy := ?_ }
        · exact ⟨h.tidy.connections, h.tidy.keys, h.tidy.nodup, h.tidy.below⟩
        · intro y hy
          obtain ⟨z, hz, hid, -⟩ := hmem y hy
          exact hid ▸ h.below z hz
        · intro y hy hlive
          obtain ⟨z, hz, -, ⟨-, hid⟩ | ⟨rfl, -⟩⟩ := hmem y hy
          · rw [hid]
            exact h.live x hx hopen
          · exact h.live y hz hlive
        · intro k hk
          obtain ⟨y, hy, hid⟩ := h.current k hk
          have hmem : k ∈ t.sockets.map Socket.id := hids ▸ List.mem_map.2 ⟨y, hy, hid⟩
          exact List.mem_map.1 hmem
        · exact fun _ _ _ => hpeers
      obtain ⟨peers, connections, made, hle, heq, htidy⟩ := makePeers ht.tidy x.existingUserIds.2 fun u _ => by
        have hkeys : t.peers = [] := hpeers
        rw [hkeys]
        exact List.not_mem_nil
      exact ht.peers hle heq htidy hnone hjoined
    · exact h
  · exact h

theorem Inv.onmessage {s : St} (h : Inv s) (k : ℕ) (message : Message) : Inv (step s (.onmessage k message)) := by
  simp only [step]
  split
  · next x hfind =>
    split_ifs with hstate
    · obtain ⟨hx, -⟩ := mem_of_find hfind
      obtain ⟨hjoined, honly⟩ := h.of_live hx (by rw [hstate]; decide)
      obtain ⟨peers, connections, made, hle, heq⟩ := handleMessage_frame s message
      refine h.peers hle heq (h.tidy.handleMessage message) (fun y hy hconnecting => ?_) hjoined
      rw [honly y hy (by rw [hconnecting]; decide), hstate] at hconnecting
      cases hconnecting
    · exact h
  · exact h

theorem Inv.onclose {s : St} (h : Inv s) (k : ℕ) : Inv (step s (.onclose k)) := by
  simp only [step]
  split
  · next x hfind =>
    have hids : ((s.sockets.filter (·.id ≠ k)).map Socket.id).Nodup := h.ids.sublist (List.filter_sublist.map _)
    have hsub : ∀ y ∈ s.sockets.filter (·.id ≠ k), y ∈ s.sockets := fun y hy => (List.mem_filter.1 hy).1
    split_ifs with hjoined
    · exact Joining.cleaned (s := { s with sockets := s.sockets.filter (·.id ≠ k) })
        ⟨h.tidy.connections, h.tidy.keys, h.tidy.nodup, h.tidy.below⟩ hids
        (fun y hy => h.below y (hsub y hy)) (fun y hy => h.live y (hsub y hy)) (h.idle hjoined) h.microphones false
    · have hnone : s.wsRef = none := by
        rw [h.joined, Bool.not_eq_true, Option.isSome_eq_false_iff, Option.isNone_iff_eq_none] at hjoined
        exact hjoined
      refine { h with
        ids := hids
        below := fun y hy => h.below y (hsub y hy)
        live := fun y hy => h.live y (hsub y hy)
        current := fun k' hk' => absurd (hnone.symm.trans hk') (by simp)
        connecting := fun y hy => h.connecting y (hsub y hy)
        tidy := ⟨h.tidy.connections, h.tidy.keys, h.tidy.nodup, h.tidy.below⟩ }
  · exact h

theorem Inv.failed {s : St} (h : Inv s) (hstage : s.stage = .listing) : Inv s.failed := by
  have hnot : s.joined = false := h.not_joined (by rw [hstage]; decide)
  have hsilent : (s.microphones.filter fun m => s.localStream ≠ some m) = [] := by
    rw [h.microphones]
    cases s.localStream <;> simp
  refine { h with tidy := ?_, idle := fun _ => rfl, stream := ?_, microphones := hsilent }
  · exact ⟨h.tidy.connections, h.tidy.keys, h.tidy.nodup, h.tidy.below⟩
  · simp [St.failed, St.stopStream, hnot]

theorem Inv.connect {s : St} (h : Inv s) (hstage : s.stage = .listing) (existingUserIds : UserIds) :
    Inv (s.connect existingUserIds) := by
  have hnot : s.joined = false := h.not_joined (by rw [hstage]; decide)
  have hnone : s.wsRef = none := by
    have hjoined := h.joined
    rw [hnot] at hjoined
    exact Option.isNone_iff_eq_none.1 (Option.isSome_eq_false_iff.1 hjoined.symm)
  refine ⟨⟨h.tidy.connections, h.tidy.keys, h.tidy.nodup, ?_⟩, ?_, ?_, ?_, ?_, rfl, fun _ _ _ => h.alone hnot, ?_,
    fun _ => rfl, ?_, h.microphones⟩
  · exact fun k hk => Nat.lt_succ_of_lt (h.tidy.below k hk)
  · simp only [St.connect, List.map_append, List.map_cons, List.map_nil]
    refine List.nodup_append_comm.1 (List.nodup_cons.2 ⟨fun hmem => ?_, h.ids⟩)
    obtain ⟨x, hx, hid⟩ := List.mem_map.1 hmem
    exact absurd (h.below x hx) (by rw [hid]; exact lt_irrefl _)
  · intro x hx
    rcases List.mem_append.1 hx with hx | hx
    · exact Nat.lt_succ_of_lt (h.below x hx)
    · rw [List.mem_singleton.1 hx]
      exact Nat.lt_succ_self _
  · intro x hx hopen
    rcases List.mem_append.1 hx with hx | hx
    · exact absurd ((h.live x hx hopen).symm.trans hnone) (by simp)
    · rw [List.mem_singleton.1 hx]
      rfl
  · exact fun k hk => ⟨_, List.mem_append_right _ (List.mem_singleton_self _), Option.some.inj hk⟩
  · exact fun hj => absurd hj (by simp [St.connect])
  · have hstream := h.stream
    rw [hnot, hstage] at hstream
    exact hstream

theorem Inv.listed {s : St} (h : Inv s) (existingUserIds : Option UserIds) (connects : Bool) :
    Inv (step s (.listed existingUserIds connects)) := by
  by_cases hstage : s.stage = .listing
  · simp only [step, if_pos hstage]
    cases existingUserIds with
    | none => exact h.failed hstage
    | some ids =>
      cases connects with
      | false => exact h.failed hstage
      | true => exact h.connect hstage ids
  · simp only [step, if_neg hstage]
    exact h

theorem inv_step (s : St) (o : Op) (h : Inv s) : Inv (step s o) := by
  have htidy : Tidy s := h.tidy
  cases o with
  | join =>
    simp only [step]
    split_ifs with hjoin
    · obtain ⟨-, hjoined, hstage⟩ := hjoin
      refine { h with tidy := ?_, idle := fun hj => absurd hj hjoined, stream := ?_ }
      · exact ⟨htidy.connections, htidy.keys, htidy.nodup, htidy.below⟩
      · rw [h.stream, hstage]
        simp
    · exact h
  | joinAnswered ok =>
    simp only [step]
    split
    · next hanswered =>
      obtain ⟨hstage, -⟩ := hanswered
      refine { h with tidy := ?_, idle := ?_, stream := ?_ }
      · exact ⟨htidy.connections, htidy.keys, htidy.nodup, htidy.below⟩
      · exact fun hj => absurd ((h.idle hj).symm.trans hstage) (by decide)
      · rw [h.stream, hstage]
        cases ok <;> simp
    · exact h
  | hearJoin | hearLeave | loseLeave =>
    exact { h with tidy := ⟨htidy.connections, htidy.keys, htidy.nodup, htidy.below⟩ }
  | media granted =>
    simp only [step]
    split_ifs with hstage hgranted
    · have hnot : s.joined = false := h.not_joined (by rw [hstage]; decide)
      have hnone : s.localStream = none := by
        have hstream := h.stream
        rw [hnot, hstage] at hstream
        exact Option.isNone_iff_eq_none.1 (Option.isSome_eq_false_iff.1 hstream)
      have hsilent : s.microphones = [] := by rw [h.microphones, hnone]; rfl
      refine { h with tidy := ?_, below := ?_, idle := ?_, stream := ?_, microphones := ?_ }
      · exact ⟨htidy.connections, htidy.keys, htidy.nodup, fun k hk => Nat.lt_succ_of_lt (htidy.below k hk)⟩
      · exact fun x hx => Nat.lt_succ_of_lt (h.below x hx)
      · exact fun hj => absurd (hnot.symm.trans hj) (by simp)
      · simp
      · rw [hsilent]
        rfl
    · refine { h with tidy := ?_, idle := fun _ => rfl, stream := ?_ }
      · exact ⟨htidy.connections, htidy.keys, htidy.nodup, htidy.below⟩
      · rw [h.stream, hstage]
        simp
    · exact h
  | listed existingUserIds connects => exact h.listed existingUserIds connects
  | onopen k => exact h.onopen k
  | onmessage k message => exact h.onmessage k message
  | onerror k => exact h.close k
  | onclose k => exact h.onclose k
  | leave =>
    simp only [step]
    split_ifs with hleave
    · exact h.cleaned hleave.2 true
    · exact h
  | unmount =>
    simp only [step]
    split_ifs with hmounted hjoined
    · exact Joining.cleaned (s := { s with mounted := false })
        ⟨htidy.connections, htidy.keys, htidy.nodup, htidy.below⟩ h.ids h.below h.live (h.idle hjoined) h.microphones true
    · exact { h with tidy := ⟨htidy.connections, htidy.keys, htidy.nodup, htidy.below⟩ }
    · exact h

theorem reached_inv (ops : List Op) : Inv (reached ops) := run_inv' inv_step inv_start ops

/-! ## What the steps leave alone -/

/-- how far the call is, apart from the devices -/
def St.status (s : St) : Bool × Stage × Bool × Service := (s.mounted, s.stage, s.joined, s.service)

theorem doCleanup_status (s : St) (callLeaveApi : Bool) :
    (s.doCleanup callLeaveApi).status =
      (s.mounted, s.stage, false, if callLeaveApi then s.service.requestLeave else s.service) := by
  unfold St.doCleanup
  cases s.wsRef <;> rfl

theorem makePeers_status (s : St) (ids : List String) : (ids.foldl St.makePeer s).status = s.status := by
  induction ids generalizing s with
  | nil => rfl
  | cons u ids ih => exact ih (s.makePeer u)

theorem onopen_status (s : St) (k : ℕ) : (step s (.onopen k)).status = s.status := by
  simp only [step]
  split
  · split_ifs
    · exact makePeers_status _ _
    · rfl
  · rfl

theorem onmessage_status (s : St) (k : ℕ) (message : Message) : (step s (.onmessage k message)).status = s.status := by
  simp only [step]
  split
  · split_ifs
    · obtain ⟨peers, connections, made, -, heq⟩ := handleMessage_frame s message
      rw [heq]
      rfl
    · rfl
  · rfl

/-- the socket is there, and its `onclose` runs -/
def Closes (s : St) (o : Op) : Prop := ∃ x ∈ s.sockets, o = .onclose x.id

theorem onclose_status (s : St) (k : ℕ) : (Closes s (.onclose k) ∧ (step s (.onclose k)).status =
    (s.mounted, s.stage, false, s.service)) ∨ (¬ Closes s (.onclose k) ∧ step s (.onclose k) = s) := by
  simp only [step]
  cases hfind : s.sockets.find? (·.id = k) with
  | some x =>
    obtain ⟨hx, hid⟩ := mem_of_find hfind
    refine .inl ⟨⟨x, hx, by rw [hid]⟩, ?_⟩
    split_ifs with hjoined
    · rw [doCleanup_status]
      rfl
    · simp only [St.status, Bool.eq_false_of_not_eq_true hjoined]
  | none =>
    refine .inr ⟨?_, rfl⟩
    rintro ⟨x, hx, hk⟩
    have hnone := List.find?_eq_none.1 hfind x hx
    exact hnone (decide_eq_true (Op.onclose.inj hk).symm)

/-! ## A call without its view -/

/-- the join goes through after the view has gone -/
def Completes (s : St) (o : Op) : Prop :=
  s.mounted = false ∧ s.stage = .listing ∧ ∃ existingUserIds, o = .listed (some existingUserIds) true

/-- the view is gone and the call goes on -/
def St.Orphaned (s : St) : Prop := s.mounted = false ∧ s.joined = true

theorem orphaned_of_status {s t : St} (h : t.status = s.status) : t.Orphaned ↔ s.Orphaned := by
  simp only [St.status, Prod.mk.injEq] at h
  rw [St.Orphaned, St.Orphaned, h.1, h.2.2.1]

theorem orphaned_step (s : St) (o : Op) :
    (step s o).Orphaned ↔ Completes s o ∨ s.Orphaned ∧ ¬ Closes s o := by
  have hquiet : ∀ {o : Op}, (∀ k, o ≠ .onclose k) → (∀ ids connects, o ≠ .listed ids connects) →
      (Completes s o ∨ s.Orphaned ∧ ¬ Closes s o ↔ s.Orphaned) := by
    intro o hclose hlisted
    have hcompletes : ¬ Completes s o := fun ⟨_, _, ids, ho⟩ => hlisted _ _ ho
    have hcloses : ¬ Closes s o := fun ⟨x, _, ho⟩ => hclose _ ho
    simp [hcompletes, hcloses]
  cases o with
  | onclose k =>
    have hcompletes : ¬ Completes s (.onclose k) := by rintro ⟨-, -, ids, ⟨⟩⟩
    rcases onclose_status s k with ⟨hcloses, hstatus⟩ | ⟨hcloses, hstep⟩
    · simp only [St.status, Prod.mk.injEq] at hstatus
      simp [St.Orphaned, hcloses, hcompletes, hstatus.2.2.1]
    · rw [hstep]
      simp [hcloses, hcompletes]
  | listed existingUserIds connects =>
    have hcloses : ¬ Closes s (.listed existingUserIds connects) := by rintro ⟨x, -, ⟨⟩⟩
    simp only [hcloses, not_false_eq_true, and_true]
    by_cases hstage : s.stage = .listing
    · simp only [step, if_pos hstage]
      cases existingUserIds with
      | none => simp [Completes, St.Orphaned, St.failed, St.stopStream]
      | some ids =>
        cases connects with
        | false => simp [Completes, St.Orphaned, St.failed, St.stopStream]
        | true =>
          simp only [Completes, St.Orphaned, St.connect, if_true, hstage, Op.listed.injEq, Option.some.injEq, and_true,
            exists_eq']
          tauto
    · simp [step, Completes, hstage]
  | onopen k =>
    rw [hquiet (by simp) (by simp)]
    exact orphaned_of_status (onopen_status s k)
  | onmessage k message =>
    rw [hquiet (by simp) (by simp)]
    exact orphaned_of_status (onmessage_status s k message)
  | onerror k =>
    rw [hquiet (by simp) (by simp)]
    exact Iff.rfl
  | leave =>
    rw [hquiet (by simp) (by simp)]
    simp only [step]
    split_ifs with hleave
    · have hstatus := doCleanup_status s true
      simp only [St.status, Prod.mk.injEq] at hstatus
      simp [St.Orphaned, hstatus, hleave.1]
    · exact Iff.rfl
  | unmount =>
    rw [hquiet (by simp) (by simp)]
    simp only [step]
    split_ifs with hmounted hjoined
    · have hstatus := doCleanup_status { s with mounted := false } true
      simp only [St.status, Prod.mk.injEq] at hstatus
      simp [St.Orphaned, hstatus, hmounted]
    · simp [St.Orphaned, hjoined]
    · exact Iff.rfl
  | join =>
    rw [hquiet (by simp) (by simp)]
    simp only [step]
    split_ifs <;> exact Iff.rfl
  | joinAnswered ok =>
    rw [hquiet (by simp) (by simp)]
    simp only [step]
    split_ifs <;> exact Iff.rfl
  | media granted =>
    rw [hquiet (by simp) (by simp)]
    simp only [step]
    split_ifs <;> exact Iff.rfl
  | hearJoin | hearLeave | loseLeave =>
    rw [hquiet (by simp) (by simp)]
    exact Iff.rfl

/-- **What a call holds.** In every state reached: without a call no socket that can bring messages and no connection is
open, and the microphone is off but while a join lists the participants; in a call one microphone is on, each peer has one
connection and there is no other, and the current socket's `onclose` is still to come and no other socket brings messages.
And once the view is gone, a call goes on exactly if a join has gone through since then and no `onclose` has run after it. -/
theorem held_for_call (ops : List Op) :
    let s := reached ops
    (s.joined = false → s.live = [] ∧ s.connections = [] ∧ (s.stage ≠ .listing → s.microphones = [])) ∧
      (s.joined = true → (∃ m, s.microphones = [m]) ∧ s.connections = s.peers.map Prod.snd ∧
        ∃ x ∈ s.sockets, s.wsRef = some x.id ∧ ∀ k ∈ s.live, k = x.id) ∧
      (s.mounted = false → (s.joined = true ↔ Since step Completes Closes start ops)) := by
  intro s
  have h : Inv s := reached_inv ops
  have hlive : ∀ k ∈ s.live, s.wsRef = some k := by
    intro k hk
    obtain ⟨x, hx, rfl⟩ := List.mem_map.1 hk
    obtain ⟨hx, hopen⟩ := List.mem_filter.1 hx
    exact h.live x hx (of_decide_eq_true hopen)
  refine ⟨fun hjoined => ⟨?_, ?_, fun hstage => ?_⟩, fun hjoined => ⟨?_, h.tidy.connections, ?_⟩, fun hmounted => ?_⟩
  · refine List.eq_nil_iff_forall_not_mem.2 fun k hk => ?_
    have hsome := h.joined
    rw [hlive k hk, hjoined] at hsome
    cases hsome
  · rw [h.tidy.connections, h.alone hjoined]
    rfl
  · have hstream := h.stream
    rw [hjoined, decide_eq_false hstage] at hstream
    rw [h.microphones, Option.isNone_iff_eq_none.1 (Option.isSome_eq_false_iff.1 hstream)]
    rfl
  · have hstream := h.stream
    rw [hjoined, Bool.true_or] at hstream
    obtain ⟨m, hm⟩ := Option.isSome_iff_exists.1 hstream
    exact ⟨m, by rw [h.microphones, hm]; rfl⟩
  · obtain ⟨k, hk⟩ := Option.isSome_iff_exists.1 (h.joined.symm.trans hjoined)
    obtain ⟨x, hx, rfl⟩ := h.current k hk
    exact ⟨x, hx, hk, fun k hk' => Option.some.inj ((hlive k hk').symm.trans hk)⟩
  · have horphaned : s.Orphaned ↔ Since step Completes Closes start ops :=
      holds_iff_since orphaned_step (by simp [St.Orphaned, start]) ops
    rw [← horphaned]
    exact ⟨fun hjoined => ⟨hmounted, hjoined⟩, And.right⟩

/-- the view is left while the browser asks for the microphone, which is on from then on -/
example : let s := reached [.join, .hearJoin 1 true, .joinAnswered true, .unmount, .media true,
      .listed (some ⟨[], List.nodup_nil⟩) true]
    s.mounted = false ∧ s.microphones = [0] := by
  decide

/-- the view is gone, and there is no call and no join under way -/
def St.Left (s : St) : Prop := s.mounted = false ∧ s.stage = .idle ∧ s.joined = false

theorem left_of_status {s t : St} (h : t.status = s.status) (hs : s.Left) : t.Left := by
  simp only [St.status, Prod.mk.injEq] at h
  exact ⟨h.1.trans hs.1, h.2.1.trans hs.2.1, h.2.2.1.trans hs.2.2⟩

theorem left_step (s : St) (o : Op) (h : s.Left) : (step s o).Left := by
  obtain ⟨hmounted, hstage, hjoined⟩ := id h
  cases o with
  | onopen k => exact left_of_status (onopen_status s k) h
  | onmessage k message => exact left_of_status (onmessage_status s k message) h
  | onclose k =>
    rcases onclose_status s k with ⟨-, heq⟩ | ⟨-, heq⟩
    · exact left_of_status (heq.trans (by rw [St.status, hjoined])) h
    · exact left_of_status (congrArg St.status heq) h
  | onerror | hearJoin | hearLeave | loseLeave => exact ⟨hmounted, hstage, hjoined⟩
  | _ => simpa [step, hmounted, hstage] using h

/-- A view that is left while it is not joining holds nothing from then on, whatever comes. -/
theorem released_for_good (a b : List Op) (hmounted : (reached a).mounted = true) (hstage : (reached a).stage = .idle) :
    let s := reached (a ++ .unmount :: b)
    s.live = [] ∧ s.connections = [] ∧ s.microphones = [] := by
  intro s
  have hleft : (step (reached a) .unmount).Left := by
    simp only [step, if_pos hmounted]
    split_ifs with hjoined
    · have hstatus := doCleanup_status { reached a with mounted := false } true
      simp only [St.status, Prod.mk.injEq] at hstatus
      exact ⟨hstatus.1, hstatus.2.1.trans hstage, hstatus.2.2.1⟩
    · exact ⟨rfl, hstage, Bool.eq_false_of_not_eq_true hjoined⟩
  have hs : s = run step (step (reached a) .unmount) b := run_append step start a (.unmount :: b)
  obtain ⟨-, hidle, hjoined⟩ := run_inv' left_step hleft b
  rw [← hs] at hidle hjoined
  obtain ⟨hlive, hconnections, hsilent⟩ := (held_for_call (a ++ .unmount :: b)).1 hjoined
  exact ⟨hlive, hconnections, hsilent (by rw [hidle]; decide)⟩

/-! ## What the voice service is told -/

/-- there is a call, or a join under way that was accepted -/
def Engaged (stage : Stage) (joined : Bool) (service : Service) : Prop :=
  joined = true ∨ stage = .asking ∨ stage = .listing ∨ stage = .joining ∧ service.accepted = true

abbrev St.Engaged (s : St) : Prop := Joining.Engaged s.stage s.joined s.service

/-- the user is not there, the last that the service has heard is a join, and no leave request is on its way -/
def St.Unleft (s : St) : Prop := s.service.member = true ∧ s.service.leaves = 0 ∧ ¬ s.Engaged

/-- the service accepts the join that is awaited -/
def Accepts (s : St) (o : Op) : Prop :=
  s.stage = .joining ∧ s.service.requested ∈ s.service.joins ∧ o = .hearJoin s.service.requested true

/-- an accepted join comes to nothing, or the service is not told of the end of a call -/
inductive Strands (s : St) : Op → Prop where
  /-- the answer is lost -/
  | answer (hstage : s.stage = .joining) (haccepted : s.service.accepted = true) : Strands s (.joinAnswered false)
  | media (hstage : s.stage = .asking) : Strands s (.media false)
  | listed {existingUserIds : Option UserIds} {connects : Bool} (hstage : s.stage = .listing)
      (hfails : existingUserIds = none ∨ connects = false) : Strands s (.listed existingUserIds connects)
  | onclose {x : Socket} (hx : x ∈ s.sockets) (hjoined : s.joined = true) : Strands s (.onclose x.id)
  | leave (hleaves : 0 < s.service.leaves) : Strands s .loseLeave
  /-- a join is accepted that is not awaited any more -/
  | late {join : ℕ} (hjoin : join ∈ s.service.joins) (hlate : ¬ (s.stage = .joining ∧ join = s.service.requested))
      (hfree : ¬ s.Engaged) : Strands s (.hearJoin join true)

/-- no join is accepted while a leave request is on its way -/
def InOrder (s : St) (o : Op) : Prop := 0 < s.service.leaves → ∀ join, o ≠ .hearJoin join true

/-- what a step does to the join, the call and the requests, if anything -/
inductive Move (s : St) : Op → Stage → Bool → Service → Prop where
  | join (hstage : s.stage = .idle) (hjoined : s.joined = false) : Move s .join .joining false s.service.requestJoin
  | answered (hstage : s.stage = .joining) (haccepted : s.service.accepted = true) :
      Move s (.joinAnswered true) .asking s.joined s.service
  | unanswered (hstage : s.stage = .joining) : Move s (.joinAnswered false) .idle s.joined s.service
  | granted (hstage : s.stage = .asking) : Move s (.media true) .listing s.joined s.service
  | refused (hstage : s.stage = .asking) : Move s (.media false) .idle s.joined s.service
  | connected {ids : UserIds} (hstage : s.stage = .listing) : Move s (.listed (some ids) true) .idle true s.service
  | failed {ids : Option UserIds} {connects : Bool} (hstage : s.stage = .listing) (hfails : ids = none ∨ connects = false) :
      Move s (.listed ids connects) .idle s.joined s.service
  | closed {x : Socket} (hx : x ∈ s.sockets) (hjoined : s.joined = true) :
      Move s (.onclose x.id) s.stage false s.service
  | left {o : Op} (ho : o = .leave ∨ o = .unmount) (hjoined : s.joined = true) :
      Move s o s.stage false s.service.requestLeave
  | heardJoin (join : ℕ) (accepts : Bool) :
      Move s (.hearJoin join accepts) s.stage s.joined (s.service.hearJoin join accepts)
  | heardLeave : Move s .hearLeave s.stage s.joined s.service.hearLeave
  | lostLeave : Move s .loseLeave s.stage s.joined s.service.loseLeave

theorem step_move (s : St) (o : Op) :
    ((step s o).stage = s.stage ∧ (step s o).joined = s.joined ∧ (step s o).service = s.service) ∨
      Move s o (step s o).stage (step s o).joined (step s o).service := by
  have hsame : ∀ {t : St}, t.status = s.status → t.stage = s.stage ∧ t.joined = s.joined ∧ t.service = s.service := by
    intro t ht
    simp only [St.status, Prod.mk.injEq] at ht
    exact ht.2
  have hclean : ∀ {t : St}, s.joined = true → (o = .leave ∨ o = .unmount) → t.stage = s.stage → t.service = s.service →
      Move s o (t.doCleanup true).stage (t.doCleanup true).joined (t.doCleanup true).service := by
    intro t hjoined ho hstage hservice
    have hstatus := doCleanup_status t true
    simp only [St.status, Prod.mk.injEq, if_true] at hstatus
    rw [hstatus.2.1, hstatus.2.2.1, hstatus.2.2.2, hstage, hservice]
    exact .left ho hjoined
  cases o with
  | onopen k => exact .inl (hsame (onopen_status s k))
  | onmessage k message => exact .inl (hsame (onmessage_status s k message))
  | onerror k => exact .inl ⟨rfl, rfl, rfl⟩
  | onclose k =>
    rcases onclose_status s k with ⟨⟨x, hx, hk⟩, hstatus⟩ | ⟨-, hstep⟩
    · simp only [St.status, Prod.mk.injEq] at hstatus
      obtain rfl := Op.onclose.inj hk
      rw [hstatus.2.1, hstatus.2.2.1, hstatus.2.2.2]
      cases hjoined : s.joined with
      | true => exact .inr (.closed hx hjoined)
      | false => exact .inl ⟨rfl, rfl, rfl⟩
    · rw [hstep]
      exact .inl ⟨rfl, rfl, rfl⟩
  | join =>
    simp only [step]
    split_ifs with hjoin
    · have hjoined := Bool.eq_false_of_not_eq_true hjoin.2.1
      rw [hjoined]
      exact .inr (.join hjoin.2.2 hjoined)
    · exact .inl ⟨rfl, rfl, rfl⟩
  | joinAnswered ok =>
    simp only [step]
    split
    · next hanswered =>
      cases ok with
      | true => exact .inr (.answered hanswered.1 (hanswered.2 rfl))
      | false => exact .inr (.unanswered hanswered.1)
    · exact .inl ⟨rfl, rfl, rfl⟩
  | media granted =>
    simp only [step]
    split_ifs with hstage hgranted
    · rw [hgranted]
      exact .inr (.granted hstage)
    · rw [Bool.eq_false_of_not_eq_true hgranted]
      exact .inr (.refused hstage)
    · exact .inl ⟨rfl, rfl, rfl⟩
  | listed existingUserIds connects =>
    by_cases hstage : s.stage = .listing
    · simp only [step, if_pos hstage]
      cases existingUserIds with
      | none => exact .inr (.failed hstage (.inl rfl))
      | some ids =>
        cases connects with
        | false => exact .inr (.failed hstage (.inr rfl))
        | true => exact .inr (.connected hstage)
    · exact .inl (by simp [step, hstage])
  | leave =>
    simp only [step]
    split_ifs with hleave
    · exact .inr (hclean hleave.2 (.inl rfl) rfl rfl)
    · exact .inl ⟨rfl, rfl, rfl⟩
  | unmount =>
    simp only [step]
    split
    · split
      · next hjoined => exact .inr (hclean hjoined (.inr rfl) rfl rfl)
      · exact .inl ⟨rfl, rfl, rfl⟩
    · exact .inl ⟨rfl, rfl, rfl⟩
  | hearJoin join accepts => exact .inr (.heardJoin join accepts)
  | hearLeave => exact .inr .heardLeave
  | loseLeave => exact .inr .lostLeave

theorem unleft_congr {s t : St} (h : t.stage = s.stage ∧ t.joined = s.joined ∧ t.service = s.service) :
    t.Unleft ↔ s.Unleft := by
  rw [St.Unleft, St.Unleft, St.Engaged, St.Engaged, h.1, h.2.1, h.2.2]

/-! What a heard join changes. -/

@[simp] theorem hearJoin_leaves (v : Service) (join : ℕ) (accepts : Bool) :
    (v.hearJoin join accepts).leaves = v.leaves := by
  unfold Service.hearJoin
  split_ifs <;> rfl

@[simp] theorem hearJoin_member (v : Service) (join : ℕ) (accepts : Bool) :
    (v.hearJoin join accepts).member = true ↔ v.member = true ∨ join ∈ v.joins ∧ accepts = true := by
  unfold Service.hearJoin
  split_ifs with hjoin <;> simp [hjoin]

@[simp] theorem hearJoin_accepted (v : Service) (join : ℕ) (accepts : Bool) : (v.hearJoin join accepts).accepted = true ↔
    v.accepted = true ∨ join ∈ v.joins ∧ accepts = true ∧ join = v.requested := by
  unfold Service.hearJoin
  split_ifs with hjoin <;> simp [hjoin]

theorem engaged_hearJoin {stage : Stage} {joined : Bool} {v : Service} {join : ℕ} {accepts : Bool} :
    Engaged stage joined (v.hearJoin join accepts) ↔ Engaged stage joined v ∨
      stage = .joining ∧ join ∈ v.joins ∧ accepts = true ∧ join = v.requested := by
  rw [Engaged, Engaged, hearJoin_accepted]
  tauto

theorem accepts_engaged {s : St} {o : Op} (h : Accepts s o) : (step s o).Engaged := by
  obtain ⟨hstage, hjoin, rfl⟩ := h
  exact engaged_hearJoin.2 (.inr ⟨hstage, hjoin, rfl, rfl⟩)

/-- a step after which the user is not there and the service is not told -/
theorem unleft_step {s : St} {o : Op} (hi : Inv s) (h : (step s o).Unleft) : Strands s o ∨ s.Unleft ∧ ¬ Accepts s o := by
  have hclear : ¬ Accepts s o := fun ha => h.2.2 (accepts_engaged ha)
  rcases step_move s o with hsame | hmove
  · exact .inr ⟨(unleft_congr hsame).1 h, hclear⟩
  suffices hbefore : Strands s o ∨ s.Unleft from hbefore.imp_right fun hu => ⟨hu, hclear⟩
  obtain ⟨hmember, hleaves, hfree⟩ := h
  unfold St.Engaged at hfree
  generalize (step s o).stage = stage, (step s o).joined = joined, (step s o).service = service
    at hmove hmember hleaves hfree
  cases hmove with
  | join hstage hjoined => exact .inr ⟨hmember, hleaves, by simp [Engaged, hstage, hjoined]⟩
  | answered | granted | connected => simp [Engaged] at hfree
  | unanswered hstage =>
    cases haccepted : s.service.accepted with
    | true => exact .inl (.answer hstage haccepted)
    | false =>
      have hjoined : s.joined = false := hi.not_joined (by rw [hstage]; decide)
      exact .inr ⟨hmember, hleaves, by simp [Engaged, hstage, hjoined, haccepted]⟩
  | refused hstage => exact .inl (.media hstage)
  | failed hstage hfails => exact .inl (.listed hstage hfails)
  | closed hx hjoined => exact .inl (.onclose hx hjoined)
  | left => simp [Service.requestLeave] at hleaves
  | heardJoin join accepts =>
    rw [hearJoin_leaves] at hleaves
    rw [engaged_hearJoin, not_or] at hfree
    rcases (hearJoin_member _ _ _).1 hmember with hmember | ⟨hjoin, rfl⟩
    · exact .inr ⟨hmember, hleaves, hfree.1⟩
    · exact .inl (.late hjoin (fun hawaited => hfree.2 ⟨hawaited.1, hjoin, rfl, hawaited.2⟩) hfree.1)
  | heardLeave =>
    unfold Service.hearLeave at hmember hleaves hfree
    split_ifs at hmember hleaves hfree with hpending
    exact .inr ⟨hmember, hleaves, hfree⟩
  | lostLeave =>
    rcases Nat.eq_zero_or_pos s.service.leaves with hzero | hpending
    · exact .inr ⟨hmember, hzero, hfree⟩
    · exact .inl (.leave hpending)

/-- in order, the service counts the user in after the join was accepted and in the call, and until it hears the leave -/
structure Counted (stage : Stage) (joined : Bool) (service : Service) : Prop where
  engaged : Engaged stage joined service → service.member = true ∧ service.leaves = 0
  once : service.leaves ≤ 1
  leaving : 0 < service.leaves → service.member = true

abbrev St.Counted (s : St) : Prop := Joining.Counted s.stage s.joined s.service

/-- a step after which nothing is engaged, and which concerns no request -/
theorem Counted.disengage {stage stage' : Stage} {joined joined' : Bool} {service : Service}
    (h : Counted stage joined service) (hfree : ¬ Engaged stage' joined' service) : Counted stage' joined' service :=
  ⟨fun hengaged => absurd hengaged hfree, h.once, h.leaving⟩

/-- a step from where something is engaged, and which concerns no request -/
theorem Counted.proceed {stage stage' : Stage} {joined joined' : Bool} {service : Service}
    (h : Counted stage joined service) (hengaged : Engaged stage joined service) : Counted stage' joined' service :=
  ⟨fun _ => h.engaged hengaged, h.once, h.leaving⟩

theorem counted_step {s : St} {o : Op} (hi : Inv s) (h : s.Counted) (ho : InOrder s o) : (step s o).Counted := by
  rcases step_move s o with ⟨hstage, hjoined, hservice⟩ | hmove
  · rw [St.Counted, hstage, hjoined, hservice]
    exact h
  have hcalm : s.stage ≠ .idle → s.joined = false := hi.not_joined
  rw [St.Counted]
  generalize (step s o).stage = stage, (step s o).joined = joined, (step s o).service = service at hmove ⊢
  cases hmove with
  | join => exact ⟨fun hengaged => by simp [Engaged, Service.requestJoin] at hengaged, h.once, h.leaving⟩
  | answered hstage haccepted => exact h.proceed (.inr (.inr (.inr ⟨hstage, haccepted⟩)))
  | granted hstage => exact h.proceed (.inr (.inl hstage))
  | connected hstage => exact h.proceed (.inr (.inr (.inl hstage)))
  | closed hx hjoined => exact h.proceed (.inl hjoined)
  | unanswered hstage | refused hstage | failed hstage =>
    exact h.disengage (by simp [Engaged, hcalm, hstage])
  | left hend hjoined =>
    obtain ⟨hmember, hleaves⟩ := h.engaged (.inl hjoined)
    refine ⟨fun hengaged => ?_, by simp [Service.requestLeave, hleaves], fun _ => hmember⟩
    rw [hi.idle hjoined] at hengaged
    simp [Engaged] at hengaged
  | heardJoin join accepts =>
    refine ⟨fun hengaged => ?_, by rw [hearJoin_leaves]; exact h.once, fun hpending => ?_⟩
    · rw [hearJoin_member, hearJoin_leaves]
      rcases engaged_hearJoin.1 hengaged with hengaged | ⟨-, hjoin, rfl, -⟩
      · exact (h.engaged hengaged).imp_left .inl
      · exact ⟨.inr ⟨hjoin, rfl⟩, Nat.eq_zero_of_not_pos fun hpending => ho hpending join rfl⟩
    · rw [hearJoin_leaves] at hpending
      exact (hearJoin_member _ _ _).2 (.inl (h.leaving hpending))
  | heardLeave =>
    unfold Service.hearLeave
    split_ifs with hpending
    · refine ⟨fun hengaged => absurd (h.engaged hengaged).2 (Nat.ne_of_gt hpending), (Nat.sub_le _ _).trans h.once, ?_⟩
      intro hmore
      have hmore : 0 < s.service.leaves - 1 := hmore
      have honce := h.once
      omega
    · exact h
  | lostLeave =>
    refine ⟨fun hengaged => ?_, (Nat.sub_le _ _).trans h.once, fun hmore => ?_⟩
    · obtain ⟨hmember, hleaves⟩ := h.engaged hengaged
      exact ⟨hmember, by simp [Service.loseLeave, hleaves]⟩
    · exact h.leaving (Nat.lt_of_lt_of_le hmore (Nat.sub_le _ _))

/-- in order, the steps that strand the service do so -/
theorem strands_unleft {s : St} {o : Op} (hi : Inv s) (hc : s.Counted) (ho : InOrder s o) (h : Strands s o) :
    (step s o).Unleft := by
  have hcalm : s.stage ≠ .idle → s.joined = false := hi.not_joined
  cases h with
  | answer hstage haccepted =>
    obtain ⟨hmember, hleaves⟩ := hc.engaged (.inr (.inr (.inr ⟨hstage, haccepted⟩)))
    simp [step, hstage, St.Unleft, Engaged, hmember, hleaves, hcalm]
  | media hstage =>
    obtain ⟨hmember, hleaves⟩ := hc.engaged (.inr (.inl hstage))
    simp [step, hstage, St.Unleft, Engaged, hmember, hleaves, hcalm]
  | @listed existingUserIds connects hstage hfails =>
    obtain ⟨hmember, hleaves⟩ := hc.engaged (.inr (.inr (.inl hstage)))
    have hfailed : step s (.listed existingUserIds connects) = s.failed := by
      simp only [step, if_pos hstage]
      rcases hfails with rfl | rfl
      · rfl
      · cases existingUserIds <;> rfl
    rw [hfailed]
    simp [St.Unleft, Engaged, St.failed, St.stopStream, hmember, hleaves, hcalm, hstage]
  | @onclose x hx hjoined =>
    obtain ⟨hmember, hleaves⟩ := hc.engaged (.inl hjoined)
    rcases onclose_status s x.id with ⟨-, hstatus⟩ | ⟨hnot, -⟩
    · simp only [St.status, Prod.mk.injEq] at hstatus
      simp [St.Unleft, Engaged, hstatus.2, hi.idle hjoined, hmember, hleaves]
    · exact absurd ⟨x, hx, rfl⟩ hnot
  | leave hleaves =>
    have hone : s.service.leaves = 1 := Nat.le_antisymm hc.once hleaves
    refine ⟨hc.leaving hleaves, by simp [step, Service.loseLeave, hone], fun hengaged => ?_⟩
    exact absurd (hc.engaged hengaged).2 (Nat.ne_of_gt hleaves)
  | @late join hjoin hlate hfree =>
    have hnone : s.service.leaves = 0 := Nat.eq_zero_of_not_pos fun hpending => ho hpending join rfl
    refine ⟨(hearJoin_member _ _ _).2 (.inr ⟨hjoin, rfl⟩), (hearJoin_leaves _ _ _).trans hnone, fun hengaged => ?_⟩
    rcases engaged_hearJoin.1 hengaged with hengaged | ⟨hstage, -, -, hawaited⟩
    · exact hfree hengaged
    · exact hlate ⟨hstage, hawaited⟩

/-- what ends it is another accepted join -/
theorem unleft_kept {s : St} {o : Op} (h : s.Unleft) (hclear : ¬ Accepts s o) : (step s o).Unleft := by
  rcases step_move s o with hsame | hmove
  · exact (unleft_congr hsame).2 h
  obtain ⟨hmember, hleaves, hfree⟩ := h
  rw [St.Unleft, St.Engaged]
  generalize (step s o).stage = stage, (step s o).joined = joined, (step s o).service = service at hmove ⊢
  have hjoined : s.joined ≠ true := fun hj => hfree (.inl hj)
  cases hmove with
  | join => exact ⟨hmember, hleaves, by simp [Engaged, Service.requestJoin]⟩
  | answered hstage haccepted => exact absurd (.inr (.inr (.inr ⟨hstage, haccepted⟩))) hfree
  | unanswered => exact ⟨hmember, hleaves, by simpa [Engaged] using hjoined⟩
  | granted hstage | refused hstage => exact absurd (.inr (.inl hstage)) hfree
  | connected hstage | failed hstage => exact absurd (.inr (.inr (.inl hstage))) hfree
  | closed hx hj => exact absurd hj hjoined
  | left hend hj => exact absurd hj hjoined
  | heardJoin join accepts =>
    refine ⟨(hearJoin_member _ _ _).2 (.inl hmember), (hearJoin_leaves _ _ _).trans hleaves, fun hengaged => ?_⟩
    rcases engaged_hearJoin.1 hengaged with hengaged | ⟨hstage, hjoin, rfl, rfl⟩
    · exact hfree hengaged
    · exact hclear ⟨hstage, hjoin, rfl⟩
  | heardLeave =>
    rw [Service.hearLeave, if_neg (by rw [hleaves]; exact lt_irrefl 0)]
    exact ⟨hmember, hleaves, hfree⟩
  | lostLeave => exact ⟨hmember, by simp [Service.loseLeave, hleaves], hfree⟩

/-- a call without other participants, by the numbers of its join and of its socket -/
def call (join socket : ℕ) : List Op :=
  [.join, .hearJoin join true, .joinAnswered true, .media true, .listed (some ⟨[], List.nodup_nil⟩) true, .onopen socket]

/-- the second call is ended by the socket of the first, whose `onclose` comes late -/
example : (reached (call 1 1 ++ [.leave, .hearLeave] ++ call 2 3 ++ [.onclose 1])).Unleft := by
  refine ⟨by decide, by decide, ?_⟩
  simp only [Engaged]
  decide

/-- the leave of the first call is heard during the second, which is ended by its socket: the service believes that the user
has left -/
example : (reached (call 1 1 ++ [.leave] ++ call 2 3 ++ [.hearLeave, .onclose 3])).service.member = false := by
  decide

end Concordia.Voice.Joining
