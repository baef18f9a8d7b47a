/-
The ICE candidates of one joined client: `handleMessage`, `addRemoteCandidate` and `flushCandidates`
(`apps/web-app/app/components/VoiceChannelView.tsx`), from `onopen` on.

- A handler runs up to its next `await` at once; a `Task` is a handler that stands at one. `settle` settles what it awaits
  and runs it on. `setRemoteDescription` on an open connection succeeds, and nothing that is pending on a closed one settles.
- `describe`: `remoteDescription` is set while `setRemoteDescription` is still pending.
- `received`, `since` and `added` record what came in and what `addIceCandidate` was called with.
- The handler of a candidate does nothing after its `await`, so it leaves no task.

`passed_once`: a candidate is passed at most once, on a connection to its sender that has a remote description; once a
description of the current connection has been flushed, the buffer is empty and what has not been passed is in the rest of
another flush on that connection.

The offers that `onopen` sends, the audio and the list of participants are left out.
-/
import Concordia.Lib.Rows
import Concordia.Lib.Run

namespace Concordia.Voice.Candidates

open Concordia.Lib

/-! ## Data -/

/-- the candidate of an `ice-candidate` message, with the number of candidates received before it -/
structure Cand where
  sender : String
  no : ℕ
deriving DecidableEq, Repr

structure Conn where
  user : String
  /-- `remoteDescription` is set -/
  remote : Bool
  closed : Bool
deriving DecidableEq, Repr

inductive Kind where
  | offer
  | answer
deriving DecidableEq, Repr

/-- the `await` at which a handler stands -/
inductive Stage where
  | setRemoteDescription
  /-- `addIceCandidate` in the loop of `flushCandidates`, with what the loop has yet to pass -/
  | addIceCandidate (rest : List Cand)
  | createAnswer
  | setLocalDescription
  | done
deriving DecidableEq, Repr

/-- what a flush has yet to pass -/
def Stage.rest : Stage → List Cand
  | .addIceCandidate rest => rest
  | _ => []

/-- `flushCandidates` has returned -/
def Stage.Flushed : Stage → Prop
  | .setRemoteDescription => False
  | .addIceCandidate _ => False
  | _ => True

/-- only an offer is answered -/
def Kind.afterFlush : Kind → Stage
  | .offer => .createAnswer
  | .answer => .done

@[simp] theorem Kind.rest_afterFlush (kind : Kind) : kind.afterFlush.rest = [] := by
  cases kind <;> rfl

structure Task where
  user : String
  conn : ℕ
  kind : Kind
  stage : Stage
deriving DecidableEq, Repr

/-- a call of `addIceCandidate` -/
structure Added where
  cand : Cand
  conn : ℕ
  /-- `remoteDescription` was set -/
  remote : Bool
deriving DecidableEq, Repr

structure St where
  conns : ℕ → Option Conn
  nextConn : ℕ
  /-- `peersRef` -/
  peers : String → Option ℕ
  /-- `pendingCandidatesRef` -/
  pending : String → Option (List Cand)
  tasks : ℕ → Option Task
  nextTask : ℕ
  /-- to whom an answer was sent -/
  answers : List String
  received : ℕ
  /-- what a user has sent since the user was last removed -/
  since : String → List Cand
  added : List Added

inductive Op where
  | offer (senderUserId : String)
  | answer (senderUserId : String)
  | iceCandidate (senderUserId : String)
  | participantLeft (userId : String)
  | describe (task : ℕ)
  | settle (task : ℕ) (ok : Bool)
deriving DecidableEq, Repr

/-! ## Steps -/

namespace St

def setTask (s : St) (t : ℕ) (τ : Task) : St := { s with tasks := Function.update s.tasks t (some τ) }

/-- a handler reaches its first `await` -/
def handle (s : St) (u : String) (k : ℕ) (kind : Kind) : St :=
  { s.setTask s.nextTask ⟨u, k, kind, .setRemoteDescription⟩ with nextTask := s.nextTask + 1 }

def makePeer (s : St) (u : String) : St :=
  { s with
    conns := Function.update s.conns s.nextConn (some ⟨u, false, false⟩)
    nextConn := s.nextConn + 1
    peers := Function.update s.peers u (some s.nextConn) }

def removePeer (s : St) (u : String) : St :=
  { s with
    conns := match s.peers u with
      | none => s.conns
      | some k => Function.update s.conns k ((s.conns k).map fun conn => { conn with closed := true })
    peers := Function.update s.peers u none
    pending := Function.update s.pending u none
    since := Function.update s.since u [] }

/-- `remoteDescription` is set -/
def setRemote (s : St) (k : ℕ) : St :=
  { s with conns := Function.update s.conns k ((s.conns k).map fun conn => { conn with remote := true }) }

def remoteDescription (s : St) (k : ℕ) : Bool := (s.conns k).any Conn.remote

def isOpen (s : St) (k : ℕ) : Bool := (s.conns k).any fun conn => !conn.closed

def addIceCandidate (s : St) (k : ℕ) (c : Cand) : St := { s with added := s.added ++ [⟨c, k, s.remoteDescription k⟩] }

/-- the loop of `flushCandidates`, from one candidate's turn to the next `await` -/
def flushLoop (s : St) (t : ℕ) (τ : Task) : List Cand → St
  | [] => s.setTask t { τ with stage := τ.kind.afterFlush }
  | c :: rest => (s.addIceCandidate τ.conn c).setTask t { τ with stage := .addIceCandidate rest }

def flushCandidates (s : St) (t : ℕ) (τ : Task) : St :=
  match s.pending τ.user with
  | none => s.flushLoop t τ []
  | some buf => { s with pending := Function.update s.pending τ.user none }.flushLoop t τ buf

def buffer (s : St) (u : String) (c : Cand) : St :=
  { s with pending := Function.update s.pending u (some ((s.pending u).getD [] ++ [c])) }

def addRemoteCandidate (s : St) (u : String) (c : Cand) : St :=
  match s.peers u with
  | some k => if s.remoteDescription k then s.addIceCandidate k c else s.buffer u c
  | none => s.buffer u c

/-- a candidate comes in -/
def receive (s : St) (u : String) : St :=
  { s with received := s.received + 1, since := Function.update s.since u (s.since u ++ [⟨u, s.received⟩]) }

/-- what a handler awaits is settled, and it runs to its next `await` -/
def resume (s : St) (t : ℕ) (τ : Task) (ok : Bool) : St :=
  match τ.stage, ok with
  | .setRemoteDescription, true => (s.setRemote τ.conn).flushCandidates t τ
  | .setRemoteDescription, false => s
  | .addIceCandidate rest, _ => s.flushLoop t τ rest
  | .createAnswer, true => s.setTask t { τ with stage := .setLocalDescription }
  | .createAnswer, false => s.setTask t { τ with stage := .done }
  | .setLocalDescription, true => { s.setTask t { τ with stage := .done } with answers := s.answers ++ [τ.user] }
  | .setLocalDescription, false => s.setTask t { τ with stage := .done }
  | .done, _ => s

end St

def step (s : St) : Op → St
  | .offer u =>
    if u = "" then s
    else
      match s.peers u with
      | some k => s.handle u k .offer
      | none => (s.makePeer u).handle u s.nextConn .offer
  | .answer u =>
    if u = "" then s
    else
      match s.peers u with
      | some k => s.handle u k .answer
      | none => s
  | .iceCandidate u => if u = "" then s else (s.receive u).addRemoteCandidate u ⟨u, s.received⟩
  | .participantLeft u => if u = "" then s else s.removePeer u
  | .describe t =>
    match s.tasks t with
    | some τ => if s.isOpen τ.conn ∧ τ.stage = .setRemoteDescription then s.setRemote τ.conn else s
    | none => s
  | .settle t ok =>
    match s.tasks t with
    | some τ => if s.isOpen τ.conn then s.resume t τ ok else s
    | none => s

/-- `onopen` makes a connection to everyone who is already in the channel -/
def start (existingUserIds : List String) : St :=
  existingUserIds.foldl St.makePeer
    ⟨fun _ => none, 0, fun _ => none, fun _ => none, fun _ => none, 0, [], 0, fun _ => [], []⟩

/-- how often a candidate was passed to `addIceCandidate` -/
def St.passed (s : St) (c : Cand) : ℕ := (s.added.map Added.cand).count c

/-! ## Connections and handlers -/

/-- who has the current connection of a user, and what a handler knows of its own -/
structure Wired (s : St) : Prop where
  conns : ∀ k, s.nextConn ≤ k → s.conns k = none
  tasks : ∀ t, s.nextTask ≤ t → s.tasks t = none
  current : ∀ u k, s.peers u = some k → ∃ r, s.conns k = some ⟨u, r, false⟩
  target : ∀ t τ, s.tasks t = some τ →
    ∃ conn, s.conns τ.conn = some conn ∧ conn.user = τ.user ∧ (conn.closed = false → s.peers τ.user = some τ.conn)
  described : ∀ t τ, s.tasks t = some τ → τ.stage ≠ .setRemoteDescription →
    s.remoteDescription τ.conn = true ∧ (s.peers τ.user = some τ.conn → s.pending τ.user = none)

theorem remoteDescription_eq {s : St} {k : ℕ} {conn : Conn} (h : s.conns k = some conn) :
    s.remoteDescription k = conn.remote := by
  simp [St.remoteDescription, h]

theorem removePeer_conns (s : St) (u : String) (k : ℕ) : (s.removePeer u).conns k =
    (s.conns k).map fun conn => if s.peers u = some k then { conn with closed := true } else conn := by
  cases hp : s.peers u with
  | none => simp [St.removePeer, hp]
  | some j =>
    simp only [St.removePeer, hp, Function.update_apply, Option.some.injEq]
    by_cases hk : k = j
    · simp [hk]
    · simp [hk, Ne.symm hk]

theorem setRemote_conns (s : St) (k j : ℕ) : (s.setRemote k).conns j =
    (s.conns j).map fun conn => if j = k then { conn with remote := true } else conn := by
  simp only [St.setRemote, Function.update_apply]
  by_cases hj : j = k <;> simp [hj]

namespace Wired

variable {s : St}

/-- a handler whose connection is open has the current connection of its user -/
theorem peer_of_open (h : Wired s) {t : ℕ} {τ : Task} (hτ : s.tasks t = some τ) (ho : s.isOpen τ.conn = true) :
    s.peers τ.user = some τ.conn := by
  obtain ⟨conn, hconn, -, hpeer⟩ := h.target t τ hτ
  apply hpeer
  simpa [St.isOpen, hconn] using ho

theorem conn_lt (h : Wired s) {k : ℕ} {conn : Conn} (hconn : s.conns k = some conn) : k < s.nextConn := by
  by_contra hge
  rw [h.conns k (by omega)] at hconn
  cases hconn

theorem makePeer (h : Wired s) {u : String} (hfree : ∀ t τ, s.tasks t = some τ → s.peers u ≠ some τ.conn) :
    Wired (s.makePeer u) := by
  have hold : ∀ {k conn}, s.conns k = some conn → (s.makePeer u).conns k = some conn := by
    intro k conn hconn
    exact (Function.update_of_ne (h.conn_lt hconn).ne _ _).trans hconn
  -- a handler's user keeps the connection, unless it is the user of the new one
  have hpeer : ∀ t τ, s.tasks t = some τ → τ.conn < s.nextConn := by
    intro t τ hτ
    obtain ⟨conn, hconn, -⟩ := h.target t τ hτ
    exact h.conn_lt hconn
  refine ⟨?_, h.tasks, ?_, ?_, ?_⟩
  · intro k hk
    have hk : s.nextConn < k := hk
    exact (Function.update_of_ne hk.ne' _ _).trans (h.conns k (by omega))
  · intro v k hv
    rcases update_cases hv with ⟨rfl, hnew⟩ | ⟨-, hv⟩
    · cases hnew
      exact ⟨false, Function.update_self _ _ _⟩
    · obtain ⟨r, hconn⟩ := h.current v k hv
      exact ⟨r, hold hconn⟩
  · intro t τ hτ
    obtain ⟨conn, hconn, huser, hcur⟩ := h.target t τ hτ
    refine ⟨conn, hold hconn, huser, fun hopen => ?_⟩
    have hne : τ.user ≠ u := by
      intro he
      exact hfree t τ hτ (he ▸ hcur hopen)
    exact (Function.update_of_ne hne _ _).trans (hcur hopen)
  · intro t τ hτ hstage
    obtain ⟨hremote, hnone⟩ := h.described t τ hτ hstage
    obtain ⟨conn, hconn, -⟩ := h.target t τ hτ
    refine ⟨?_, fun hp => ?_⟩
    · rw [remoteDescription_eq (hold hconn), ← remoteDescription_eq hconn, hremote]
    · rcases update_cases hp with ⟨-, hnew⟩ | ⟨-, hp⟩
      · exact absurd (Option.some.inj hnew) (hpeer t τ hτ).ne'
      · exact hnone hp

theorem removePeer (h : Wired s) (u : String) : Wired (s.removePeer u) := by
  refine ⟨?_, h.tasks, ?_, ?_, ?_⟩
  · intro k hk
    rw [removePeer_conns, h.conns k hk]
    rfl
  · intro v k hv
    rcases update_cases hv with ⟨-, hnone⟩ | ⟨hne, hv⟩
    · cases hnone
    · obtain ⟨r, hconn⟩ := h.current v k hv
      have hother : s.peers u ≠ some k := by
        intro hu
        obtain ⟨r', hconn'⟩ := h.current u k hu
        rw [hconn] at hconn'
        exact hne (congrArg Conn.user (Option.some.inj hconn'))
      exact ⟨r, by rw [removePeer_conns, hconn]; simp [hother]⟩
  · intro t τ hτ
    obtain ⟨conn, hconn, huser, hcur⟩ := h.target t τ hτ
    rw [removePeer_conns, hconn]
    by_cases hu : s.peers u = some τ.conn
    · exact ⟨{ conn with closed := true }, by simp [hu], huser, nofun⟩
    · refine ⟨conn, by simp [hu], huser, fun hopen => ?_⟩
      have hne : τ.user ≠ u := by
        intro he
        exact hu (he ▸ hcur hopen)
      exact (Function.update_of_ne hne _ _).trans (hcur hopen)
  · intro t τ hτ hstage
    obtain ⟨hremote, hnone⟩ := h.described t τ hτ hstage
    obtain ⟨conn, hconn, -⟩ := h.target t τ hτ
    refine ⟨?_, fun hp => ?_⟩
    · rw [remoteDescription_eq hconn] at hremote
      simp only [St.remoteDescription, removePeer_conns, hconn, Option.map_some, Option.any_some]
      split_ifs <;> exact hremote
    · rcases update_cases hp with ⟨-, hgone⟩ | ⟨hne, hp⟩
      · cases hgone
      · exact (Function.update_of_ne hne _ _).trans (hnone hp)

theorem setRemote (h : Wired s) (k : ℕ) : Wired (s.setRemote k) := by
  refine ⟨?_, h.tasks, ?_, ?_, ?_⟩
  · intro j hj
    rw [setRemote_conns, h.conns j hj]
    rfl
  · intro u j hu
    obtain ⟨r, hconn⟩ := h.current u j hu
    rw [setRemote_conns, hconn]
    by_cases hj : j = k
    · exact ⟨true, by simp [hj]⟩
    · exact ⟨r, by simp [hj]⟩
  · intro t τ hτ
    obtain ⟨conn, hconn, huser, hcur⟩ := h.target t τ hτ
    rw [setRemote_conns, hconn]
    by_cases hk : τ.conn = k
    · exact ⟨{ conn with remote := true }, by simp [hk], huser, hcur⟩
    · exact ⟨conn, by simp [hk], huser, hcur⟩
  · intro t τ hτ hstage
    obtain ⟨hremote, hnone⟩ := h.described t τ hτ hstage
    obtain ⟨conn, hconn, -⟩ := h.target t τ hτ
    refine ⟨?_, hnone⟩
    rw [remoteDescription_eq hconn] at hremote
    simp only [St.remoteDescription, setRemote_conns, hconn, Option.map_some, Option.any_some]
    split_ifs
    · rfl
    · exact hremote

/-- a handler of the current connection reaches its first `await` -/
theorem handle (h : Wired s) {u : String} {k : ℕ} (hk : s.peers u = some k) (kind : Kind) : Wired (s.handle u k kind) := by
  obtain ⟨r, hconn⟩ := h.current u k hk
  refine ⟨h.conns, ?_, h.current, ?_, ?_⟩
  · intro t ht
    have ht : s.nextTask < t := ht
    exact (Function.update_of_ne ht.ne' _ _).trans (h.tasks t (by omega))
  · exact forall_update_some h.target ⟨_, hconn, rfl, fun _ => hk⟩
  · exact forall_update_some h.described fun hstage => absurd rfl hstage

/-- a handler goes on to an `await` after its flush has begun -/
theorem setTask (h : Wired s) {t : ℕ} {τ : Task} (hτ : s.tasks t = some τ) {stage : Stage}
    (hd : s.remoteDescription τ.conn = true ∧ (s.peers τ.user = some τ.conn → s.pending τ.user = none)) :
    Wired (s.setTask t { τ with stage := stage }) := by
  refine ⟨h.conns, ?_, h.current, ?_, ?_⟩
  · intro t' ht'
    have hne : t' ≠ t := by
      rintro rfl
      rw [h.tasks t' ht'] at hτ
      cases hτ
    exact (Function.update_of_ne hne _ _).trans (h.tasks t' ht')
  · exact forall_update_some h.target (h.target t τ hτ)
  · exact forall_update_some h.described fun _ => hd

/-- a candidate waits for a user whose connection has no remote description -/
theorem buffer (h : Wired s) {u : String} (hwait : ∀ k, s.peers u = some k → s.remoteDescription k = false) (c : Cand) :
    Wired (s.buffer u c) := by
  refine ⟨h.conns, h.tasks, h.current, h.target, ?_⟩
  intro t τ hτ hstage
  obtain ⟨hremote, hnone⟩ := h.described t τ hτ hstage
  refine ⟨hremote, fun hp => ?_⟩
  have hne : τ.user ≠ u := by
    intro he
    rw [hwait τ.conn (he ▸ hp)] at hremote
    cases hremote
  exact (Function.update_of_ne hne _ _).trans (hnone hp)

/-- a flush takes the buffer -/
theorem take (h : Wired s) (u : String) : Wired { s with pending := Function.update s.pending u none } := by
  refine ⟨h.conns, h.tasks, h.current, h.target, ?_⟩
  intro t τ hτ hstage
  obtain ⟨hremote, hnone⟩ := h.described t τ hτ hstage
  refine ⟨hremote, fun hp => ?_⟩
  by_cases hu : τ.user = u
  · rw [hu]
    exact Function.update_self _ _ _
  · exact (Function.update_of_ne hu _ _).trans (hnone hp)

end Wired

/-! ## Where the candidates are -/

/-- where a candidate that came in is: in a user's buffer, in what a handler's flush has yet to pass, or passed -/
inductive Place where
  | buffer (u : String)
  | flush (t : ℕ)
  | added
deriving DecidableEq

/-- every candidate is in one place, and is passed where it belongs -/
structure Placed (s : St) (place : Cand → Option Place) : Prop where
  fresh : ∀ c, s.received ≤ c.no → place c = none
  nodup : (s.added.map Added.cand).Nodup
  added : ∀ a ∈ s.added, place a.cand = some .added
  confined : ∀ a ∈ s.added, a.remote = true ∧ ∃ conn, s.conns a.conn = some conn ∧ conn.user = a.cand.sender
  buffer : ∀ u buf, s.pending u = some buf → buf.Nodup ∧ ∀ c ∈ buf, c.sender = u ∧ place c = some (.buffer u)
  flush : ∀ t τ, s.tasks t = some τ →
    τ.stage.rest.Nodup ∧ ∀ c ∈ τ.stage.rest, c.sender = τ.user ∧ place c = some (.flush t)

/-- nothing is lost: what a user has sent since the user was last removed is passed, in the buffer or in a flush -/
def Covered (s : St) : Prop :=
  ∀ u, ∀ c ∈ s.since u, c ∈ s.added.map Added.cand ∨ (∃ buf, s.pending u = some buf ∧ c ∈ buf) ∨
    ∃ t τ, s.tasks t = some τ ∧ s.peers u = some τ.conn ∧ c ∈ τ.stage.rest

theorem place_update {place : Cand → Option Place} {c d : Cand} {x : Place} (hd : place d = some x)
    (hc : place c ≠ some x) (p : Option Place) : Function.update place c p d = some x := by
  have hne : d ≠ c := by
    rintro rfl
    exact hc hd
  rw [Function.update_of_ne hne, hd]

namespace Placed

variable {s : St} {place : Cand → Option Place}

/-- connections may be made, closed and described, and buffers thrown away -/
theorem of_conns (h : Placed s place) {conns : ℕ → Option Conn}
    (hconns : ∀ k conn, s.conns k = some conn → ∃ conn', conns k = some conn' ∧ conn'.user = conn.user) {n : ℕ}
    {peers : String → Option ℕ} {pending : String → Option (List Cand)}
    (hpending : ∀ u buf, pending u = some buf → s.pending u = some buf) {since : String → List Cand} :
    Placed { s with conns := conns, nextConn := n, peers := peers, pending := pending, since := since } place := by
  refine ⟨h.fresh, h.nodup, h.added, ?_, fun u buf hu => h.buffer u buf (hpending u buf hu), h.flush⟩
  intro a ha
  obtain ⟨hremote, conn, hconn, huser⟩ := h.confined a ha
  obtain ⟨conn', hconn', huser'⟩ := hconns _ conn hconn
  exact ⟨hremote, conn', hconn', huser'.trans huser⟩

theorem not_mem_added (h : Placed s place) {c : Cand} (hc : place c ≠ some .added) : c ∉ s.added.map Added.cand := by
  intro hmem
  obtain ⟨a, ha, rfl⟩ := List.mem_map.1 hmem
  exact hc (h.added a ha)

theorem not_mem_buffer (h : Placed s place) {c : Cand} (hc : ∀ u, place c ≠ some (.buffer u)) {u : String}
    {buf : List Cand} (hbuf : s.pending u = some buf) : c ∉ buf :=
  fun hmem => hc u ((h.buffer u buf hbuf).2 c hmem).2

theorem not_mem_flush (h : Placed s place) {c : Cand} {t : ℕ} (hc : place c ≠ some (.flush t)) {τ : Task}
    (hτ : s.tasks t = some τ) : c ∉ τ.stage.rest :=
  fun hmem => hc ((h.flush t τ hτ).2 c hmem).2

/-- a candidate that is in no buffer and in no flush is passed -/
theorem addIceCandidate (h : Placed s place) {c : Cand} (hold : c.no < s.received)
    (hadded : c ∉ s.added.map Added.cand) (hbuffer : ∀ u buf, s.pending u = some buf → c ∉ buf)
    (hflush : ∀ t τ, s.tasks t = some τ → c ∉ τ.stage.rest) {k : ℕ} {conn : Conn} (hconn : s.conns k = some conn)
    (huser : conn.user = c.sender) (hremote : conn.remote = true) :
    Placed (s.addIceCandidate k c) (Function.update place c (some .added)) := by
  refine ⟨?_, ?_, ?_, ?_, ?_, ?_⟩
  · intro d hd
    have hne : d ≠ c := by
      rintro rfl
      exact absurd hold (not_lt.2 hd)
    exact (Function.update_of_ne hne _ _).trans (h.fresh d hd)
  · exact nodup_keys_snoc h.nodup hadded
  · intro a ha
    rcases mem_snoc.1 ha with ha | rfl
    · have hne : a.cand ≠ c := fun he => hadded (he ▸ List.mem_map_of_mem ha)
      exact (Function.update_of_ne hne _ _).trans (h.added a ha)
    · exact Function.update_self _ _ _
  · intro a ha
    rcases mem_snoc.1 ha with ha | rfl
    · exact h.confined a ha
    · exact ⟨(remoteDescription_eq hconn).trans hremote, conn, hconn, huser⟩
  · intro u buf hbuf
    obtain ⟨hnodup, hmem⟩ := h.buffer u buf hbuf
    refine ⟨hnodup, fun d hd => ⟨(hmem d hd).1, ?_⟩⟩
    exact (Function.update_of_ne (ne_of_mem_of_not_mem hd (hbuffer u buf hbuf)) _ _).trans (hmem d hd).2
  · intro t τ hτ
    obtain ⟨hnodup, hmem⟩ := h.flush t τ hτ
    refine ⟨hnodup, fun d hd => ⟨(hmem d hd).1, ?_⟩⟩
    exact (Function.update_of_ne (ne_of_mem_of_not_mem hd (hflush t τ hτ)) _ _).trans (hmem d hd).2

/-- a candidate that has just come in is put at the end of its sender's buffer -/
theorem buffered (h : Placed s place) {c : Cand} (hc : place c = none) (hold : c.no < s.received) :
    Placed (s.buffer c.sender c) (Function.update place c (some (.buffer c.sender))) := by
  refine ⟨?_, h.nodup, ?_, h.confined, ?_, ?_⟩
  · intro d hd
    have hne : d ≠ c := by
      rintro rfl
      exact absurd hold (not_lt.2 hd)
    exact (Function.update_of_ne hne _ _).trans (h.fresh d hd)
  · intro a ha
    exact place_update (h.added a ha) (by rw [hc]; nofun) _
  · apply forall_update_some
    · intro u buf hbuf
      obtain ⟨hnodup, hmem⟩ := h.buffer u buf hbuf
      exact ⟨hnodup, fun d hd => ⟨(hmem d hd).1, place_update (hmem d hd).2 (by rw [hc]; nofun) _⟩⟩
    · have hlast : Function.update place c (some (.buffer c.sender)) c = some (.buffer c.sender) :=
        Function.update_self _ _ _
      cases hbuf : s.pending c.sender with
      | none => simp
      | some buf =>
        obtain ⟨hnodup, hmem⟩ := h.buffer _ _ hbuf
        have hnew : c ∉ buf := h.not_mem_buffer (fun u => by rw [hc]; nofun) hbuf
        refine ⟨?_, ?_⟩
        · rw [Option.getD_some, ← List.concat_eq_append, List.nodup_concat]
          exact ⟨hnew, hnodup⟩
        intro d hd
        rcases mem_snoc.1 hd with hd | rfl
        · exact ⟨(hmem d hd).1, place_update (hmem d hd).2 (by rw [hc]; nofun) _⟩
        · exact ⟨rfl, hlast⟩
  · intro t τ hτ
    obtain ⟨hnodup, hmem⟩ := h.flush t τ hτ
    exact ⟨hnodup, fun d hd => ⟨(hmem d hd).1, place_update (hmem d hd).2 (by rw [hc]; nofun) _⟩⟩

/-- a handler goes on and keeps no more than a part of what its flush has yet to pass -/
theorem setTask (h : Placed s place) {t : ℕ} {τ : Task} (hτ : s.tasks t = some τ) {stage : Stage}
    (hrest : stage.rest.Sublist τ.stage.rest) : Placed (s.setTask t { τ with stage := stage }) place := by
  refine ⟨h.fresh, h.nodup, h.added, h.confined, h.buffer, ?_⟩
  obtain ⟨hnodup, hmem⟩ := h.flush t τ hτ
  exact forall_update_some h.flush ⟨hnodup.sublist hrest, fun c hc => hmem c (hrest.subset hc)⟩

/-- a flush takes the buffer of its user -/
theorem take (h : Placed s place) (t : ℕ) {τ : Task} {buf : List Cand} (hbuf : s.pending τ.user = some buf) :
    Placed ({ s with pending := Function.update s.pending τ.user none }.setTask t { τ with stage := .addIceCandidate buf })
      fun c => if c ∈ buf then some (.flush t) else place c := by
  obtain ⟨hnodup, hmem⟩ := h.buffer _ _ hbuf
  have hother : ∀ {c x}, place c = some x → x ≠ .buffer τ.user →
      (if c ∈ buf then some (.flush t) else place c) = some x := by
    intro c x hc hx
    have hout : c ∉ buf := fun hin => hx (Option.some.inj (hc.symm.trans (hmem c hin).2))
    rw [if_neg hout, hc]
  refine ⟨?_, h.nodup, ?_, h.confined, ?_, ?_⟩
  · intro c hc
    have hfresh := h.fresh c hc
    have hout : c ∉ buf := h.not_mem_buffer (fun u => by rw [hfresh]; nofun) hbuf
    rw [if_neg hout, hfresh]
  · intro a ha
    exact hother (h.added a ha) nofun
  · intro u buf' hbuf'
    rcases update_cases hbuf' with ⟨-, hnone⟩ | ⟨hne, hbuf'⟩
    · cases hnone
    · obtain ⟨hnodup', hmem'⟩ := h.buffer u buf' hbuf'
      refine ⟨hnodup', fun c hc => ⟨(hmem' c hc).1, hother (hmem' c hc).2 ?_⟩⟩
      intro he
      exact hne (Place.buffer.inj he)
  · apply forall_update_some
    · intro t' τ' hτ'
      obtain ⟨hnodup', hmem'⟩ := h.flush t' τ' hτ'
      exact ⟨hnodup', fun c hc => ⟨(hmem' c hc).1, hother (hmem' c hc).2 nofun⟩⟩
    · exact ⟨hnodup, fun c hc => ⟨(hmem c hc).1, if_pos hc⟩⟩

theorem old (h : Placed s place) {c : Cand} {x : Place} (hc : place c = some x) : c.no < s.received := by
  by_contra hge
  rw [h.fresh c (by omega)] at hc
  cases hc

end Placed

/-! ## Nothing is lost -/

namespace Covered

variable {s : St}

theorem makePeer (h : Covered s) {u : String} (hfree : ∀ t τ, s.tasks t = some τ → s.peers u ≠ some τ.conn) :
    Covered (s.makePeer u) := by
  intro v c hc
  rcases h v c hc with hadded | hbuffer | ⟨t, τ, hτ, hpeer, hrest⟩
  · exact .inl hadded
  · exact .inr (.inl hbuffer)
  · have hne : v ≠ u := by
      rintro rfl
      exact hfree t τ hτ hpeer
    exact .inr (.inr ⟨t, τ, hτ, (Function.update_of_ne hne _ _).trans hpeer, hrest⟩)

theorem removePeer (h : Covered s) (u : String) : Covered (s.removePeer u) := by
  intro v c hc
  by_cases hv : v = u
  · subst hv
    simp [St.removePeer] at hc
  · have hc : c ∈ s.since v := by simpa [St.removePeer, hv] using hc
    rcases h v c hc with hadded | ⟨buf, hbuf, hmem⟩ | ⟨t, τ, hτ, hpeer, hrest⟩
    · exact .inl hadded
    · exact .inr (.inl ⟨buf, (Function.update_of_ne hv _ _).trans hbuf, hmem⟩)
    · exact .inr (.inr ⟨t, τ, hτ, (Function.update_of_ne hv _ _).trans hpeer, hrest⟩)

/-- a handler goes on; what its flush no longer has to pass is passed -/
theorem setTask (h : Covered s) {t : ℕ} {τ : Task} (hold : ∀ old, s.tasks t = some old → old.conn = τ.conn ∧
    ∀ c ∈ old.stage.rest, c ∈ s.added.map Added.cand ∨ c ∈ τ.stage.rest) : Covered (s.setTask t τ) := by
  intro v c hc
  rcases h v c hc with hadded | hbuffer | ⟨t', old, hτ, hpeer, hrest⟩
  · exact .inl hadded
  · exact .inr (.inl hbuffer)
  · by_cases ht : t' = t
    · subst ht
      obtain ⟨hconn, hpassed⟩ := hold old hτ
      rcases hpassed c hrest with hadded | hrest
      · exact .inl hadded
      · exact .inr (.inr ⟨t', τ, Function.update_self _ _ _, hconn ▸ hpeer, hrest⟩)
    · exact .inr (.inr ⟨t', old, (Function.update_of_ne ht _ _).trans hτ, hpeer, hrest⟩)

theorem addIceCandidate (h : Covered s) (k : ℕ) (c : Cand) : Covered (s.addIceCandidate k c) := by
  intro v d hd
  refine (h v d hd).imp_left ?_
  intro hadded
  rw [St.addIceCandidate, List.map_append]
  exact List.mem_append_left _ hadded

theorem buffer (h : Covered s) (u : String) (c : Cand) : Covered (s.buffer u c) := by
  intro v d hd
  refine (h v d hd).imp_right (Or.imp_left ?_)
  intro hbuffer
  obtain ⟨buf, hbuf, hmem⟩ := hbuffer
  by_cases hv : v = u
  · subst hv
    refine ⟨_, Function.update_self _ _ _, ?_⟩
    rw [hbuf]
    exact List.mem_append_left _ hmem
  · exact ⟨buf, (Function.update_of_ne hv _ _).trans hbuf, hmem⟩

/-- a flush takes the buffer of the user whose current connection it is on -/
theorem take (h : Covered s) {t : ℕ} {τ : Task} (hτ : s.tasks t = some τ) (hrest : τ.stage.rest = [])
    (hpeer : s.peers τ.user = some τ.conn) {buf : List Cand} (hbuf : s.pending τ.user = some buf) :
    Covered ({ s with pending := Function.update s.pending τ.user none }.setTask t
      { τ with stage := .addIceCandidate buf }) := by
  intro v c hc
  rcases h v c hc with hadded | ⟨buf', hbuf', hmem⟩ | ⟨t', τ', hτ', hpeer', hmem⟩
  · exact .inl hadded
  · by_cases hv : v = τ.user
    · subst hv
      rw [hbuf] at hbuf'
      cases hbuf'
      exact .inr (.inr ⟨t, _, Function.update_self _ _ _, hpeer, hmem⟩)
    · exact .inr (.inl ⟨buf', (Function.update_of_ne hv _ _).trans hbuf', hmem⟩)
  · have hne : t' ≠ t := by
      rintro rfl
      rw [hτ] at hτ'
      cases hτ'
      simp [hrest] at hmem
    exact .inr (.inr ⟨t', τ', (Function.update_of_ne hne _ _).trans hτ', hpeer', hmem⟩)

end Covered

/-! ## The invariant -/

structure Inv (s : St) : Prop where
  wired : Wired s
  placed : ∃ place, Placed s place
  covered : Covered s

/-- a candidate is passed if there is a connection with a remote description, and buffered otherwise -/
theorem addRemoteCandidate_cases (s : St) (u : String) (c : Cand) :
    (∃ k, s.peers u = some k ∧ s.remoteDescription k = true ∧ s.addRemoteCandidate u c = s.addIceCandidate k c) ∨
      (∀ k, s.peers u = some k → s.remoteDescription k = false) ∧ s.addRemoteCandidate u c = s.buffer u c := by
  unfold St.addRemoteCandidate
  cases hp : s.peers u with
  | none => exact .inr ⟨nofun, rfl⟩
  | some k =>
    cases hr : s.remoteDescription k with
    | true => exact .inl ⟨k, rfl, hr, by simp [hr]⟩
    | false =>
      refine .inr ⟨fun j hj => ?_, by simp [hr]⟩
      rw [← Option.some.inj hj, hr]

/-- a turn of the loop replaces the handler, whatever its stage -/
theorem flushLoop_setTask (s : St) (t : ℕ) (τ : Task) (stage : Stage) (l : List Cand) :
    (s.setTask t { τ with stage := stage }).flushLoop t { τ with stage := stage } l = s.flushLoop t τ l := by
  cases l with
  | nil => simp [St.flushLoop, St.setTask]
  | cons c rest => simp [St.flushLoop, St.setTask, St.addIceCandidate, St.remoteDescription]

namespace Inv

variable {s : St}

theorem makePeer (h : Inv s) {u : String} (hfree : ∀ t τ, s.tasks t = some τ → s.peers u ≠ some τ.conn) :
    Inv (s.makePeer u) := by
  obtain ⟨place, hplaced⟩ := h.placed
  refine ⟨h.wired.makePeer hfree, ⟨place, ?_⟩, h.covered.makePeer hfree⟩
  apply hplaced.of_conns
  · intro k conn hconn
    exact ⟨conn, (Function.update_of_ne (h.wired.conn_lt hconn).ne _ _).trans hconn, rfl⟩
  · exact fun _ _ hbuf => hbuf

theorem removePeer (h : Inv s) (u : String) : Inv (s.removePeer u) := by
  obtain ⟨place, hplaced⟩ := h.placed
  refine ⟨h.wired.removePeer u, ⟨place, ?_⟩, h.covered.removePeer u⟩
  apply hplaced.of_conns
  · intro k conn hconn
    refine ⟨_, (removePeer_conns s u k).trans (congrArg _ hconn), ?_⟩
    simp only [apply_ite Conn.user, ite_self]
  · intro v buf hbuf
    rcases update_cases hbuf with ⟨-, hnone⟩ | ⟨-, hbuf⟩
    · cases hnone
    · exact hbuf

theorem setRemote (h : Inv s) (k : ℕ) : Inv (s.setRemote k) := by
  obtain ⟨place, hplaced⟩ := h.placed
  refine ⟨h.wired.setRemote k, ⟨place, ?_⟩, h.covered⟩
  apply hplaced.of_conns
  · intro j conn hconn
    refine ⟨_, (setRemote_conns s k j).trans (congrArg _ hconn), ?_⟩
    simp only [apply_ite Conn.user, ite_self]
  · exact fun _ _ hbuf => hbuf

theorem handle (h : Inv s) {u : String} {k : ℕ} (hk : s.peers u = some k) (kind : Kind) : Inv (s.handle u k kind) := by
  obtain ⟨place, hplaced⟩ := h.placed
  have hnew : s.tasks s.nextTask = none := h.wired.tasks _ le_rfl
  refine ⟨h.wired.handle hk kind, ⟨place, ?_⟩, ?_⟩
  · exact ⟨hplaced.fresh, hplaced.nodup, hplaced.added, hplaced.confined, hplaced.buffer,
      forall_update_some hplaced.flush ⟨List.nodup_nil, nofun⟩⟩
  · exact h.covered.setTask fun old hold => absurd hold (by rw [hnew]; nofun)

/-- a handler goes on between two flushes, or after one -/
theorem setTask (h : Inv s) {t : ℕ} {τ : Task} (hτ : s.tasks t = some τ) (hrest : τ.stage.rest = []) {stage : Stage}
    (hstage : stage.rest = [])
    (hd : s.remoteDescription τ.conn = true ∧ (s.peers τ.user = some τ.conn → s.pending τ.user = none)) :
    Inv (s.setTask t { τ with stage := stage }) := by
  obtain ⟨place, hplaced⟩ := h.placed
  refine ⟨h.wired.setTask hτ hd, ⟨place, hplaced.setTask hτ (by rw [hstage]; exact List.nil_sublist _)⟩, ?_⟩
  apply h.covered.setTask
  intro old hold
  rw [hτ] at hold
  cases hold
  exact ⟨rfl, by simp [hrest]⟩

/-- one turn of the loop of `flushCandidates` -/
theorem flushLoop (h : Inv s) {t : ℕ} {τ : Task} (hτ : s.tasks t = some τ) {l : List Cand} (hl : τ.stage.rest = l)
    (hd : s.remoteDescription τ.conn = true ∧ (s.peers τ.user = some τ.conn → s.pending τ.user = none)) :
    Inv (s.flushLoop t τ l) := by
  cases l with
  | nil => exact h.setTask hτ hl (Kind.rest_afterFlush _) hd
  | cons c rest =>
    obtain ⟨place, hplaced⟩ := h.placed
    obtain ⟨hnodup, hmem⟩ := hplaced.flush t τ hτ
    rw [hl] at hnodup hmem
    obtain ⟨hsender, hplace⟩ := hmem c List.mem_cons_self
    obtain ⟨conn, hconn, huser, -⟩ := h.wired.target t τ hτ
    have hwired : Wired (s.setTask t { τ with stage := .addIceCandidate rest }) := h.wired.setTask hτ hd
    have hkept : Placed (s.setTask t { τ with stage := .addIceCandidate rest }) place :=
      hplaced.setTask hτ (by rw [hl]; exact List.sublist_cons_self c rest)
    refine ⟨⟨hwired.conns, hwired.tasks, hwired.current, hwired.target, hwired.described⟩,
      ⟨Function.update place c (some .added), ?_⟩, ?_⟩
    · -- the candidate is out of this flush once its turn has come, and it is in no other place
      apply hkept.addIceCandidate (hplaced.old hplace)
      · exact hplaced.not_mem_added (by rw [hplace]; nofun)
      · exact fun u buf hbuf => hplaced.not_mem_buffer (fun v => by rw [hplace]; nofun) hbuf
      · intro t' τ' hτ'
        rcases update_cases hτ' with ⟨-, hself⟩ | ⟨hne, hτ'⟩
        · cases hself
          exact (List.nodup_cons.1 hnodup).1
        · apply hplaced.not_mem_flush _ hτ'
          rw [hplace]
          intro he
          exact hne (Place.flush.inj (Option.some.inj he)).symm
      · exact hconn
      · rw [huser, hsender]
      · rw [← remoteDescription_eq hconn, hd.1]
    · apply (h.covered.addIceCandidate τ.conn c).setTask
      intro old hold
      cases hτ.symm.trans hold
      refine ⟨rfl, fun d hd => ?_⟩
      rw [hl] at hd
      rcases List.mem_cons.1 hd with rfl | hd
      · exact .inl (by simp [St.addIceCandidate])
      · exact .inr hd

theorem flushCandidates (h : Inv s) {t : ℕ} {τ : Task} (hτ : s.tasks t = some τ)
    (hstage : τ.stage = .setRemoteDescription) (hpeer : s.peers τ.user = some τ.conn)
    (hremote : s.remoteDescription τ.conn = true) : Inv (s.flushCandidates t τ) := by
  have hrest : τ.stage.rest = [] := by rw [hstage]; rfl
  unfold St.flushCandidates
  cases hbuf : s.pending τ.user with
  | none => exact h.flushLoop hτ hrest ⟨hremote, fun _ => hbuf⟩
  | some buf =>
    obtain ⟨place, hplaced⟩ := h.placed
    have hd : s.remoteDescription τ.conn = true ∧
        (s.peers τ.user = some τ.conn → Function.update s.pending τ.user none τ.user = none) :=
      ⟨hremote, fun _ => Function.update_self _ _ _⟩
    -- the loop starts as it goes on: with a handler whose flush has the whole buffer yet to pass
    have htaken : Inv ({ s with pending := Function.update s.pending τ.user none }.setTask t
        { τ with stage := .addIceCandidate buf }) :=
      ⟨(h.wired.take τ.user).setTask hτ hd, ⟨_, hplaced.take t hbuf⟩, h.covered.take hτ hrest hpeer hbuf⟩
    have hloop := htaken.flushLoop (l := buf) (Function.update_self _ _ _) rfl hd
    rwa [flushLoop_setTask] at hloop

/-- a candidate comes in and is passed or put into the buffer -/
theorem addRemoteCandidate (h : Inv s) (u : String) : Inv ((s.receive u).addRemoteCandidate u ⟨u, s.received⟩) := by
  obtain ⟨place, hplaced⟩ := h.placed
  have hnew : place ⟨u, s.received⟩ = none := hplaced.fresh _ le_rfl
  have hwired : Wired (s.receive u) :=
    ⟨h.wired.conns, h.wired.tasks, h.wired.current, h.wired.target, h.wired.described⟩
  have hreceived : Placed (s.receive u) place :=
    ⟨fun c hc => hplaced.fresh c (Nat.le_of_succ_le hc), hplaced.nodup, hplaced.added, hplaced.confined, hplaced.buffer,
      hplaced.flush⟩
  have hsince : ∀ v d, d ∈ (s.receive u).since v → d ∈ s.since v ∨ v = u ∧ d = ⟨u, s.received⟩ := by
    intro v d hd
    by_cases hv : v = u
    · subst hv
      simp only [St.receive, Function.update_self] at hd
      exact (mem_snoc.1 hd).imp_right fun he => ⟨rfl, he⟩
    · simp only [St.receive, Function.update_of_ne hv] at hd
      exact .inl hd
  rcases addRemoteCandidate_cases (s.receive u) u ⟨u, s.received⟩ with ⟨k, hk, hremote, heq⟩ | ⟨hwait, heq⟩
  · rw [heq]
    obtain ⟨r, hconn⟩ := h.wired.current u k hk
    refine ⟨⟨hwired.conns, hwired.tasks, hwired.current, hwired.target, hwired.described⟩,
      ⟨Function.update place ⟨u, s.received⟩ (some .added), ?_⟩, ?_⟩
    · apply hreceived.addIceCandidate (Nat.lt_succ_self _)
      · exact hplaced.not_mem_added (by rw [hnew]; nofun)
      · exact fun v buf hbuf => hplaced.not_mem_buffer (fun v => by rw [hnew]; nofun) hbuf
      · exact fun t τ hτ => hplaced.not_mem_flush (by rw [hnew]; nofun) hτ
      · exact hconn
      · rfl
      · exact (remoteDescription_eq hconn).symm.trans hremote
    · intro v d hd
      rcases hsince v d hd with hold | ⟨-, rfl⟩
      · exact h.covered.addIceCandidate k _ v d hold
      · exact .inl (by simp [St.addIceCandidate])
  · rw [heq]
    refine ⟨hwired.buffer hwait _, ⟨_, hreceived.buffered hnew (Nat.lt_succ_self _)⟩, ?_⟩
    intro v d hd
    rcases hsince v d hd with hold | ⟨rfl, rfl⟩
    · exact h.covered.buffer u _ v d hold
    · exact .inr (.inl ⟨_, Function.update_self _ _ _, List.mem_append_right _ (List.mem_singleton_self _)⟩)

/-- a handler of an open connection goes on -/
theorem resume (h : Inv s) {t : ℕ} {τ : Task} (hτ : s.tasks t = some τ) (ho : s.isOpen τ.conn = true) (ok : Bool) :
    Inv (s.resume t τ ok) := by
  have hpeer := h.wired.peer_of_open hτ ho
  have hd := h.wired.described t τ hτ
  have hnext : ∀ stage : Stage, τ.stage.rest = [] → stage.rest = [] → τ.stage ≠ .setRemoteDescription →
      Inv (s.setTask t { τ with stage := stage }) :=
    fun stage hrest hrest' hstage => h.setTask hτ hrest hrest' (hd hstage)
  unfold St.resume
  split
  case h_1 hstage =>
    obtain ⟨conn, hconn, -⟩ := h.wired.target t τ hτ
    apply (h.setRemote τ.conn).flushCandidates hτ hstage hpeer
    simp [St.remoteDescription, setRemote_conns, hconn]
  case h_2 => exact h
  case h_3 rest hstage => exact h.flushLoop hτ (by rw [hstage]; rfl) (hd (by rw [hstage]; nofun))
  case h_4 hstage => exact hnext _ (by rw [hstage]; rfl) rfl (by rw [hstage]; nofun)
  case h_5 hstage => exact hnext _ (by rw [hstage]; rfl) rfl (by rw [hstage]; nofun)
  case h_6 hstage =>
    obtain ⟨hwired, ⟨place, hplaced⟩, hcovered⟩ := hnext .done (by rw [hstage]; rfl) rfl (by rw [hstage]; nofun)
    exact ⟨⟨hwired.conns, hwired.tasks, hwired.current, hwired.target, hwired.described⟩,
      ⟨place, hplaced.fresh, hplaced.nodup, hplaced.added, hplaced.confined, hplaced.buffer, hplaced.flush⟩, hcovered⟩
  case h_7 hstage => exact hnext _ (by rw [hstage]; rfl) rfl (by rw [hstage]; nofun)
  case h_8 => exact h

end Inv

theorem step_inv (s : St) (o : Op) (h : Inv s) : Inv (step s o) := by
  cases o with
  | offer u =>
    simp only [step]
    split_ifs
    · exact h
    · cases hp : s.peers u with
      | some k => exact h.handle hp .offer
      | none =>
        apply (h.makePeer fun t τ _ => by rw [hp]; nofun).handle
        exact Function.update_self _ _ _
  | answer u =>
    simp only [step]
    split_ifs
    · exact h
    · cases hp : s.peers u with
      | some k => exact h.handle hp .answer
      | none => exact h
  | iceCandidate u =>
    simp only [step]
    split_ifs
    · exact h
    · exact h.addRemoteCandidate u
  | participantLeft u =>
    simp only [step]
    split_ifs
    · exact h
    · exact h.removePeer u
  | describe t =>
    simp only [step]
    cases hτ : s.tasks t with
    | none => exact h
    | some τ =>
      simp only
      split_ifs
      · exact h.setRemote τ.conn
      · exact h
  | settle t ok =>
    simp only [step]
    cases hτ : s.tasks t with
    | none => exact h
    | some τ =>
      simp only
      split_ifs with ho
      · exact h.resume hτ ho ok
      · exact h

theorem start_inv (existingUserIds : List String) :
    Inv (start existingUserIds) ∧ ∀ t, (start existingUserIds).tasks t = none := by
  refine List.foldlRecOn existingUserIds St.makePeer (motive := fun s => Inv s ∧ ∀ t, s.tasks t = none) ?_ ?_
  · refine ⟨⟨⟨fun _ _ => rfl, fun _ _ => rfl, nofun, nofun, nofun⟩, ⟨fun _ => none, ?_⟩, nofun⟩, fun _ => rfl⟩
    exact ⟨fun _ _ => rfl, List.nodup_nil, nofun, nofun, nofun, nofun⟩
  · intro s h u _
    refine ⟨h.1.makePeer fun t τ hτ => ?_, h.2⟩
    rw [h.2 t] at hτ
    cases hτ

/-- **What is passed, and what is left to pass.** In every run of a session: a candidate is passed at most once, on a
connection to its sender and with the remote description set. Once a description of a user's current connection has been
applied and its flush has returned, the user's buffer is empty, and each candidate of the user has been passed exactly
once or is in what another flush on that connection has yet to pass. -/
theorem passed_once (existingUserIds : List String) (ops : List Op) :
    let s := run step (start existingUserIds) ops
    (∀ c, s.passed c ≤ 1) ∧
      (∀ a ∈ s.added, a.remote = true ∧ ∃ conn, s.conns a.conn = some conn ∧ conn.user = a.cand.sender) ∧
      ∀ u k t τ, s.peers u = some k → s.tasks t = some τ → τ.conn = k → τ.stage.Flushed →
        s.pending u = none ∧ ∀ c ∈ s.since u, s.passed c = 1 ∨
          s.passed c = 0 ∧ ∃ t' τ', s.tasks t' = some τ' ∧ τ'.conn = k ∧ c ∈ τ'.stage.rest := by
  intro s
  obtain ⟨hwired, ⟨place, hplaced⟩, hcovered⟩ : Inv s := run_inv' step_inv (start_inv existingUserIds).1 ops
  refine ⟨List.nodup_iff_count_le_one.1 hplaced.nodup, hplaced.confined, ?_⟩
  rintro u k t τ hk hτ rfl hflushed
  have hstage : τ.stage ≠ .setRemoteDescription := by
    intro hs
    rw [hs] at hflushed
    exact hflushed
  obtain ⟨conn, hconn, huser, -⟩ := hwired.target t τ hτ
  obtain ⟨r, hconn'⟩ := hwired.current u τ.conn hk
  rw [hconn] at hconn'
  cases hconn'
  have huser : u = τ.user := huser
  subst huser
  have hnone := (hwired.described t τ hτ hstage).2 hk
  refine ⟨hnone, fun c hc => ?_⟩
  by_cases hadded : c ∈ s.added.map Added.cand
  · exact .inl (List.count_eq_one_of_mem hplaced.nodup hadded)
  · refine .inr ⟨List.count_eq_zero_of_not_mem hadded, ?_⟩
    rcases hcovered _ c hc with hmem | ⟨buf, hbuf, -⟩ | ⟨t', τ', hτ', hpeer, hrest⟩
    · exact absurd hmem hadded
    · rw [hnone] at hbuf
      cases hbuf
    · exact ⟨t', τ', hτ', Option.some.inj (hpeer.symm.trans hk), hrest⟩

/-- an offer, two candidates before it is applied, and the flush -/
def buffered : List Op :=
  [.offer "u", .iceCandidate "u", .iceCandidate "u", .settle 0 true, .settle 0 true, .settle 0 true]

theorem buffered_passed :
    let s := run step (start []) buffered
    s.since "u" = [⟨"u", 0⟩, ⟨"u", 1⟩] ∧ s.pending "u" = none ∧ ∀ c ∈ s.since "u", s.passed c = 1 ∨
      s.passed c = 0 ∧ ∃ t' τ', s.tasks t' = some τ' ∧ τ'.conn = 0 ∧ c ∈ τ'.stage.rest :=
  ⟨by decide, (passed_once [] buffered).2.2 "u" 0 0 ⟨"u", 0, .offer, .createAnswer⟩ (by decide) (by decide) rfl trivial⟩

/-- two offers, and two candidates before either is applied: the first offer's flush waits at the first candidate -/
def overlapping : List Op :=
  [.offer "u", .offer "u", .iceCandidate "u", .iceCandidate "u", .settle 0 true, .settle 1 true]

/-- **A flush can return before another.** Both offers are applied to the current connection and the flush of the second has
returned, and the second candidate has not been passed. -/
theorem overtaken_flush :
    let s := run step (start []) overlapping
    s.peers "u" = some 0 ∧ s.tasks 1 = some ⟨"u", 0, .offer, .createAnswer⟩ ∧ s.since "u" = [⟨"u", 0⟩, ⟨"u", 1⟩] ∧
      s.passed ⟨"u", 1⟩ = 0 := by
  decide

end Concordia.Voice.Candidates
