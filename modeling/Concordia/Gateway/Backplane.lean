/-
Gateway processes, the connections they hold and the pushes they deliver (`ServeHTTP`, `PushHandler`, `deliverLocal`,
`runBackplane` and `New` in `services/gateway/ws/handler.go`).

- A process is one `Handler`. A container that is started again keeps its host name and is a new process. A crash loses
  the connections of a process, its connection table, and what it has not delivered yet.
- A connection gets its id, is put into its process' table, and leaves it; these are steps of their own.
- A push is first addressed (chat has looked up the sessions, the request is on its way), then posted to some process.
  With the backplane, each process that runs gets it once; without, the process it was posted to. Then each process
  looks its session ids up one after another. The lookup of one id, with the write, is one step; processes and pushes
  take their steps in any order.
- The counter behind the ids is an `atomic.Uint64`: it wraps.

Main results: `connID_inj`, whatever dashes and digits host names have; `step_effect`, all that a step can do.
-/
import Concordia.Lib.Run
import Concordia.Lib.Decimal

namespace Concordia.Gateway.Backplane

open Concordia.Lib Concordia.Lib.Decimal
open Function (update update_self update_of_ne)

/-! ## Connection ids -/

/-- `fmt.Sprintf("%s-%d", h.instanceID, n)` -/
def connID (instanceID : String) (n : ℕ) : String := instanceID ++ "-" ++ toString n

theorem toList_connID (i : String) (n : ℕ) : (connID i n).toList = i.toList ++ '-' :: Nat.toDigits 10 n := by
  simp [connID]

theorem digits_noDash (n : ℕ) : ∀ c ∈ (Nat.toDigits 10 n).reverse, c ≠ '-' := by
  intro c hc
  have hdigit := Nat.isDigit_of_mem_toDigits (by decide) (by decide) (List.mem_reverse.1 hc)
  rintro rfl
  exact absurd hdigit (by decide)

/-- the last dash of an id ends the instance id -/
theorem connID_inj {i j : String} {m n : ℕ} (h : connID i m = connID j n) : i = j ∧ m = n := by
  have hrev : (Nat.toDigits 10 m).reverse ++ '-' :: i.toList.reverse =
      (Nat.toDigits 10 n).reverse ++ '-' :: j.toList.reverse := by
    have hlist : (connID i m).toList.reverse = (connID j n).toList.reverse := by rw [h]
    simpa [toList_connID] using hlist
  obtain ⟨htake, hdrop⟩ := takeWhile_mark '-' (digits_noDash m) (b := i.toList.reverse)
  obtain ⟨htake', hdrop'⟩ := takeWhile_mark '-' (digits_noDash n) (b := j.toList.reverse)
  rw [hrev] at htake hdrop
  have hdigits : Nat.toDigits 10 m = Nat.toDigits 10 n := by simpa using htake.symm.trans htake'
  have hinstance : i = j := String.toList_injective (by simpa using hdrop.symm.trans hdrop')
  refine ⟨hinstance, ?_⟩
  rw [← Nat.ofDigitChars_ten_toDigits (n := m), hdigits, Nat.ofDigitChars_ten_toDigits]

/-! ## Data -/

/-- where a connection stands -/
inductive Stage where
  /-- it has its id, and is not in the table yet -/
  | accepted
  | held
  | closed
deriving DecidableEq, Repr

structure Conn where
  process : ℕ
  /-- it is the `nth` connection its process accepted -/
  nth : ℕ
  id : String
  stage : Stage
deriving DecidableEq, Repr

structure Process where
  instanceID : String
  /-- the connections accepted; the code's counter is this modulo 2^64 -/
  seq : ℕ
  running : Bool
  conns : String → Option ℕ

structure PushRequest where
  sessionIDs : List String
  event : String
deriving DecidableEq, Repr

/-- the body of `POST /internal/push` -/
inductive Body where
  | unreadable
  | malformed
  | request (req : PushRequest)
deriving DecidableEq, Repr

inductive PushStage where
  | sent
  | refused (status : ℕ) (error : String)
  | taken (req : PushRequest)
deriving DecidableEq, Repr

structure Push where
  body : Body
  /-- how many connections had been accepted when chat addressed it -/
  opened : ℕ
  stage : PushStage
deriving DecidableEq, Repr

/-- a run of `deliverLocal`: the session ids that are left, and the counts so far -/
structure Job where
  rest : List String
  delivered : ℕ
  missing : ℕ
deriving DecidableEq, Repr

/-- an event written to a connection, found under `id` -/
structure Write where
  push : ℕ
  id : String
  conn : ℕ
deriving DecidableEq, Repr

structure St where
  /-- `GATEWAY_WS_BACKPLANE` -/
  backplane : Bool
  processes : ℕ → Option Process
  /-- how many connections have been accepted -/
  opened : ℕ
  conns : ℕ → Option Conn
  pushes : List Push
  /-- what a process has to deliver of a push -/
  jobs : ℕ → ℕ → Option Job
  written : List Write

def init (backplane : Bool) : St := ⟨backplane, fun _ => none, 0, fun _ => none, [], fun _ _ => none, []⟩

inductive Op where
  | start (p : ℕ) (host : String)
  | crash (p : ℕ)
  | accept (p : ℕ)
  | hold (c : ℕ)
  | close (c : ℕ)
  /-- chat sends a push -/
  | address (body : Body)
  /-- process `p` handles push `n`; `published` is whether Redis takes it -/
  | post (p n : ℕ) (published : Bool)
  /-- process `p` handles the next session id of push `n`; `ok` is whether the write succeeds -/
  | deliver (p n : ℕ) (ok : Bool)
deriving DecidableEq, Repr

/-! ## The code -/

/-- `New` -/
def newProcess (hostname : String) : Process :=
  { instanceID := if hostname = "" then "gateway" else hostname, seq := 0, running := true, conns := fun _ => none }

def St.Running (s : St) (p : ℕ) : Prop := ∃ P ∈ s.processes p, P.running = true

instance (s : St) (p : ℕ) : Decidable (s.Running p) :=
  inferInstanceAs (Decidable (∃ P ∈ s.processes p, P.running = true))

/-- `ServeHTTP` gives the connection its id -/
def accept (s : St) (p : ℕ) (P : Process) : St :=
  { s with
    processes := update s.processes p (some { P with seq := P.seq + 1 })
    opened := s.opened + 1
    conns := update s.conns s.opened
      (some ⟨p, P.seq + 1, connID P.instanceID ((P.seq + 1) % 2 ^ 64), .accepted⟩) }

/-- `h.conns[connID] = cw` -/
def hold (s : St) (c : ℕ) (x : Conn) (P : Process) : St :=
  { s with
    processes := update s.processes x.process (some { P with conns := update P.conns x.id (some c) })
    conns := update s.conns c (some { x with stage := .held }) }

/-- `delete(h.conns, connID)` -/
def close (s : St) (c : ℕ) (x : Conn) (P : Process) : St :=
  { s with
    processes := update s.processes x.process (some { P with conns := update P.conns x.id none })
    conns := update s.conns c (some { x with stage := .closed }) }

def crash (s : St) (p : ℕ) (P : Process) : St :=
  { s with
    processes := update s.processes p (some { P with running := false, conns := fun _ => none })
    conns := fun c => (s.conns c).map fun x => if x.process = p then { x with stage := .closed } else x
    jobs := update s.jobs p fun _ => none }

/-- `PushHandler`: the request it takes, or the status and text of its error -/
def pushHandler (backplane published : Bool) : Body → Except (ℕ × String) PushRequest
  | .unreadable => .error (400, "read error")
  | .malformed => .error (400, "invalid json")
  | .request req =>
    if req.event = "" then .error (400, "event required")
    else if backplane && !published then .error (502, "backplane unavailable")
    else .ok req

/-- push `n` is taken by process `p`: by the subscriber of every process, or by `p` alone -/
def take (s : St) (p n : ℕ) (push : Push) (req : PushRequest) : St :=
  { s with
    pushes := s.pushes.set n { push with stage := .taken req }
    jobs := fun q m =>
      if m = n ∧ s.Running q ∧ (s.backplane = true ∨ q = p) then some ⟨req.sessionIDs, 0, 0⟩ else s.jobs q m }

def refuse (s : St) (n : ℕ) (push : Push) (status : ℕ) (error : String) : St :=
  { s with pushes := s.pushes.set n { push with stage := .refused status error } }

def St.setJob (s : St) (p n : ℕ) (job : Job) : St := { s with jobs := update s.jobs p (update (s.jobs p) n (some job)) }

/-- one round of the loop of `deliverLocal` -/
def deliver (s : St) (p n : ℕ) (P : Process) (id : String) (rest : List String) (delivered missing : ℕ) (ok : Bool) :
    St :=
  match P.conns id with
  | none => s.setJob p n ⟨rest, delivered, missing + 1⟩
  | some c =>
    if ok then { s.setJob p n ⟨rest, delivered + 1, missing⟩ with written := s.written ++ [⟨n, id, c⟩] }
    else s.setJob p n ⟨rest, delivered, missing + 1⟩

def step (s : St) : Op → St
  | .start p host =>
    if s.processes p = none then { s with processes := update s.processes p (some (newProcess host)) } else s
  | .crash p =>
    match s.processes p with
    | some P => if P.running then crash s p P else s
    | none => s
  | .accept p =>
    match s.processes p with
    | some P => if P.running then accept s p P else s
    | none => s
  | .hold c =>
    match s.conns c with
    | some x =>
      match s.processes x.process with
      | some P => if x.stage = .accepted then hold s c x P else s
      | none => s
    | none => s
  | .close c =>
    match s.conns c with
    | some x =>
      match s.processes x.process with
      | some P => if x.stage = .held then close s c x P else s
      | none => s
    | none => s
  | .address body => { s with pushes := s.pushes ++ [⟨body, s.opened, .sent⟩] }
  | .post p n published =>
    match s.pushes[n]? with
    | some push =>
      if push.stage = .sent ∧ s.Running p then
        match pushHandler s.backplane published push.body with
        | .ok req => take s p n push req
        | .error (status, error) => refuse s n push status error
      else s
    | none => s
  | .deliver p n ok =>
    match s.processes p, s.jobs p n with
    | some P, some ⟨id :: rest, delivered, missing⟩ => deliver s p n P id rest delivered missing ok
    | _, _ => s

abbrev reached (backplane : Bool) (ops : List Op) : St := run step (init backplane) ops

/-! ## What a step can do -/

inductive Effect (s : St) : Op → St → Prop where
  | start {p : ℕ} (host : String) (hnone : s.processes p = none) :
      Effect s (.start p host) { s with processes := update s.processes p (some (newProcess host)) }
  | crash {p : ℕ} {P : Process} (hP : s.processes p = some P) (hrun : P.running = true) :
      Effect s (.crash p) (crash s p P)
  | accept {p : ℕ} {P : Process} (hP : s.processes p = some P) (hrun : P.running = true) :
      Effect s (.accept p) (accept s p P)
  | hold {c : ℕ} {x : Conn} {P : Process} (hx : s.conns c = some x) (hP : s.processes x.process = some P)
      (hstage : x.stage = .accepted) : Effect s (.hold c) (hold s c x P)
  | close {c : ℕ} {x : Conn} {P : Process} (hx : s.conns c = some x) (hP : s.processes x.process = some P)
      (hstage : x.stage = .held) : Effect s (.close c) (close s c x P)
  | address (body : Body) : Effect s (.address body) { s with pushes := s.pushes ++ [⟨body, s.opened, .sent⟩] }
  | take {p n : ℕ} {published : Bool} {push : Push} {req : PushRequest} (hpush : s.pushes[n]? = some push)
      (hsent : push.stage = .sent) (hrun : s.Running p)
      (hreq : pushHandler s.backplane published push.body = .ok req) :
      Effect s (.post p n published) (take s p n push req)
  | refuse {p n : ℕ} {published : Bool} {push : Push} (status : ℕ) (error : String) (hpush : s.pushes[n]? = some push)
      (hsent : push.stage = .sent) : Effect s (.post p n published) (refuse s n push status error)
  | miss {p n : ℕ} {ok : Bool} {P : Process} {id : String} {rest : List String} {delivered missing : ℕ}
      (hP : s.processes p = some P) (hjob : s.jobs p n = some ⟨id :: rest, delivered, missing⟩)
      (hnone : P.conns id = none ∨ ok = false) :
      Effect s (.deliver p n ok) (s.setJob p n ⟨rest, delivered, missing + 1⟩)
  | write {p n c : ℕ} {P : Process} {id : String} {rest : List String} {delivered missing : ℕ}
      (hP : s.processes p = some P) (hjob : s.jobs p n = some ⟨id :: rest, delivered, missing⟩)
      (hc : P.conns id = some c) : Effect s (.deliver p n true)
        { s.setJob p n ⟨rest, delivered + 1, missing⟩ with written := s.written ++ [⟨n, id, c⟩] }

theorem step_effect (s : St) (o : Op) : step s o = s ∨ Effect s o (step s o) := by
  cases o with
  | start p host =>
    simp only [step]
    split_ifs with hnone
    · exact .inr (.start host hnone)
    · exact .inl rfl
  | crash p =>
    simp only [step]
    split
    · next P hP =>
      split_ifs with hrun
      · exact .inr (.crash hP hrun)
      · exact .inl rfl
    · exact .inl rfl
  | accept p =>
    simp only [step]
    split
    · next P hP =>
      split_ifs with hrun
      · exact .inr (.accept hP hrun)
      · exact .inl rfl
    · exact .inl rfl
  | hold c =>
    simp only [step]
    split
    · next x hx =>
      split
      · next P hP =>
        split_ifs with hstage
        · exact .inr (.hold hx hP hstage)
        · exact .inl rfl
      · exact .inl rfl
    · exact .inl rfl
  | close c =>
    simp only [step]
    split
    · next x hx =>
      split
      · next P hP =>
        split_ifs with hstage
        · exact .inr (.close hx hP hstage)
        · exact .inl rfl
      · exact .inl rfl
    · exact .inl rfl
  | address body => exact .inr (.address body)
  | post p n published =>
    simp only [step]
    split
    · next push hpush =>
      split_ifs with hguard
      · split
        · next req hreq => exact .inr (.take hpush hguard.1 hguard.2 hreq)
        · exact .inr (.refuse _ _ hpush hguard.1)
      · exact .inl rfl
    · exact .inl rfl
  | deliver p n ok =>
    simp only [step]
    split
    · next P id rest delivered missing hP hjob =>
      unfold deliver
      split
      · next hnone => exact .inr (.miss hP hjob (.inl hnone))
      · next c hc =>
        cases ok with
        | true => exact .inr (.write hP hjob hc)
        | false => exact .inr (.miss hP hjob (.inr rfl))
    · exact .inl rfl

end Concordia.Gateway.Backplane
