/-
Chat's messages with the servers service behind them: `create_message`, `list_messages` and `delete_message`, each of which
resolves the server of its channel (`resolve_server_id`) and asks CheckPerm.

- Every read and every write of chat's cache, of `roleLookup` and of the database is a step of its own. Between any two of
  them come requests to the servers service, evictions, time, and the steps of other requests and of CheckPerm calls of
  other services. A lookup of a channel and a CheckPerm call may fail at any time, and their answers are on their way while
  the servers service goes on.
- `WasRead`: these were a user's permissions on a server, of which the user had been found to be a member before.
- `Puts`: a CheckPerm call puts what it has read into `roleLookup`.
- `Entitled`: while the CheckPerm call of the request was under way, the user was a member of the channel's server, and then
  the call was given permissions that had been put into `roleLookup` less than 60 seconds before.
- `done_entitled`: what chat has done, it has done for users who were entitled to it. Nothing bounds the time between the
  reading of the roles and the put: in `returned` it is an hour.

A request after which the ids of the servers service would not fit into 128 bits does not come.
-/
import Concordia.Chat.AccessControl
import Concordia.Chat.ServerCache
import Concordia.Servers.CheckCalls

namespace Concordia.Chat.Entitlement

open Concordia.Lib
open Concordia.Servers (Uuid Permission Svc Check roleLookupTtl)
open Concordia.Chat.Requests (Config Task Phase Entry Vetted checks)
open Concordia.Chat.ServerCache (Endpoint HasChannel checkRequest)
open Function (update update_self update_of_ne)

/-! ## Both services -/

/-- how far `resolve_server_id` has come for a request -/
inductive Resolution where
  /-- the channel was not in the cache, and the servers service is asked -/
  | asked
  /-- the servers service has answered: the server of the channel, if there is one -/
  | answered (serverId : Option Uuid)
  | resolved (serverId : Option Uuid)

/-- who calls CheckPerm -/
inductive Caller where
  /-- a request to chat -/
  | request (r : ℕ)
  | other (n : ℕ)
deriving DecidableEq

structure St where
  servers : Svc
  channelServerCache : ServerCache.Cache
  chat : Requests.St
  resolutions : ℕ → Option Resolution
  /-- the CheckPerm calls -/
  calls : Caller → Option Check

inductive Op where
  /-- a request to the servers service -/
  | servers (q : Servers.Request)
  | evict (serverId : Uuid) (userId : String)
  /-- a request looks its channel up in `channel_server_cache` -/
  | lookUp (r : ℕ)
  /-- `InternalChannelController.getChannel` answers a request -/
  | getChannel (r : ℕ)
  /-- its answer comes in, or the call fails -/
  | resolve (r : ℕ) (delivered : Bool)
  /-- a request calls CheckPerm -/
  | ask (r : ℕ)
  /-- another service does -/
  | otherCheck (n : ℕ) (request : Servers.CheckPermRequest)
  /-- the next step of a CheckPerm call in the servers service -/
  | proceed (c : Caller)
  /-- the answer of CheckPerm comes in, or the call fails -/
  | reply (r : ℕ) (delivered : Bool)
  /-- any other step of a request -/
  | chat (o : Requests.Op)
  | elapse (millis : ℕ)

def init : St := ⟨Svc.init, fun _ => none, Requests.init, fun _ => none, fun _ => none⟩

/-- the endpoint whose permission a request needs -/
def endpoint : Requests.Request → Option Endpoint
  | .create _ _ => some .createMessage
  | .list _ _ => some .listMessages
  | .delete _ _ => some .deleteMessage
  | .upload _ _ => none

/-- the steps that are not the answer of CheckPerm or the clock -/
def ownStep : Requests.Op → Bool
  | .check _ _ | .tick _ => false
  | _ => true

/-- what `resolve_server_id` returns when the answer comes in, or the call fails -/
def Resolution.outcome : Resolution → Bool → Option (Option Uuid)
  | .answered found, true => some found
  | .asked, false | .answered _, false => some none
  | _, _ => none

/-- `channel_server_cache` with what has been found of a channel -/
def remember (cache : ServerCache.Cache) (channelId : Uuid) : Option Uuid → ServerCache.Cache
  | some sid => update cache channelId (some sid)
  | none => cache

/-- what CheckPerm says to a request when its answer comes in, or the call fails -/
def outcome (call : Check) (delivered : Bool) : Option (Option Bool) :=
  if delivered then call.answer.map some else some none

namespace St

def withResolution (s : St) (r : ℕ) (x : Resolution) : St := { s with resolutions := update s.resolutions r (some x) }

def withCall (s : St) (c : Caller) (call : Check) (servers : Svc) : St :=
  { s with servers, calls := update s.calls c (some call) }

end St

section

variable (cfg : Config)

def step (s : St) : Op → St
  | .servers q =>
    if (Servers.step s.servers.db q).drawn ≤ 2 ^ 128 then { s with servers := s.servers.step (.request q) } else s
  | .evict sid u => { s with servers := s.servers.step (.evict sid u) }
  | .lookUp r =>
    match s.chat.requests r with
    | some task =>
      if task.phase = .checking ∧ s.resolutions r = none then
        s.withResolution r (match s.channelServerCache task.request.channelId with
          | some sid => .resolved (some sid)
          | none => .asked)
      else s
    | none => s
  | .getChannel r =>
    match s.chat.requests r, s.resolutions r with
    | some task, some .asked =>
      s.withResolution r (.answered ((s.servers.db.findChannel task.request.channelId).map fun x => x.serverId))
    | _, _ => s
  | .resolve r delivered =>
    match s.chat.requests r, (s.resolutions r).bind fun x => x.outcome delivered with
    | some task, some found =>
      { s.withResolution r (.resolved found) with
        channelServerCache := remember s.channelServerCache task.request.channelId found }
    | _, _ => s
  | .ask r =>
    match s.chat.requests r, s.resolutions r with
    | some task, some (.resolved sid) =>
      match endpoint task.request with
      | some e =>
        if task.phase = .checking ∧ s.calls (.request r) = none then
          s.withCall (.request r)
            (Check.start s.servers.db (checkRequest task.userId task.request.channelId sid e)) s.servers
        else s
      | none => s
    | _, _ => s
  | .otherCheck n request =>
    match s.calls (.other n) with
    | some _ => s
    | none => s.withCall (.other n) (Check.start s.servers.db request) s.servers
  | .proceed c =>
    match s.calls c with
    | some call => s.withCall c (call.next s.servers).1 (call.next s.servers).2
    | none => s
  | .reply r delivered =>
    match (s.calls (.request r)).bind fun call => outcome call delivered with
    | some reply => { s with chat := Requests.step cfg s.chat (.check r reply) }
    | none => s
  | .chat o => if ownStep o then { s with chat := Requests.step cfg s.chat o } else s
  | .elapse millis =>
    { s with
      servers := s.servers.step (.elapse (millis * 10 ^ 6))
      chat := Requests.step cfg s.chat (.tick millis) }

abbrev reached (ops : List Op) : St := run (step cfg) init ops

/-! ## Being entitled -/

/-- the user of `k` was found to be a member of the server of `k`, and these were the user's permissions there after it -/
def WasRead (ops : List Op) (k : Uuid × String) (v : Finset Permission) : Prop :=
  ∃ a b, a <+: b ∧ b <+: ops ∧ Svc.Member (reached cfg a).servers.db k ∧
    (reached cfg b).servers.db.effective k.1 k.2 = v

/-- after `w`, and before the run was over, a CheckPerm call put the permissions that it had read into `roleLookup` -/
def Puts (ops w : List Op) (k : Uuid × String) (v : Finset Permission) : Prop :=
  ∃ c p, w ++ [.proceed c] <+: ops ∧ (reached cfg w).calls c = some (.read k p v) ∧ WasRead cfg w k v

/-- request `r` was allowed `p` on the channel for the user, by these moments of the run: `a`, when its CheckPerm call read
the membership; `l`, when the call had the permissions `v`; and `w`, when they were put into `roleLookup` -/
structure Allows (ops : List Op) (r : ℕ) (userId channelId : Uuid) (p : Permission) (a l w : List Op)
    (v : Finset Permission) (sid : Uuid) : Prop where
  server : HasChannel (reached cfg a).servers.db.toTables channelId sid
  named : (reached cfg a).calls (.request r) = some (.named (sid, Servers.Uuid.toString userId) p)
  member : Svc.Member (reached cfg a).servers.db (sid, Servers.Uuid.toString userId)
  given : l ++ [.proceed (.request r)] <+: ops
  found : (reached cfg l).servers.cached sid (Servers.Uuid.toString userId) = some v ∨
    (reached cfg l).calls (.request r) = some (.read (sid, Servers.Uuid.toString userId) p v)
  puts : Puts cfg ops w (sid, Servers.Uuid.toString userId) v
  permission : p ∈ v
  inOrder : a <+: l ∧ w <+: l
  recent : (reached cfg l).servers.now < (reached cfg w).servers.now + roleLookupTtl

def Entitled (ops : List Op) (r : ℕ) (userId channelId : Uuid) (p : Permission) : Prop :=
  ∃ a l w v sid, Allows cfg ops r userId channelId p a l w v sid

/-- what chat has done for a user, the user was entitled to -/
def Rightful (ops : List Op) (e : Entry) : Prop :=
  match e.event with
  | .inserted u c _ => Entitled cfg ops e.request u c .write
  | .markedDeleted u c m =>
    (∃ e' ∈ (reached cfg ops).chat.log, e'.event = .inserted u c m) ∨ Entitled cfg ops e.request u c .manage
  | .returned u _ (.page page) => ∀ m ∈ page.messages, Entitled cfg ops e.request u m.channelId .read
  | _ => True

end

variable {cfg : Config}

theorem reached_snoc (ops : List Op) (o : Op) : reached cfg (ops ++ [o]) = step cfg (reached cfg ops) o := run_snoc _ _ _ _

theorem WasRead.append {ops : List Op} {k : Uuid × String} {v : Finset Permission} (h : WasRead cfg ops k v)
    (later : List Op) : WasRead cfg (ops ++ later) k v := by
  obtain ⟨a, b, hab, hb, hrest⟩ := h
  exact ⟨a, b, hab, hb.trans (List.prefix_append ops later), hrest⟩

theorem Puts.append {ops w : List Op} {k : Uuid × String} {v : Finset Permission} (h : Puts cfg ops w k v)
    (later : List Op) : Puts cfg (ops ++ later) w k v := by
  obtain ⟨c, p, hw, hrest⟩ := h
  exact ⟨c, p, hw.trans (List.prefix_append ops later), hrest⟩

theorem Puts.isPrefix {ops w : List Op} {k : Uuid × String} {v : Finset Permission} (h : Puts cfg ops w k v) : w <+: ops := by
  obtain ⟨c, -, hw, -⟩ := h
  exact (List.prefix_append w _).trans hw

theorem Entitled.append {ops : List Op} {r : ℕ} {u c : Uuid} {p : Permission} (h : Entitled cfg ops r u c p)
    (later : List Op) : Entitled cfg (ops ++ later) r u c p := by
  obtain ⟨a, l, w, v, sid, h⟩ := h
  exact ⟨a, l, w, v, sid,
    { h with given := h.given.trans (List.prefix_append ops later), puts := h.puts.append later }⟩

/-! ## Chat's requests -/

theorem checks_endpoint {q : Requests.Request} {action : Servers.Action} {next : Phase}
    (h : checks cfg q = some (action, next)) : ∃ e, endpoint q = some e ∧ e.action = action := by
  cases q with
  | upload => cases h
  | _ =>
    obtain ⟨rfl, -⟩ := Prod.mk.inj (Option.some.inj h)
    exact ⟨_, rfl, rfl⟩

theorem action_inj {e e' : Endpoint} (h : e.action = e'.action) : e = e' := by
  cases e <;> cases e' <;> first | rfl | cases h

/-- `task'` is what has become of `task` -/
def SameRequest (task task' : Task) : Prop := task'.userId = task.userId ∧ task'.request = task.request

/-- requests stay, and do not change -/
theorem task_stays {s : Requests.St} (o : Requests.Op) {r : ℕ} {task : Task} (h : s.requests r = some task) :
    ∃ task', (Requests.step cfg s o).requests r = some task' ∧ SameRequest task task' := by
  rcases Requests.step_effect cfg s o with heq | he
  · rw [heq]
    exact ⟨task, h, rfl, rfl⟩
  have hmoved : ∀ {t : Requests.St} {r' : ℕ} {task' : Task} {phase : Phase}, s.requests r' = some task' →
      t.requests = s.requests → ∃ task₂, (t.move r' task' phase).requests r = some task₂ ∧ SameRequest task task₂ := by
    intro t r' task' phase htask' hsame
    cases hnow : (t.move r' task' phase).requests r with
    | none => exact (Requests.move_ne_none (.inr (by rw [hsame, h]; exact Option.some_ne_none task)) hnow).elim
    | some task₂ =>
      refine ⟨task₂, rfl, ?_⟩
      rcases Requests.move_cases hnow with ⟨rfl, rfl⟩ | ⟨-, hold⟩
      · obtain rfl := Option.some.inj (h.symm.trans htask')
        exact ⟨rfl, rfl⟩
      · obtain rfl := Option.some.inj (h.symm.trans (hsame ▸ hold))
        exact ⟨rfl, rfl⟩
  generalize Requests.step cfg s o = t at he ⊢
  cases he with
  | tick => exact ⟨task, h, rfl, rfl⟩
  | @arrive r' u q hnone huuids =>
    have hne : r ≠ r' := by
      rintro rfl
      exact absurd (h.symm.trans hnone) (by simp)
    exact ⟨task, (update_of_ne hne _ _).trans h, rfl, rfl⟩
  | quiet htask => exact hmoved htask rfl
  | check reply htask => exact hmoved htask rfl
  | insert ok htask => exact hmoved (t := s.record _ _) htask rfl
  | mark ok htask => exact hmoved (t := s.record _ _) htask rfl
  | set htask => exact hmoved htask rfl
  | put ok htask => exact hmoved (t := s.record _ _) htask rfl
  | respond htask => exact hmoved htask rfl

/-- what the log must hold before an entry that is not a check -/
def Warranted (log : List Entry) (r : ℕ) : Requests.Event → Prop
  | .inserted u c _ => Requests.Allowed log r u c .write
  | .markedDeleted u c m => Requests.MayMark log r u c m
  | .returned u _ (.page page) => ∀ m ∈ page.messages, Requests.Allowed log r u m.channelId .read
  | .checked _ _ _ _ => False
  | _ => True

/-- an entry that a step writes is the answer of CheckPerm, or was allowed by one before -/
theorem entry_new {s : Requests.St} {o : Requests.Op} {en : Entry} (hs : Vetted s)
    (hen : en ∈ (Requests.step cfg s o).log) :
    en ∈ s.log ∨
      (∃ task action next reply, o = .check en.request reply ∧ s.requests en.request = some task ∧
        checks cfg task.request = some (action, next) ∧
        en.event = .checked task.userId task.request.channelId action reply) ∨
      Warranted s.log en.request en.event := by
  rcases Requests.step_effect cfg s o with heq | he
  · rw [heq] at hen
    exact .inl hen
  generalize Requests.step cfg s o = t at he hen
  cases he with
  | tick => exact .inl hen
  | arrive => exact .inl hen
  | quiet => exact .inl hen
  | set => exact .inl hen
  | @check r task action next reply htask hphase hchecks =>
    rcases mem_snoc.1 hen with hen | rfl
    · exact .inl hen
    · exact .inr (.inl ⟨task, action, next, reply, rfl, htask, hchecks, rfl⟩)
  | @insert r task c m body outcome ok htask hphase hq =>
    rcases mem_snoc.1 hen with hen | rfl
    · exact .inl hen
    · have hok := hs.tasks r task htask
      rw [hphase, hq] at hok
      exact .inr (.inr hok.2)
  | @mark r task c m outcome ok htask hphase hq =>
    rcases mem_snoc.1 hen with hen | rfl
    · exact .inl hen
    · have hok := hs.tasks r task htask
      rw [hphase] at hok
      exact .inr (.inr (hok.2 c m hq))
  | @put r task file attachmentId outcome ok htask =>
    rcases mem_snoc.1 hen with hen | rfl
    · exact .inl hen
    · exact .inr (.inr trivial)
  | @respond r task a htask hphase =>
    rcases mem_snoc.1 hen with hen | rfl
    · exact .inl hen
    · have hok := hs.tasks r task htask
      rw [hphase] at hok
      refine .inr (.inr ?_)
      cases a with
      | page page =>
        intro m hm
        rw [hok.2 m hm]
        exact hok.1
      | _ => trivial

/-! ## What every state has -/

/-- the server that has been found -/
def Resolution.found : Resolution → Option Uuid
  | .asked => none
  | .answered found | .resolved found => found

/-- a CheckPerm call of request `r` asks for what the request needs -/
def AskedFor (s : St) (r : ℕ) (call : Check) : Prop :=
  ∃ task e, s.chat.requests r = some task ∧ endpoint task.request = some e ∧ ∀ k p, call.asks = some (k, p) →
    k.2 = Servers.Uuid.toString task.userId ∧ p = e.permission ∧
      HasChannel s.servers.db.toTables task.request.channelId k.1

structure Inv (s : St) : Prop where
  vetted : Vetted s.chat
  drawn : s.servers.db.drawn ≤ 2 ^ 128
  cached : ∀ c sid, s.channelServerCache c = some sid → HasChannel s.servers.db.toTables c sid
  resolved : ∀ r x sid, s.resolutions r = some x → x.found = some sid →
    ∃ task, s.chat.requests r = some task ∧ HasChannel s.servers.db.toTables task.request.channelId sid
  asked : ∀ r call, s.calls (.request r) = some call → AskedFor s r call

theorem inv_init : Inv init where
  vetted := Requests.vetted_init
  drawn := Nat.zero_le _
  cached := fun c sid hc => by cases hc
  resolved := fun r x sid hr => by cases hr
  asked := fun r call hcall => by cases hcall

theorem AskedFor.later {s t : St} {r : ℕ} {call : Check} (h : AskedFor s r call)
    (htask : ∀ task, s.chat.requests r = some task → ∃ task', t.chat.requests r = some task' ∧ SameRequest task task')
    (hkeep : ∀ c sid, HasChannel s.servers.db.toTables c sid → HasChannel t.servers.db.toTables c sid) :
    AskedFor t r call := by
  obtain ⟨task, e, hr, he, hasks⟩ := h
  obtain ⟨task', hr', huser, hq⟩ := htask task hr
  refine ⟨task', e, hr', hq ▸ he, ?_⟩
  intro k p hkp
  obtain ⟨hk, hp, hchannel⟩ := hasks k p hkp
  exact ⟨huser ▸ hk, hp, hq ▸ hkeep _ _ hchannel⟩

theorem same_task {s : St} {r : ℕ} (task : Task) (h : s.chat.requests r = some task) :
    ∃ task', s.chat.requests r = some task' ∧ SameRequest task task' := ⟨task, h, rfl, rfl⟩

theorem Inv.withServers {s : St} (h : Inv s) {servers : Svc} (hdrawn : servers.db.drawn ≤ 2 ^ 128)
    (hkeep : ∀ c sid, HasChannel s.servers.db.toTables c sid → HasChannel servers.db.toTables c sid) :
    Inv { s with servers } where
  vetted := h.vetted
  drawn := hdrawn
  cached := fun c sid hc => hkeep c sid (h.cached c sid hc)
  resolved := by
    intro r x sid hr hx
    obtain ⟨task, htask, hchannel⟩ := h.resolved r x sid hr hx
    exact ⟨task, htask, hkeep _ _ hchannel⟩
  asked := fun r call hcall => (h.asked r call hcall).later same_task hkeep

theorem Inv.sameDb {s : St} (h : Inv s) {servers : Svc} (hdb : servers.db = s.servers.db) : Inv { s with servers } :=
  h.withServers (hdb ▸ h.drawn) fun _ _ hc => hdb ▸ hc

theorem Inv.withChat {s : St} (h : Inv s) (o : Requests.Op) : Inv { s with chat := Requests.step cfg s.chat o } where
  vetted := Requests.vetted_step cfg s.chat o h.vetted
  drawn := h.drawn
  cached := h.cached
  resolved := by
    intro r x sid hr hx
    obtain ⟨task, htask, hchannel⟩ := h.resolved r x sid hr hx
    obtain ⟨task', htask', -, hq⟩ := @task_stays cfg _ o _ _ htask
    exact ⟨task', htask', hq ▸ hchannel⟩
  asked := fun r call hcall => (h.asked r call hcall).later (fun _ => task_stays o) fun _ _ hc => hc

theorem Inv.withResolution {s : St} (h : Inv s) {r : ℕ} {task : Task} (htask : s.chat.requests r = some task)
    {x : Resolution} (hx : ∀ sid, x.found = some sid → HasChannel s.servers.db.toTables task.request.channelId sid) :
    Inv (s.withResolution r x) where
  vetted := h.vetted
  drawn := h.drawn
  cached := h.cached
  resolved := by
    intro r' x' sid hr' hx'
    rcases eq_or_ne r' r with rfl | hne
    · obtain rfl : x = x' := Option.some.inj ((update_self r' _ _).symm.trans hr')
      exact ⟨task, htask, hx sid hx'⟩
    · exact h.resolved r' x' sid ((update_of_ne hne _ _).symm.trans hr') hx'
  asked := h.asked

theorem Inv.remember {s : St} (h : Inv s) {c : Uuid} {found : Option Uuid}
    (hfound : ∀ sid, found = some sid → HasChannel s.servers.db.toTables c sid) :
    Inv { s with channelServerCache := remember s.channelServerCache c found } where
  vetted := h.vetted
  drawn := h.drawn
  cached := by
    intro c' sid hc'
    cases found with
    | none => exact h.cached c' sid hc'
    | some sid' =>
      rcases eq_or_ne c' c with rfl | hne
      · obtain rfl : sid' = sid := Option.some.inj ((update_self c' _ _).symm.trans hc')
        exact hfound sid' rfl
      · exact h.cached c' sid ((update_of_ne hne _ _).symm.trans hc')
  resolved := h.resolved
  asked := h.asked

theorem Inv.withCall {s : St} (h : Inv s) {c : Caller} {call : Check} {servers : Svc}
    (hdb : servers.db = s.servers.db) (hasked : ∀ r, c = .request r → AskedFor s r call) :
    Inv (s.withCall c call servers) := by
  have hservers := h.sameDb hdb
  refine ⟨hservers.vetted, hservers.drawn, hservers.cached, hservers.resolved, ?_⟩
  intro r call' hcall
  rcases eq_or_ne (.request r) c with rfl | hne
  · obtain rfl : call = call' := Option.some.inj ((update_self (Caller.request r) _ _).symm.trans hcall)
    exact (hasked r rfl).later same_task fun _ _ hc => hdb ▸ hc
  · exact (h.asked r call' ((update_of_ne hne _ _).symm.trans hcall)).later same_task fun _ _ hc => hdb ▸ hc

theorem channelId_lt {q : Requests.Request} (h : q.Uuids) : q.channelId < 2 ^ 128 := by
  cases q with
  | create | upload => exact h
  | list | delete => exact h.1

/-- what a request to CheckPerm reads as -/
theorem start_named {db : Servers.Db} (hdrawn : db.drawn ≤ 2 ^ 128) {u c : Uuid} (hc : c < 2 ^ 128)
    {found : Option Uuid} (hfound : ∀ sid, found = some sid → HasChannel db.toTables c sid) {e : Endpoint}
    {k : Uuid × String} {p : Permission} (h : (Check.start db (checkRequest u c found e)).asks = some (k, p)) :
    k.2 = Servers.Uuid.toString u ∧ p = e.permission ∧ HasChannel db.toTables c k.1 := by
  unfold Check.start at h
  split at h
  · next sid u' p' hread =>
    obtain ⟨hk, rfl⟩ := Prod.mk.inj (Option.some.inj h)
    obtain rfl := hk
    obtain ⟨c', ⟨hc', hp, hs⟩, hu⟩ := Servers.readRequest_ok.1 hread
    refine ⟨hu, Except.ok.inj (hp.symm.trans (ServerCache.valueOf_action e)), ?_⟩
    obtain rfl : c' = c := Except.ok.inj (hc'.symm.trans (Servers.fromString_toString hc))
    cases found with
    | some sid' =>
      -- the server is named, and its text reads as its id
      obtain ⟨x, hx, hid, rfl⟩ := hfound sid' rfl
      have hs' : Servers.Uuid.fromString (Servers.Uuid.toString x.serverId) = .ok sid :=
        (Servers.resolveServer_named (Servers.toString_not_blank x.serverId)).symm.trans hs
      rw [Servers.fromString_toString (ServerCache.server_drawn hdrawn hx)] at hs'
      exact ⟨x, hx, hid, Except.ok.inj hs'⟩
    | none =>
      obtain ⟨x, hx, hid, -, hsid⟩ := (Servers.resolveServer_blank rfl).1 hs
      exact ⟨x, hx, hid, hsid⟩
  · cases h

theorem found_of_outcome {x : Resolution} {delivered : Bool} {found : Option Uuid} {sid : Uuid}
    (h : x.outcome delivered = some found) (hsid : found = some sid) : x.found = some sid := by
  subst hsid
  cases x <;> cases delivered <;> first | exact Option.some.inj h | cases h

theorem elapse_db (s : Svc) (nanos : ℕ) : (s.step (.elapse nanos)).db = s.db := rfl

theorem elapse_roleLookup (s : Svc) (nanos : ℕ) : (s.step (.elapse nanos)).roleLookup = s.roleLookup := rfl

theorem step_inv {s : St} (h : Inv s) (o : Op) : Inv (step cfg s o) := by
  cases o with
  | servers q =>
    simp only [step]
    split_ifs with hdrawn
    · exact h.withServers hdrawn fun c sid hc => ServerCache.step_hasChannel q hc
    · exact h
  | evict sid u => exact h.sameDb rfl
  | lookUp r =>
    simp only [step]
    split
    · next task htask =>
      split_ifs
      · refine h.withResolution htask fun sid hsid => ?_
        split at hsid
        · next sid' hcached =>
          obtain rfl := Option.some.inj hsid
          exact h.cached _ _ hcached
        · cases hsid
      · exact h
    · exact h
  | getChannel r =>
    simp only [step]
    split
    · next task htask hasked =>
      refine h.withResolution htask fun sid hsid => ?_
      obtain ⟨x, hx, rfl⟩ := Option.map_eq_some_iff.1 hsid
      obtain ⟨hmem, hid, -⟩ := Servers.Tables.findChannel_some hx
      exact ⟨x, hmem, hid, rfl⟩
    · exact h
  | resolve r delivered =>
    simp only [step]
    split
    · next task found htask hfound =>
      obtain ⟨x, hx, hout⟩ := Option.bind_eq_some_iff.1 hfound
      have hchannel : ∀ sid, found = some sid → HasChannel s.servers.db.toTables task.request.channelId sid := by
        intro sid hsid
        obtain ⟨task', htask', hchannel⟩ := h.resolved r x sid hx (found_of_outcome hout hsid)
        obtain rfl := Option.some.inj (htask.symm.trans htask')
        exact hchannel
      exact (h.withResolution htask (x := .resolved found) hchannel).remember hchannel
    · exact h
  | ask r =>
    simp only [step]
    split
    · next task found htask hresolved =>
      split
      · next e he =>
        split_ifs
        · have hchannel : ∀ sid, found = some sid → HasChannel s.servers.db.toTables task.request.channelId sid := by
            intro sid hsid
            obtain ⟨task', htask', hchannel⟩ := h.resolved r _ sid hresolved hsid
            obtain rfl := Option.some.inj (htask.symm.trans htask')
            exact hchannel
          refine h.withCall rfl ?_
          rintro r' ⟨⟩
          exact ⟨task, e, htask, he, fun k p hkp =>
            start_named h.drawn (channelId_lt (h.vetted.uuids r task htask)) hchannel hkp⟩
        · exact h
      · exact h
    · exact h
  | otherCheck n request =>
    simp only [step]
    split
    · exact h
    · exact h.withCall rfl fun r hr => by cases hr
  | proceed c =>
    simp only [step]
    split
    · next call hcall =>
      refine h.withCall (Check.next_db _ _) ?_
      rintro r rfl
      obtain ⟨task, e, htask, he, hasks⟩ := h.asked r call hcall
      exact ⟨task, e, htask, he, fun k p hkp => hasks k p (Check.next_asks hkp)⟩
    · exact h
  | reply r delivered =>
    simp only [step]
    split
    · exact h.withChat _
    · exact h
  | chat o =>
    simp only [step]
    split_ifs
    · exact h.withChat o
    · exact h
  | elapse millis =>
    have hservers := h.sameDb (elapse_db s.servers (millis * 10 ^ 6))
    exact hservers.withChat (.tick millis)

theorem inv_reached (cfg : Config) (ops : List Op) : Inv (reached cfg ops) :=
  run_inv' (I := Inv) (fun _ o h => step_inv h o) inv_init ops

/-! ## What a step does -/

/-- what a step does, apart from the conditions for it -/
inductive Effect (cfg : Config) (s : St) : Op → St → Prop where
  | refused (o : Op) : Effect cfg s o s
  | servers (q : Servers.Request) : Effect cfg s (.servers q) { s with servers := s.servers.step (.request q) }
  | evict (sid : Uuid) (u : String) : Effect cfg s (.evict sid u) { s with servers := s.servers.step (.evict sid u) }
  | resolution {o : Op} (channelServerCache : ServerCache.Cache) (resolutions : ℕ → Option Resolution) :
      Effect cfg s o { s with channelServerCache, resolutions }
  | call {o : Op} (c : Caller) (request : Servers.CheckPermRequest) :
      Effect cfg s o (s.withCall c (Check.start s.servers.db request) s.servers)
  | proceed {c : Caller} {call : Check} (hcall : s.calls c = some call) :
      Effect cfg s (.proceed c) (s.withCall c (call.next s.servers).1 (call.next s.servers).2)
  | chat {o : Op} {o' : Requests.Op}
      (hallowed : ∀ r, o' = .check r (some true) → s.calls (.request r) = some (.answered true)) :
      Effect cfg s o { s with chat := Requests.step cfg s.chat o' }
  | elapse (millis : ℕ) : Effect cfg s (.elapse millis)
      { s with
        servers := s.servers.step (.elapse (millis * 10 ^ 6))
        chat := Requests.step cfg s.chat (.tick millis) }

theorem outcome_allowed {call : Check} {delivered : Bool} (h : outcome call delivered = some (some true)) :
    call = .answered true := by
  unfold outcome at h
  split_ifs at h
  · cases call with
    | answered allowed => exact congrArg Check.answered (Option.some.inj (Option.some.inj h))
    | _ => cases h
  · cases h

theorem step_effect (cfg : Config) (s : St) (o : Op) : Effect cfg s o (step cfg s o) := by
  cases o with
  | servers q =>
    simp only [step]
    split_ifs
    · exact .servers q
    · exact .refused _
  | evict sid u => exact .evict sid u
  | lookUp r =>
    simp only [step]
    split
    · split_ifs
      · exact .resolution _ _
      · exact .refused _
    · exact .refused _
  | getChannel r =>
    simp only [step]
    split
    · exact .resolution _ _
    · exact .refused _
  | resolve r delivered =>
    simp only [step]
    split
    · exact .resolution _ _
    · exact .refused _
  | ask r =>
    simp only [step]
    split
    · split
      · split_ifs
        · exact .call _ _
        · exact .refused _
      · exact .refused _
    · exact .refused _
  | otherCheck n request =>
    simp only [step]
    split
    · exact .refused _
    · exact .call _ request
  | proceed c =>
    simp only [step]
    split
    · next call hcall => exact .proceed hcall
    · exact .refused _
  | reply r delivered =>
    simp only [step]
    split
    · next reply hreply =>
      refine .chat ?_
      rintro r' ⟨⟩
      obtain ⟨call, hcall, hout⟩ := Option.bind_eq_some_iff.1 hreply
      rw [hcall, outcome_allowed hout]
    · exact .refused _
  | chat o =>
    simp only [step]
    split_ifs with hown
    · refine .chat ?_
      rintro r rfl
      cases hown
    · exact .refused _
  | elapse millis => exact .elapse millis

/-- a CheckPerm call is as it was, comes in, or takes its next step -/
theorem calls_cases {s : St} {o : Op} {c : Caller} {call : Check} (h : (step cfg s o).calls c = some call) :
    s.calls c = some call ∨ (∃ request, call = Check.start s.servers.db request) ∨
      ∃ old, o = .proceed c ∧ s.calls c = some old ∧ call = (old.next s.servers).1 := by
  have he := step_effect cfg s o
  generalize step cfg s o = t at he h
  cases he with
  | call c' request =>
    rcases eq_or_ne c c' with rfl | hne
    · exact .inr (.inl ⟨request, (Option.some.inj ((update_self c _ _).symm.trans h)).symm⟩)
    · exact .inl ((update_of_ne hne _ _).symm.trans h)
  | @proceed c' old hold =>
    rcases eq_or_ne c c' with rfl | hne
    · exact .inr (.inr ⟨old, rfl, hold, (Option.some.inj ((update_self c _ _).symm.trans h)).symm⟩)
    · exact .inl ((update_of_ne hne _ _).symm.trans h)
  | _ => exact .inl h

/-- `roleLookup` is as it was, loses an entry, or gets one that a CheckPerm call puts in -/
theorem roleLookup_cases (cfg : Config) (s : St) (o : Op) :
    (step cfg s o).servers.roleLookup = s.servers.roleLookup ∨
      (∃ k, (step cfg s o).servers.roleLookup = ExpiringCache.evict s.servers.roleLookup k) ∨
      ∃ c k p v, o = .proceed c ∧ s.calls c = some (.read k p v) ∧
        (step cfg s o).servers.roleLookup = ExpiringCache.put s.servers.now s.servers.roleLookup k v := by
  have he := step_effect cfg s o
  generalize step cfg s o = t at he ⊢
  cases he with
  | evict sid u => exact .inr (.inl ⟨(sid, u), rfl⟩)
  | @proceed c call hcall =>
    rcases Check.next_roleLookup s.servers call with hsame | ⟨k, p, v, rfl, hput⟩
    · exact .inl hsame
    · exact .inr (.inr ⟨c, k, p, v, rfl, hcall, hput⟩)
  | elapse millis => exact .inl (elapse_roleLookup s.servers (millis * 10 ^ 6))
  | _ => exact .inl rfl

/-- chat goes on as it does against any answers of CheckPerm, but `allowed` comes from the servers service -/
theorem chat_step (cfg : Config) (s : St) (o : Op) : (step cfg s o).chat = s.chat ∨
    ∃ o', (step cfg s o).chat = Requests.step cfg s.chat o' ∧
      ∀ r, o' = .check r (some true) → s.calls (.request r) = some (.answered true) := by
  have he := step_effect cfg s o
  generalize step cfg s o = t at he ⊢
  cases he with
  | chat hallowed => exact .inr ⟨_, rfl, hallowed⟩
  | elapse millis => exact .inr ⟨.tick millis, rfl, fun r hr => by cases hr⟩
  | _ => exact .inl rfl

theorem log_grows (s : St) (o : Op) : s.chat.log <+: (step cfg s o).chat.log := by
  rcases chat_step cfg s o with h | ⟨o', h, -⟩
  · rw [h]
  · rw [h]
    exact Requests.log_step cfg s.chat o'

/-- a request stays, whatever comes -/
theorem task_later {a ops : List Op} (hle : a <+: ops) {r : ℕ} {task : Task}
    (h : (reached cfg a).chat.requests r = some task) :
    ∃ task', (reached cfg ops).chat.requests r = some task' ∧ SameRequest task task' := by
  obtain ⟨later, rfl⟩ := hle
  rw [reached, run_append]
  refine run_inv' (I := fun s : St => ∃ task', s.chat.requests r = some task' ∧ SameRequest task task') ?_
    ⟨task, h, rfl, rfl⟩ later
  rintro s o ⟨task₁, h₁, hsame⟩
  rcases chat_step cfg s o with heq | ⟨o', heq, -⟩
  · rw [heq]
    exact ⟨task₁, h₁, hsame⟩
  · rw [heq]
    obtain ⟨task₂, h₂, hsame'⟩ := @task_stays cfg _ o' _ _ h₁
    exact ⟨task₂, h₂, hsame'.1.trans hsame.1, hsame'.2.trans hsame.2⟩

/-! ## What a run has established -/

/-- the entry was put into `roleLookup` at that time -/
def Held (cfg : Config) (ops : List Op) (k : Uuid × String) (v : Finset Permission) (time : ℕ) : Prop :=
  ∃ w, Puts cfg ops w k v ∧ (reached cfg w).servers.now = time

/-- the call has found the membership -/
def FoundMember (cfg : Config) (ops : List Op) (c : Caller) (k : Uuid × String) (p : Permission) : Prop :=
  ∃ a, a <+: ops ∧ (reached cfg a).calls c = some (.named k p) ∧ Svc.Member (reached cfg a).servers.db k

theorem FoundMember.append {ops : List Op} {c : Caller} {k : Uuid × String} {p : Permission}
    (h : FoundMember cfg ops c k p) (later : List Op) : FoundMember cfg (ops ++ later) c k p := by
  obtain ⟨a, ha, hrest⟩ := h
  exact ⟨a, ha.trans (List.prefix_append ops later), hrest⟩

theorem Rightful.snoc {ops : List Op} {en : Entry} (h : Rightful cfg ops en) (o : Op) : Rightful cfg (ops ++ [o]) en := by
  unfold Rightful at h ⊢
  split at h
  · exact h.append [o]
  · rcases h with ⟨e', he', hevent⟩ | h
    · refine .inl ⟨e', ?_, hevent⟩
      rw [reached_snoc]
      exact (log_grows (reached cfg ops) o).subset he'
    · exact .inr (h.append [o])
  · exact fun m hm => (h m hm).append [o]
  · trivial

structure Hist (cfg : Config) (ops : List Op) : Prop where
  permissions : ExpiringCache.Recorded (Held cfg ops) (reached cfg ops).servers.roleLookup
  members : ∀ c call k p, (reached cfg ops).calls c = some call → call.asks = some (k, p) →
    call = .named k p ∨ FoundMember cfg ops c k p
  reads : ∀ c k p v, (reached cfg ops).calls c = some (.read k p v) → WasRead cfg ops k v
  allowed : ∀ r task e, (reached cfg ops).chat.requests r = some task →
    (reached cfg ops).calls (.request r) = some (.answered true) → endpoint task.request = some e →
    Entitled cfg ops r task.userId task.request.channelId e.permission
  checked : ∀ en ∈ (reached cfg ops).chat.log, ∀ u c (e : Endpoint),
    en.event = .checked u c e.action (some true) → Entitled cfg ops en.request u c e.permission
  rightful : ∀ en ∈ (reached cfg ops).chat.log, Rightful cfg ops en

theorem hist_init : Hist cfg [] where
  permissions := ExpiringCache.recorded_empty _
  members := fun c call k p hc => by cases hc
  reads := fun c k p v hc => by cases hc
  allowed := fun r task e hr => by cases hr
  checked := fun en hen => by cases hen
  rightful := fun en hen => by cases hen

namespace Hist

variable {ops : List Op} (hs : Hist cfg ops)
include hs

theorem permissions_step (o : Op) :
    ExpiringCache.Recorded (Held cfg (ops ++ [o])) (reached cfg (ops ++ [o])).servers.roleLookup := by
  have hbefore : ExpiringCache.Recorded (Held cfg (ops ++ [o])) (reached cfg ops).servers.roleLookup :=
    hs.permissions.mono fun k v time ⟨w, hw, hnow⟩ => ⟨w, hw.append [o], hnow⟩
  rw [reached_snoc]
  rcases roleLookup_cases cfg (reached cfg ops) o with h | ⟨k, h⟩ | ⟨c, k, p, v, rfl, hcall, h⟩
  · rw [h]
    exact hbefore
  · rw [h]
    exact hbefore.evict k
  · rw [h]
    exact hbefore.put ⟨ops, ⟨c, p, List.prefix_rfl, hcall, hs.reads c k p v hcall⟩, rfl⟩

theorem members_step (o : Op) (c : Caller) (call : Check) (k : Uuid × String) (p : Permission)
    (h : (reached cfg (ops ++ [o])).calls c = some call) (hasks : call.asks = some (k, p)) :
    call = .named k p ∨ FoundMember cfg (ops ++ [o]) c k p := by
  rw [reached_snoc] at h
  rcases calls_cases h with hold | ⟨request, rfl⟩ | ⟨old, -, hold, rfl⟩
  · exact (hs.members c call k p hold hasks).imp_right fun hfound => hfound.append [o]
  · rcases Check.start_cases (reached cfg ops).servers.db request with ⟨k', p', hstart⟩ | hstart
    · rw [hstart] at hasks ⊢
      obtain ⟨rfl, rfl⟩ := Prod.mk.inj (Option.some.inj hasks)
      exact .inl rfl
    · rw [hstart] at hasks
      cases hasks
  · refine .inr ?_
    rcases hs.members c old k p hold (Check.next_asks hasks) with rfl | hfound
    · exact ⟨ops, List.prefix_append ops [o], hold, Check.next_named hasks⟩
    · exact hfound.append [o]

theorem reads_step (o : Op) (c : Caller) (k : Uuid × String) (p : Permission) (v : Finset Permission)
    (h : (reached cfg (ops ++ [o])).calls c = some (.read k p v)) : WasRead cfg (ops ++ [o]) k v := by
  rw [reached_snoc] at h
  rcases calls_cases h with hold | ⟨request, hstart⟩ | ⟨old, -, hold, hnext⟩
  · exact (hs.reads c k p v hold).append [o]
  · rcases Check.start_cases (reached cfg ops).servers.db request with ⟨k', p', heq⟩ | heq
    · rw [heq] at hstart
      cases hstart
    · rw [heq] at hstart
      cases hstart
  · obtain ⟨rfl, heff⟩ := Check.next_read hnext.symm
    rcases hs.members c _ k p hold rfl with hnamed | ⟨a, ha, -, hmember⟩
    · cases hnamed
    · exact ⟨a, ops, ha, List.prefix_append ops [o], hmember, heff⟩

/-- **The answer.** A CheckPerm call that has just allowed a request has done so for a user who is entitled to it. -/
theorem proceed_entitled {r : ℕ} {old : Check} {k : Uuid × String} {p : Permission} {v : Finset Permission} {task : Task}
    {e : Endpoint} (hold : (reached cfg ops).calls (.request r) = some old) (hp : p ∈ v)
    (hcase : (old = .member k p ∧ (reached cfg ops).servers.cached k.1 k.2 = some v) ∨ old = .read k p v)
    (htask : (reached cfg ops).chat.requests r = some task) (he : endpoint task.request = some e) :
    Entitled cfg (ops ++ [.proceed (.request r)]) r task.userId task.request.channelId e.permission := by
  have hasks : old.asks = some (k, p) ∧ old ≠ .named k p := by
    rcases hcase with ⟨rfl, -⟩ | rfl <;> exact ⟨rfl, fun h => by cases h⟩
  obtain ⟨a, ha, hnamed, hmember⟩ := (hs.members _ _ _ _ hold hasks.1).resolve_left hasks.2
  -- what the call asks for is what the request needs
  obtain ⟨task₀, e₀, htask₀, he₀, hasked⟩ := (inv_reached cfg a).asked r _ hnamed
  obtain ⟨hk, rfl, hchannel⟩ := hasked k p rfl
  obtain ⟨task', htask', huser, hq⟩ := task_later ha htask₀
  obtain rfl := Option.some.inj (htask.symm.trans htask')
  obtain rfl := Option.some.inj (he₀.symm.trans (hq ▸ he))
  obtain ⟨sid, u⟩ := k
  obtain rfl : u = Servers.Uuid.toString task.userId := hk.trans (by rw [huser])
  rw [← hq] at hchannel
  rcases hcase with ⟨rfl, hcached⟩ | rfl
  · obtain ⟨time, hlive, w, hputs, rfl⟩ := hs.permissions.lookup hcached
    exact ⟨a, ops, w, v, sid, hchannel, hnamed, hmember, List.prefix_rfl, .inl hcached, hputs.append _, hp,
      ⟨ha, hputs.isPrefix⟩, hlive⟩
  · have hputs : Puts cfg (ops ++ [.proceed (.request r)]) ops (sid, Servers.Uuid.toString task.userId) v :=
      ⟨.request r, _, List.prefix_rfl, hold, hs.reads _ _ _ _ hold⟩
    exact ⟨a, ops, ops, v, sid, hchannel, hnamed, hmember, List.prefix_rfl, .inr hold, hputs, hp,
      ⟨ha, List.prefix_rfl⟩, Nat.lt_add_of_pos_right (by decide)⟩

theorem allowed_step (o : Op) (r : ℕ) (task : Task) (e : Endpoint)
    (htask : (reached cfg (ops ++ [o])).chat.requests r = some task)
    (h : (reached cfg (ops ++ [o])).calls (.request r) = some (.answered true))
    (he : endpoint task.request = some e) :
    Entitled cfg (ops ++ [o]) r task.userId task.request.channelId e.permission := by
  -- the request was there before its call
  have hbefore : ∀ call, (reached cfg ops).calls (.request r) = some call →
      ∃ old, (reached cfg ops).chat.requests r = some old ∧ SameRequest old task := by
    intro call hcall
    obtain ⟨old, -, hold, -⟩ := (inv_reached cfg ops).asked r call hcall
    obtain ⟨task', htask', hsame⟩ := task_later (List.prefix_append ops [o]) hold
    obtain rfl := Option.some.inj (htask.symm.trans htask')
    exact ⟨old, hold, hsame⟩
  rw [reached_snoc] at h
  rcases calls_cases h with hold | ⟨request, hstart⟩ | ⟨old, rfl, hold, hnext⟩
  · obtain ⟨task₀, htask₀, huser, hq⟩ := hbefore _ hold
    rw [huser, hq]
    exact (hs.allowed r task₀ e htask₀ hold (hq ▸ he)).append [o]
  · rcases Check.start_cases (reached cfg ops).servers.db request with ⟨k, p, heq⟩ | heq
    · rw [heq] at hstart
      cases hstart
    · rw [heq] at hstart
      cases hstart
  · obtain ⟨task₀, htask₀, huser, hq⟩ := hbefore _ hold
    rw [huser, hq]
    rcases Check.next_allowed hnext.symm with rfl | ⟨k, p, v, hp, hcase⟩
    · exact (hs.allowed r task₀ e htask₀ hold (hq ▸ he)).append _
    · exact hs.proceed_entitled hold hp hcase htask₀ (hq ▸ he)

theorem entitled {r : ℕ} {u c : Uuid} (e : Endpoint)
    (h : Requests.Allowed (reached cfg ops).chat.log r u c e.action) : Entitled cfg ops r u c e.permission := by
  obtain ⟨en, hen, rfl, hevent⟩ := h
  exact hs.checked en hen u c e hevent

/-- an entry that was allowed is rightful -/
theorem warranted {en : Entry} (h : Warranted (reached cfg ops).chat.log en.request en.event) : Rightful cfg ops en := by
  unfold Rightful
  cases hevent : en.event with
  | inserted u c m =>
    rw [hevent] at h
    exact hs.entitled .createMessage h
  | markedDeleted u c m =>
    rw [hevent] at h
    exact Or.imp_right (hs.entitled .deleteMessage) h
  | returned u q a =>
    rw [hevent] at h
    cases a with
    | page page => exact fun m hm => hs.entitled .listMessages (h m hm)
    | _ => trivial
  | checked | stored => trivial

theorem checked_step (o : Op) (en : Entry) (hen : en ∈ (reached cfg (ops ++ [o])).chat.log) (u c : Uuid) (e : Endpoint)
    (hevent : en.event = .checked u c e.action (some true)) : Entitled cfg (ops ++ [o]) en.request u c e.permission := by
  suffices hbefore : Entitled cfg ops en.request u c e.permission from hbefore.append [o]
  rw [reached_snoc] at hen
  rcases chat_step cfg (reached cfg ops) o with heq | ⟨o', heq, hallowed⟩
  · exact hs.checked en (heq ▸ hen) u c e hevent
  rw [heq] at hen
  rcases entry_new (inv_reached cfg ops).vetted hen with hen | ⟨task, action, next, reply, ho, htask, hchecks, hev⟩ | hw
  · exact hs.checked en hen u c e hevent
  · obtain ⟨rfl, rfl, rfl, rfl⟩ := Requests.Event.checked.inj (hevent.symm.trans hev)
    obtain ⟨e', he', haction⟩ := checks_endpoint hchecks
    obtain rfl := action_inj haction
    exact hs.allowed en.request task e' htask (hallowed en.request ho) he'
  · rw [hevent] at hw
    exact hw.elim

theorem rightful_step (o : Op) (en : Entry) (hen : en ∈ (reached cfg (ops ++ [o])).chat.log) :
    Rightful cfg (ops ++ [o]) en := by
  refine Rightful.snoc ?_ o
  rw [reached_snoc] at hen
  rcases chat_step cfg (reached cfg ops) o with heq | ⟨o', heq, -⟩
  · exact hs.rightful en (heq ▸ hen)
  rw [heq] at hen
  rcases entry_new (inv_reached cfg ops).vetted hen with hen | ⟨task, action, next, reply, -, -, -, hev⟩ | hw
  · exact hs.rightful en hen
  · rw [Rightful, hev]
    trivial
  · exact hs.warranted hw

theorem step (o : Op) : Hist cfg (ops ++ [o]) where
  permissions := hs.permissions_step o
  members := hs.members_step o
  reads := hs.reads_step o
  allowed := hs.allowed_step o
  checked := hs.checked_step o
  rightful := hs.rightful_step o

end Hist

theorem hist_reached (ops : List Op) : Hist cfg ops := by
  induction ops using List.reverseRecOn with
  | nil => exact hist_init
  | append_singleton ops o ih => exact ih.step o

/-- **Entitlement.** In every run of both services, whatever fails and however steps interleave: a message was inserted for
a user who was entitled to write to its channel, a page was returned to one who was entitled to read its messages' channel,
and a message was marked deleted for the user who inserted it or for one who was entitled to manage its channel. -/
theorem done_entitled (cfg : Config) (ops : List Op) :
    ∀ en ∈ (reached cfg ops).chat.log, Rightful cfg ops en := (hist_reached ops).rightful

/-- bob is made a manager of ana's server, and a CheckPerm call of another service reads his roles. It puts them into
`roleLookup` an hour later: by then bob has left and come back, and 59 seconds after it he deletes a message of ana's. -/
def returned : List Op :=
  let ana := Servers.Uuid.toString 7
  let bob := Servers.Uuid.toString 8
  [.servers (.createServer (some "guild") ana), .servers (.createChannel 0 (some "general") (some "TEXT") ana),
    .servers (.createRole 0 (some "mod") (some {.manage})), .servers (.joinServer 0 bob),
    .servers (.assignRole 0 bob 4 ana), .otherCheck 0 (checkRequest 8 3 (some 0) .deleteMessage),
    .proceed (.other 0), .proceed (.other 0), .proceed (.other 0),
    .chat (.arrive 0 7 (.create 3 ⟨"hello", []⟩)), .lookUp 0, .getChannel 0, .resolve 0 true, .ask 0,
    .proceed (.request 0), .proceed (.request 0), .proceed (.request 0), .proceed (.request 0), .reply 0 true,
    .chat (.insert 0 9 .done),
    .servers (.leaveServer 0 bob), .servers (.joinServer 0 bob), .elapse 3600000, .proceed (.other 0), .elapse 59000,
    .chat (.arrive 1 8 (.delete 3 9)), .chat (.look 1 .rows), .lookUp 1, .ask 1, .proceed (.request 1),
    .proceed (.request 1), .reply 1 true, .chat (.mark 1 .done)]

/-- bob has been no manager for an hour, and was entitled -/
theorem returned_rightful :
    (⟨1, 3659000, .markedDeleted 8 3 9⟩ : Entry) ∈ (reached ⟨true, 5, "", ""⟩ returned).chat.log ∧
      Permission.manage ∉ (reached ⟨true, 5, "", ""⟩ returned).servers.db.effective 0 (Servers.Uuid.toString 8) ∧
      Rightful ⟨true, 5, "", ""⟩ returned ⟨1, 3659000, .markedDeleted 8 3 9⟩ := by
  have hmarked : (⟨1, 3659000, .markedDeleted 8 3 9⟩ : Entry) ∈ (reached ⟨true, 5, "", ""⟩ returned).chat.log := by
    decide +kernel
  exact ⟨hmarked, by decide +kernel, done_entitled _ returned _ hmarked⟩

end Concordia.Chat.Entitlement
