/-
How long presence knows a connection that is open: the heartbeats of `runHeartbeats` (services/gateway/ws/handler.go)
against the 30 minutes of `sessionTTL` (services/presence/handler.go).

The ticker starts when the registration has been answered and fires every two minutes. A heartbeat is given up after five
seconds; it may be carried out later all the same, or never. Between any two steps the connection may register again for a
`channel.subscribe` or `channel.unsubscribe`, and presence may serve any request of other connections. Assumed of the
runtime: the ticker fires at its time, and a request ends with its timeout.

`missed` counts the heartbeats in a row that presence has not answered with 200.

- `step_inv`: the latest renewal is as old as the missed heartbeats say, up to five seconds at each end.
- `forgotten_for_good`: a connection that presence has forgotten stays so, whatever heartbeats reach it, until it registers
  again.
- `known_while_beating`: with no more than 13 heartbeats missed in a row, presence shows the connection under its user and
  under each of its channels; from the 17th on, under none.
-/
import Concordia.Presence.Index

namespace Concordia.Presence.Heartbeats

open Concordia.Lib

/-! ## Model -/

/-- 2 minutes -/
def heartbeatInterval : ℕ := 2 * 60 * 10 ^ 9

/-- the 5 seconds that a request to presence may take -/
def requestTimeout : ℕ := 5 * 10 ^ 9

/-- the handler of an open connection, and presence -/
structure Handler where
  presence : State
  /-- when the ticker fires next -/
  next : ℕ
  /-- when the heartbeat under way was sent -/
  sent : Option ℕ
  /-- the latest registration, with the last time it was made or renewed -/
  latest : Registration
  /-- heartbeats in a row that were not answered with 200 -/
  missed : ℕ

inductive Event where
  /-- time passes, but not beyond what is due -/
  | pass (d : ℕ)
  /-- the ticker fires and a heartbeat is sent -/
  | fire
  /-- presence carries out the heartbeat under way and answers it -/
  | answered
  /-- the heartbeat under way fails or is given up -/
  | failed
  /-- presence carries out a heartbeat that had been given up -/
  | late
  /-- `updateSubscription` registers the connection again -/
  | registered (channels : List String)
  /-- a request that is about other connections -/
  | other (o : Op)

variable (k : ConnId)

/-- when the handler has something to do next -/
def Handler.due (h : Handler) : ℕ := match h.sent with
  | some t => t + requestTimeout
  | none => h.next

/-- presence carries out a heartbeat of the connection -/
def beat (h : Handler) : Handler :=
  { h with
    presence := step h.presence (.heartbeat k)
    latest := if status h.presence (.heartbeat k) = 200 then { h.latest with renewedAt := h.presence.now } else h.latest
    missed := if status h.presence (.heartbeat k) = 200 then 0 else h.missed }

/-- the request is about this connection, or is no request -/
def concerns : Op → Bool
  | .register body => (accepted body).any (·.1 = k)
  | .deregister q => q = k
  | .heartbeat q => q = k
  | .tick _ => true

def advance (h : Handler) : Event → Handler
  | .pass d => { h with presence := step h.presence (.tick (min d (h.due - h.presence.now))) }
  | .fire =>
    if h.sent = none ∧ h.presence.now = h.next then
      { h with sent := some h.presence.now, next := h.presence.now + heartbeatInterval }
    else h
  | .answered => match h.sent with
    | some _ => { beat k { h with missed := h.missed + 1 } with sent := none }
    | none => h
  | .failed => match h.sent with
    | some _ => { h with sent := none, missed := h.missed + 1 }
    | none => h
  | .late => beat k h
  | .registered channels =>
    { h with
      presence := step h.presence (.register (some ⟨some k, h.latest.userId, channels⟩))
      latest := ⟨h.latest.userId, channels, h.presence.now⟩
      missed := 0 }
  | .other o => if concerns k o then h else { h with presence := step h.presence o }

/-- `ServeHTTP`: the session is registered without channels, and `d` later, but within the timeout, the ticker starts -/
def start (s : State) (userId : String) (d : ℕ) : Handler where
  presence := step (step s (.register (some ⟨some k, userId, []⟩))) (.tick (min d requestTimeout))
  next := s.now + min d requestTimeout + heartbeatInterval
  sent := none
  latest := ⟨userId, [], s.now⟩
  missed := 0

/-! ## The invariant -/

/-- when the heartbeat under way was sent, or the next one will be -/
def Handler.base (h : Handler) : ℕ := h.sent.getD h.next

structure Timing (h : Handler) : Prop where
  due : h.presence.now ≤ h.due
  soon : h.next ≤ h.presence.now + heartbeatInterval
  sent : ∀ t, h.sent = some t → t ≤ h.presence.now ∧ h.next = t + heartbeatInterval
  past : h.latest.renewedAt ≤ h.presence.now
  /-- not longer ago than the missed heartbeats say -/
  recent : h.base ≤ h.latest.renewedAt + requestTimeout + (h.missed + 1) * heartbeatInterval
  /-- and not less long -/
  old : h.latest.renewedAt + h.missed * heartbeatInterval ≤ h.base + requestTimeout

/-- presence is the registry that knows the connection by its latest registration -/
structure Inv (h : Handler) : Prop where
  known : ∃ g, Refines h.presence g ∧ g.latest k = some h.latest
  complete : Complete h.presence
  user : h.latest.userId ≠ ""
  timing : Timing h

/-! ## What presence knows -/

variable {k}

theorem now_step {s : State} {o : Op} (h : ∀ d, o ≠ .tick d) : (step s o).now = s.now := by
  cases o with
  | register body =>
    simp only [step]
    split <;> rfl
  | deregister q => rfl
  | heartbeat q => rfl
  | tick d => exact absurd rfl (h d)

theorem accepted_own {u : String} (channels : List String) (hu : u ≠ "") :
    accepted (some ⟨some k, u, channels⟩) = some (k, u, channels) := if_neg hu

/-- a heartbeat is answered with 200 as long as the latest renewal is not 30 minutes ago, and renews the registration -/
theorem known_beat {s : State} {g : Registry} {x : Registration} (hg : Refines s g) (hx : g.latest k = some x) :
    (status s (.heartbeat k) = 200 ↔ s.now < x.renewedAt + sessionTtl) ∧
      (g.step (.heartbeat k)).latest k =
        some (if status s (.heartbeat k) = 200 then { x with renewedAt := s.now } else x) := by
  have hstatus : status s (.heartbeat k) = 200 ↔ s.now < x.renewedAt + sessionTtl := by
    rw [status, hg.live k, Option.isSome_map, Registry.live, hx, Option.filter_some, hg.now]
    split_ifs with hlive hlive <;> simp_all
  refine ⟨hstatus, ?_⟩
  by_cases hlt : s.now < x.renewedAt + sessionTtl
  · have hlive : g.live k = some x := Registry.live_eq_some.2 ⟨hx, hg.now ▸ hlt⟩
    rw [if_pos (hstatus.2 hlt), Registry.step, hlive, hg.now]
    exact Function.update_self _ _ _
  · have hlive : g.live k = none := by
      rw [Registry.live, hx, Option.filter_some, if_neg]
      rw [← hg.now]
      simpa using hlt
    rw [if_neg (mt hstatus.1 hlt), Registry.step, hlive]
    exact hx

/-- a request about other connections leaves the registration alone -/
theorem known_other {g : Registry} {o : Op} (ho : concerns k o = false) : (g.step o).latest k = g.latest k := by
  cases o with
  | register body =>
    cases hb : accepted body with
    | none => simp [Registry.step, hb]
    | some p =>
      obtain ⟨q, u, channels⟩ := p
      have hq : k ≠ q := by
        rintro rfl
        simp [concerns, hb] at ho
      simp [Registry.step, hb, hq]
  | deregister q =>
    have hq : k ≠ q := by
      rintro rfl
      simp [concerns] at ho
    simp [Registry.step, hq]
  | heartbeat q =>
    have hq : k ≠ q := by
      rintro rfl
      simp [concerns] at ho
    simp only [Registry.step]
    split <;> simp [hq]
  | tick d => simp [concerns] at ho

/-! ## The invariant is kept -/

/-- only the clock, the ticker and the renewal matter -/
theorem Timing.congr {h h' : Handler} (t : Timing h) (hnow : h'.presence.now = h.presence.now) (hnext : h'.next = h.next)
    (hsent : h'.sent = h.sent) (hat : h'.latest.renewedAt = h.latest.renewedAt) (hmissed : h'.missed = h.missed) :
    Timing h' := by
  obtain ⟨hdue, hsoon, ht, hpast, hrecent, hold⟩ := t
  simp only [Handler.due, Handler.base] at hdue hrecent hold
  exact ⟨by simpa only [Handler.due, hnow, hsent, hnext] using hdue, by rw [hnow, hnext]; exact hsoon,
    by rw [hnow, hsent, hnext]; exact ht, by rw [hnow, hat]; exact hpast,
    by simpa only [Handler.base, hsent, hnext, hat, hmissed] using hrecent,
    by simpa only [Handler.base, hsent, hnext, hat, hmissed] using hold⟩

/-- the registration is made or renewed now -/
theorem Timing.renew {h h' : Handler} (t : Timing h) (hnow : h'.presence.now = h.presence.now) (hnext : h'.next = h.next)
    (hsent : h'.sent = h.sent) (hat : h'.latest.renewedAt = h.presence.now) (hmissed : h'.missed = 0) : Timing h' := by
  obtain ⟨hdue, hsoon, ht, hpast, hrecent, hold⟩ := t
  refine ⟨?_, ?_, ?_, ?_, ?_, ?_⟩
  · simpa only [Handler.due, hnow, hsent, hnext] using hdue
  · rw [hnow, hnext]
    exact hsoon
  · rw [hnow, hsent, hnext]
    exact ht
  · rw [hnow, hat]
  · rw [Handler.base, hsent, hnext, hat, hmissed]
    cases hs : h.sent with
    | none =>
      rw [Option.getD_none]
      omega
    | some t' =>
      have hle := (ht t' hs).1
      rw [Option.getD_some]
      omega
  · rw [Handler.base, hsent, hnext, hat, hmissed]
    cases hs : h.sent with
    | none =>
      rw [Handler.due, hs] at hdue
      rw [Option.getD_none]
      dsimp only at hdue
      omega
    | some t' =>
      rw [Handler.due, hs] at hdue
      rw [Option.getD_some]
      dsimp only at hdue
      omega

/-- the heartbeat under way is over without an answer of 200 -/
theorem Timing.miss {h h' : Handler} (t : Timing h) {t' : ℕ} (hs : h.sent = some t')
    (hnow : h'.presence.now = h.presence.now) (hnext : h'.next = h.next) (hsent : h'.sent = none)
    (hat : h'.latest.renewedAt = h.latest.renewedAt) (hmissed : h'.missed = h.missed + 1) : Timing h' := by
  obtain ⟨hdue, hsoon, ht, hpast, hrecent, hold⟩ := t
  obtain ⟨hle, hnexteq⟩ := ht t' hs
  have htimeout : requestTimeout ≤ heartbeatInterval := by decide
  simp only [Handler.due, hs] at hdue
  simp only [Handler.base, hs, Option.getD_some] at hrecent hold
  refine ⟨?_, ?_, ?_, ?_, ?_, ?_⟩
  · simp only [Handler.due, hnow, hsent, hnext]
    omega
  · rw [hnow, hnext]
    exact hsoon
  · rw [hsent]
    intro t h
    cases h
  · rw [hnow, hat]
    exact hpast
  · rw [Handler.base, hsent, hnext, hat, hmissed, Option.getD_none, hnexteq, Nat.succ_mul (h.missed + 1)]
    omega
  · rw [Handler.base, hsent, hnext, hat, hmissed, Option.getD_none, hnexteq, Nat.succ_mul]
    omega

/-- the heartbeat under way is over with an answer of 200 -/
theorem Timing.answer {h h' : Handler} (t : Timing h) {t' : ℕ} (hs : h.sent = some t')
    (hnow : h'.presence.now = h.presence.now) (hnext : h'.next = h.next) (hsent : h'.sent = none)
    (hat : h'.latest.renewedAt = h.presence.now) (hmissed : h'.missed = 0) : Timing h' := by
  obtain ⟨hdue, hsoon, ht, hpast, hrecent, hold⟩ := t
  obtain ⟨hle, hnexteq⟩ := ht t' hs
  have htimeout : requestTimeout ≤ heartbeatInterval := by decide
  simp only [Handler.due, hs] at hdue
  refine ⟨?_, ?_, ?_, ?_, ?_, ?_⟩
  · simp only [Handler.due, hnow, hsent, hnext]
    omega
  · rw [hnow, hnext]
    exact hsoon
  · rw [hsent]
    intro t h
    cases h
  · rw [hnow, hat]
  · rw [Handler.base, hsent, hnext, hat, hmissed, Option.getD_none, hnexteq]
    omega
  · rw [Handler.base, hsent, hnext, hat, hmissed, Option.getD_none, hnexteq]
    omega

theorem Timing.fire {h : Handler} (t : Timing h) (hs : h.sent = none) (hnow : h.presence.now = h.next) :
    Timing { h with sent := some h.presence.now, next := h.presence.now + heartbeatInterval } := by
  obtain ⟨hdue, hsoon, ht, hpast, hrecent, hold⟩ := t
  simp only [Handler.base, hs, Option.getD_none] at hrecent hold
  refine ⟨?_, le_rfl, ?_, hpast, ?_, ?_⟩
  · simp only [Handler.due]
    omega
  · intro t' h'
    obtain rfl := Option.some.inj h'
    exact ⟨le_rfl, rfl⟩
  · simp only [Handler.base, Option.getD_some]
    omega
  · simp only [Handler.base, Option.getD_some]
    omega

theorem Timing.pass {h : Handler} (t : Timing h) (d : ℕ) :
    Timing { h with presence := step h.presence (.tick (min d (h.due - h.presence.now))) } := by
  obtain ⟨hdue, hsoon, ht, hpast, hrecent, hold⟩ := t
  refine ⟨?_, ?_, ?_, ?_, hrecent, hold⟩
  · simp only [step, Handler.due] at hdue ⊢
    omega
  · simp only [step]
    omega
  · intro t' h'
    simp only [step]
    exact ⟨Nat.le_add_right_of_le (ht t' h').1, (ht t' h').2⟩
  · simp only [step]
    omega

theorem Inv.beat {h : Handler} (i : Inv k h) (missed : ℕ) (sent : Option ℕ)
    (ht : ∀ h' : Handler, h'.presence.now = h.presence.now → h'.next = h.next → h'.sent = sent →
      (h'.latest.renewedAt = h.presence.now ∧ h'.missed = 0) ∨
        (h'.latest.renewedAt = h.latest.renewedAt ∧ h'.missed = missed) → Timing h') :
    Inv k { Heartbeats.beat k { h with missed := missed } with sent := sent } := by
  obtain ⟨⟨g, hg, hx⟩, hcomplete, huser, -⟩ := i
  obtain ⟨-, hlatest⟩ := known_beat hg hx
  refine ⟨⟨g.step (.heartbeat k), step_refines hg (.heartbeat k), ?_⟩, step_complete _ (.heartbeat k) hcomplete, ?_,
    ht _ rfl rfl rfl ?_⟩
  · rw [hlatest]
    rfl
  · simp only [Heartbeats.beat]
    split_ifs <;> exact huser
  · simp only [Heartbeats.beat]
    split_ifs
    · exact .inl ⟨rfl, rfl⟩
    · exact .inr ⟨rfl, rfl⟩

/-- **Step lemma.** -/
theorem step_inv (h : Handler) (e : Event) (i : Inv k h) : Inv k (advance k h e) := by
  have t := i.timing
  obtain ⟨⟨g, hg, hx⟩, hcomplete, huser, -⟩ := id i
  cases e with
  | pass d => exact ⟨⟨_, step_refines hg (.tick _), hx⟩, step_complete _ (.tick _) hcomplete, huser, t.pass d⟩
  | fire =>
    simp only [advance]
    split_ifs with hfire
    · exact ⟨⟨g, hg, hx⟩, hcomplete, huser, t.fire hfire.1 hfire.2⟩
    · exact i
  | answered =>
    simp only [advance]
    cases hs : h.sent with
    | none => exact i
    | some t' =>
      refine i.beat _ _ ?_
      rintro h' hnow hnext hsent (⟨hat, hmissed⟩ | ⟨hat, hmissed⟩)
      · exact t.answer hs hnow hnext hsent hat hmissed
      · exact t.miss hs hnow hnext hsent hat hmissed
  | failed =>
    simp only [advance]
    cases hs : h.sent with
    | none => exact i
    | some t' => exact ⟨⟨g, hg, hx⟩, hcomplete, huser, t.miss hs rfl rfl rfl rfl rfl⟩
  | late =>
    refine i.beat h.missed h.sent ?_
    rintro h' hnow hnext hsent (⟨hat, hmissed⟩ | ⟨hat, hmissed⟩)
    · exact t.renew hnow hnext hsent hat hmissed
    · exact t.congr hnow hnext hsent hat hmissed
  | registered channels =>
    have hb := accepted_own (k := k) channels huser
    refine ⟨⟨_, step_refines hg (.register _), ?_⟩, step_complete _ (.register _) hcomplete, huser,
      t.renew ?_ rfl rfl rfl rfl⟩
    · simp [Registry.step, hb, hg.now, advance]
    · exact now_step (by simp)
  | other o =>
    simp only [advance]
    split_ifs with ho
    · exact i
    · have hother : concerns k o = false := by simpa using ho
      have hnow : (step h.presence o).now = h.presence.now := by
        apply now_step
        rintro d rfl
        simp [concerns] at hother
      refine ⟨⟨_, step_refines hg o, ?_⟩, step_complete _ _ hcomplete, huser, t.congr hnow rfl rfl rfl rfl⟩
      rw [known_other hother]
      exact hx

/-- the ticker has just been started -/
theorem timing_start {h : Handler} (hnext : h.next = h.presence.now + heartbeatInterval) (hsent : h.sent = none)
    (hpast : h.latest.renewedAt ≤ h.presence.now) (hrecent : h.presence.now ≤ h.latest.renewedAt + requestTimeout)
    (hmissed : h.missed = 0) : Timing h := by
  refine ⟨?_, hnext.le, ?_, hpast, ?_, ?_⟩
  · rw [Handler.due, hsent]
    dsimp only
    omega
  · rw [hsent]
    intro t ht
    cases ht
  · rw [Handler.base, hsent, hmissed, Option.getD_none]
    omega
  · rw [Handler.base, hsent, hmissed, Option.getD_none]
    omega

/-- right after the handler has started -/
theorem inv_start (k : ConnId) (ops : List Op) {userId : String} (hu : userId ≠ "") (d : ℕ) :
    Inv k (start k (run Presence.step init ops) userId d) := by
  have hb := accepted_own (k := k) [] hu
  have hg := run_refines ops
  have hregistered : (step (run Presence.step init ops) (.register (some ⟨some k, userId, []⟩))).now =
      (run Presence.step init ops).now := now_step (by simp)
  have hnow : (start k (run Presence.step init ops) userId d).presence.now =
      (run Presence.step init ops).now + min d requestTimeout := by
    rw [← hregistered]
    rfl
  refine ⟨⟨_, step_refines (step_refines hg (.register _)) (.tick _), ?_⟩,
    step_complete _ (.tick _) (step_complete _ (.register _) (run_complete ops)), hu, timing_start ?_ rfl ?_ ?_ rfl⟩
  · simp [Registry.step, hb, hg.now, start]
  · rw [hnow]
    rfl
  · rw [hnow]
    exact Nat.le_add_right _ _
  · rw [hnow]
    exact Nat.add_le_add_left (min_le_right _ _) _

theorem run_inv (k : ConnId) (ops : List Op) {userId : String} (hu : userId ≠ "") (d : ℕ) (events : List Event) :
    Inv k (run (advance k) (start k (run Presence.step init ops) userId d) events) :=
  run_inv' (fun h e i => step_inv h e i) (inv_start k ops hu d) events

/-! ## What presence answers -/

/-- presence shows the connection under its user and under each of its channels -/
structure Found (k : ConnId) (s : State) (x : Registration) : Prop where
  user : k ∈ (queryByUser s x.userId).sessions
  channel : ∀ c ∈ x.channels, (⟨k, x.userId⟩ : SessionEntry) ∈ queryByChannel s c

/-- presence shows the connection nowhere -/
structure Lost (k : ConnId) (s : State) : Prop where
  user : ∀ u, k ∉ (queryByUser s u).sessions
  channel : ∀ c u, (⟨k, u⟩ : SessionEntry) ∉ queryByChannel s c

/-- what presence shows is decided by the age of the latest renewal -/
theorem Inv.found_or_lost {h : Handler} (i : Inv k h) :
    (h.presence.now < h.latest.renewedAt + sessionTtl → Found k h.presence h.latest) ∧
      (h.latest.renewedAt + sessionTtl ≤ h.presence.now → Lost k h.presence) := by
  obtain ⟨⟨g, hg, hx⟩, hcomplete, -, -⟩ := i
  refine ⟨?_, ?_⟩
  · intro hlt
    have hlive : h.presence.redis.hgetall h.presence.now k = some h.latest.session := by
      rw [hg.live, Registry.live_eq_some.2 ⟨hx, hg.now ▸ hlt⟩, Option.map_some]
    refine ⟨?_, ?_⟩
    · rw [mem_queryByUser]
      exact ⟨hcomplete.user k _ hlive, by rw [hlive]; rfl⟩
    · intro c hc
      rw [mem_queryByChannel]
      exact ⟨hcomplete.channel k _ hlive c hc, by rw [hlive]; rfl⟩
  · intro hle
    have hdead : h.presence.redis.hgetall h.presence.now k = none := by
      rw [hg.live, Registry.live, hx, Option.filter_some, if_neg]
      · rfl
      · rw [← hg.now]
        simpa using hle
    refine ⟨?_, ?_⟩
    · intro u hmem
      rw [mem_queryByUser, hdead] at hmem
      cases hmem.2
    · intro c u hmem
      rw [mem_queryByChannel, hdead] at hmem
      cases hmem.2

/-! ## Forgotten for good -/

/-- the handler does not register again -/
def Quiet : Event → Prop
  | .registered _ => False
  | _ => True

theorem beat_of_lost {h : Handler} (hknown : ∃ g, Refines h.presence g ∧ g.latest k = some h.latest)
    (hgone : h.latest.renewedAt + sessionTtl ≤ h.presence.now) : (beat k h).latest = h.latest := by
  obtain ⟨g, hg, hx⟩ := hknown
  have hstatus := (known_beat hg hx).1
  rw [beat]
  exact if_neg fun h200 => absurd (hstatus.1 h200) (Nat.not_lt.2 hgone)

/-- time only passes -/
theorem now_le_advance (h : Handler) (e : Event) : h.presence.now ≤ (advance k h e).presence.now := by
  cases e with
  | pass d => exact Nat.le_add_right _ _
  | fire =>
    simp only [advance]
    split_ifs <;> exact le_rfl
  | answered =>
    simp only [advance]
    cases h.sent <;> exact le_rfl
  | failed =>
    simp only [advance]
    cases h.sent <;> exact le_rfl
  | late => exact le_rfl
  | registered channels => exact (now_step (by simp)).ge
  | other o =>
    simp only [advance]
    split_ifs with ho
    · exact le_rfl
    · refine (now_step ?_).ge
      rintro d rfl
      simp [concerns] at ho

/-- no heartbeat renews a registration that presence has forgotten -/
theorem latest_of_lost {h : Handler} (i : Inv k h) {e : Event} (he : Quiet e)
    (hgone : h.latest.renewedAt + sessionTtl ≤ h.presence.now) : (advance k h e).latest = h.latest := by
  cases e with
  | pass d => rfl
  | fire =>
    simp only [advance]
    split_ifs <;> rfl
  | answered =>
    simp only [advance]
    cases h.sent with
    | none => rfl
    | some t => exact beat_of_lost (h := { h with missed := h.missed + 1 }) i.known hgone
  | failed =>
    simp only [advance]
    cases h.sent <;> rfl
  | late => exact beat_of_lost i.known hgone
  | registered channels => exact he.elim
  | other o =>
    simp only [advance]
    split_ifs <;> rfl

/-- what presence has forgotten it shows nowhere, until the connection registers again -/
theorem forgotten_for_good {h : Handler} (i : Inv k h) (hgone : h.latest.renewedAt + sessionTtl ≤ h.presence.now)
    {more : List Event} (hquiet : ∀ e ∈ more, Quiet e) : Lost k (run (advance k) h more).presence := by
  induction more generalizing h with
  | nil => exact i.found_or_lost.2 hgone
  | cons e more ih =>
    have he := hquiet e (by simp)
    refine ih (step_inv h e i) ?_ fun x hx => hquiet x (by simp [hx])
    rw [latest_of_lost i he hgone]
    exact hgone.trans (now_le_advance h e)

/-! ## Heartbeats against the time to live -/

/-- with at most 13 heartbeats missed the latest renewal is less than 30 minutes ago, with 17 it is not -/
theorem Timing.age {h : Handler} (t : Timing h) :
    (h.missed ≤ 13 → h.presence.now < h.latest.renewedAt + sessionTtl) ∧
      (17 ≤ h.missed → h.latest.renewedAt + sessionTtl ≤ h.presence.now) := by
  obtain ⟨hdue, hsoon, hsent, -, hrecent, hold⟩ := t
  have hinterval : heartbeatInterval = 120000000000 := by decide
  have htimeout : requestTimeout = 5000000000 := by decide
  have httl : sessionTtl = 1800000000000 := by decide
  rw [hinterval] at hsoon hrecent hold
  rw [htimeout] at hrecent hold
  simp only [Handler.due, Handler.base] at hdue hrecent hold
  refine ⟨?_, ?_⟩
  · intro hmissed
    cases hs : h.sent with
    | none =>
      simp only [hs, Option.getD_none] at hdue hrecent
      omega
    | some t =>
      simp only [hs, Option.getD_some, htimeout] at hdue hrecent
      omega
  · intro hmissed
    cases hs : h.sent with
    | none =>
      simp only [hs, Option.getD_none] at hold
      omega
    | some t =>
      have hle := (hsent t hs).1
      simp only [hs, Option.getD_some] at hold
      omega

/-- **Heartbeats.** Whatever other connections do and however often this one registers again: as long as not more than 13
heartbeats in a row have been missed, presence shows the connection under its user and under its channels; once 17 have
been, it shows it nowhere, and no later heartbeat changes that, until the connection registers again. -/
theorem known_while_beating (k : ConnId) (ops : List Op) {userId : String} (hu : userId ≠ "") (d : ℕ)
    (events : List Event) :
    let h := run (advance k) (start k (run Presence.step init ops) userId d) events
    (h.missed ≤ 13 → Found k h.presence h.latest) ∧
      (17 ≤ h.missed → ∀ more, (∀ e ∈ more, Quiet e) → Lost k (run (advance k) h more).presence) := by
  intro h
  have i : Inv k h := run_inv k ops hu d events
  obtain ⟨hyoung, haged⟩ := i.timing.age
  refine ⟨?_, ?_⟩
  · intro hmissed
    exact i.found_or_lost.1 (hyoung hmissed)
  · intro hmissed more hquiet
    exact forgotten_for_good i (haged hmissed) hquiet

/-- a heartbeat that fails at once -/
def failedBeat : List Event := [.pass heartbeatInterval, .fire, .failed]

/-- alice's connection, after `n` heartbeats that have failed -/
def alice (n : ℕ) : Handler :=
  run (advance 1) (start 1 (run Presence.step init []) "alice" 0) (List.replicate n failedBeat).flatten

theorem alice_forgotten : Found 1 (alice 13).presence (alice 13).latest ∧ Lost 1 (alice 17).presence := by
  have hmissed : (alice 13).missed = 13 ∧ (alice 17).missed = 17 := by decide
  have h : ∀ n, ((alice n).missed ≤ 13 → Found 1 (alice n).presence (alice n).latest) ∧
      (17 ≤ (alice n).missed → Lost 1 (alice n).presence) := by
    intro n
    have hn := @known_while_beating 1 [] "alice" (by decide) 0 (List.replicate n failedBeat).flatten
    exact ⟨hn.1, fun hmissed => hn.2 hmissed [] (List.forall_mem_nil _)⟩
  exact ⟨(h 13).1 hmissed.1.le, (h 17).2 hmissed.2.ge⟩

end Concordia.Presence.Heartbeats
