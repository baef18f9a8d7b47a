/-
Whether a subscribed connection receives a message. A change of subscriptions registers the whole session again, and
`register` takes the connection out of its old channels in one round trip and puts it into the new ones in another.

- `Phase.gap`: a registration has taken the connection out of a channel that it is about to put it back into.
- `Lasting`: no session expires. `Clear`: presence is not asked for the message while the connection is in a gap.
- `Steady`: an acknowledged connection is in the index, or in a gap. `OnTrack`: how often the message was written, and
  how often it still will be.
- `delivered_once_when_clear`: the run. `lost_in_gap`: a connection that subscribes to a second channel misses a message
  on the first.
-/
import Concordia.Push.Steps

namespace Concordia.Push

open Concordia.Lib Concordia.Presence
open Concordia.Servers (Uuid)
open Function (update update_self update_of_ne)

/-- between the two pipelines of `register`, for a channel that is in both -/
def Phase.gap (x : String) : Phase → Prop
  | .write _ channels oldChannels => x ∈ oldChannels ∧ x ∈ channels
  | _ => False

/-- time does not take a stored session past its end -/
def Lasting (s : St) : Op → Prop
  | .tick n => ∀ k y, s.redis.session k = some y → s.now + n < y.expiresAt
  | _ => True

/-- the channel presence is about to be asked for -/
def MsgPhase.asking : MsgPhase → Option Uuid
  | .fanout c => some c
  | _ => none

/-- presence is not asked for the message while the connection is in a gap -/
def Clear (k : ConnId) (m : ℕ) (s : St) : Op → Prop
  | .chat m' _ => m' = m → ∀ c ∈ (s.messages m).asking, ¬ (s.phase k).gap (Servers.Uuid.toString c)
  | _ => True

instance (x : String) : ∀ p : Phase, Decidable (p.gap x)
  | .write _ channels oldChannels => inferInstanceAs (Decidable (x ∈ oldChannels ∧ x ∈ channels))
  | .absent | .lookup _ _ | .clean _ _ _ | .respond _ | .reading | .closing | .forget _ | .leaving | .gone =>
    inferInstanceAs (Decidable False)

instance (k : ConnId) (m : ℕ) (s : St) : ∀ o, Decidable (Clear k m s o)
  | .chat m' _ => inferInstanceAs (Decidable (m' = m → ∀ c ∈ (s.messages m).asking, ¬ _))
  | .servers _ | .open _ _ | .frame _ _ | .close _ | .advance _ | .heartbeat _ | .create _ _ _ | .tick _ =>
    inferInstanceAs (Decidable True)

/-- how often the message was written to the connection -/
def St.written (s : St) (k : ConnId) (m : ℕ) (c : Uuid) : ℕ :=
  (s.sent.map fun f => (f.conn, f.out)).count (k, .newMessage m c)

/-! ## Sessions -/

/-- no stored session has expired -/
def Live (s : St) : Prop := ∀ k y, s.redis.session k = some y → s.now < y.expiresAt

theorem live_init : Live init := by
  intro k y hy
  cases hy

theorem live_trans {s s' : St} {o : Op} {k : ConnId} (h : Live s) (ht : Trans s o k s') {y : Session}
    (hy : s'.redis.session k = some y) : s.now < y.expiresAt := by
  cases ht with
  | written ack channels old h0 =>
    simp only [Redis.writePipe_session, Option.some.injEq] at hy
    subst hy
    exact Nat.lt_add_of_pos_right (by decide)
  | forgotten data h0 => simp at hy
  | beat =>
    simp only [Redis.heartbeat_session, Option.map_eq_some_iff] at hy
    obtain ⟨x, hx, rfl⟩ := hy
    split_ifs
    · exact Nat.lt_add_of_pos_right (by decide)
    · exact h k x hx
  | _ => exact h k y hy

theorem live_step {s : St} {o : Op} (h : Live s) (hl : Lasting s o) : Live (step s o) := by
  intro k y hy
  by_cases ht : ∃ n, o = .tick n
  · obtain ⟨n, rfl⟩ := ht
    exact hl k y hy
  · rw [step_now fun n e => ht ⟨n, e⟩]
    by_cases ho : o.conn = some k
    · rcases conn_cases ho with e | ht
      · rw [e] at hy
        exact h k y hy
      · exact live_trans h ht hy
    · rw [(step_other ho).session] at hy
      exact h k y hy

theorem Live.hgetall {s : St} (h : Live s) {k : ConnId} {y : Session} (hy : s.redis.session k = some y) :
    s.redis.hgetall s.now k = some y :=
  Redis.hgetall_eq_some.2 ⟨hy, h k y hy⟩

/-! ## The connection -/

/-- what the goroutine has in hand agrees with the connection's set, and with presence -/
def Sync (s : St) (k : ConnId) : Prop :=
  match s.phase k with
  | .lookup ack l | .clean ack l _ | .write ack l _ =>
    s.conns k = true ∧ s.subs k = some l ∧ ∀ x, ack = .subscribed x → x ∈ l
  | .respond ack =>
    s.conns k = true ∧ ∃ l, s.redis.registered k = some l ∧ s.subs k = some l ∧ (∀ x, ack = .subscribed x → x ∈ l) ∧
      ∀ x ∈ l, k ∈ s.redis.channel x
  | .reading => s.conns k = true
  | _ => True

theorem sync_trans {s s' : St} {o : Op} {k : ConnId} (h : Sync s k) (ht : Trans s o k s') : Sync s' k := by
  cases ht with
  | beat => simpa only [Sync, Redis.registered_heartbeat, Redis.heartbeat_channel] using h
  | written ack l old h0 =>
    rw [Sync, h0] at h
    obtain ⟨hc, hs, ha⟩ := h
    simp only [Sync, update_self]
    exact ⟨hc, l, Redis.registered_writePipe _ _ _ _ _, hs, ha, fun x hx => Redis.mem_saddChannels.2 (Or.inr ⟨rfl, hx⟩)⟩
  | responded ack ho h0 =>
    rw [Sync, h0] at h
    simpa [Sync, St.setPhase, St.writeJSON] using h.1
  | opened | closed | forgetting | skipped | forgotten | left => simp [Sync, St.setPhase]
  | subscribed | unsubscribed | refused | found | missing | cleaned => simp_all [Sync, St.setPhase, St.writeJSON]

theorem sync_step {s : St} (o : Op) {k : ConnId} (h : Sync s k) : Sync (step s o) k := by
  by_cases ho : o.conn = some k
  · rcases conn_cases ho with e | ht
    · rw [e]; exact h
    · exact sync_trans h ht
  · have hk := step_other (s := s) ho
    simpa only [Sync, Redis.registered, hk.phase, hk.conns, hk.subs, hk.session, hk.index] using h

/-- the index has the connection for the channel, or is about to -/
def Phase.indexed (x : String) (inIndex : Prop) : Phase → Prop
  | .lookup _ l => x ∈ l ∧ inIndex
  | .clean _ l old => x ∈ l ∧ x ∈ old ∧ inIndex
  | .write _ l old => x ∈ l ∧ x ∈ old
  | .respond _ | .reading => inIndex
  | _ => False

/-- a connection that was acknowledged on a channel, and neither leaves it nor closes -/
structure Steady (k : ConnId) (x : String) (s : St) : Prop where
  conns : s.conns k = true
  subs : ∃ l, s.subs k = some l ∧ x ∈ l
  registered : ∃ l, s.redis.registered k = some l ∧ x ∈ l
  phase : ∃ p, s.phase k = p ∧ p.indexed x (k ∈ s.redis.channel x)

theorem steady_trans {k : ConnId} {x : String} {s s' : St} {o : Op} (h : Steady k x s) (hlive : Live s)
    (hun : o ≠ .frame k (.unsubscribe x)) (hcl : o ≠ .close k) (ht : Trans s o k s') : Steady k x s' := by
  obtain ⟨hc, ⟨l, hl, hx⟩, ⟨r, hr, hxr⟩, p, rfl, hp⟩ := h
  obtain ⟨y, hy, rfl⟩ := Option.map_eq_some_iff.1 hr
  cases ht with
  | opened userId ho h0 => rw [h0] at hp; exact hp.elim
  | subscribed x' l' ho h0 hl' =>
    rw [h0] at hp
    cases hl.symm.trans hl'
    have hmem : x ∈ addRow x' l := mem_addRow.2 (Or.inl hx)
    exact ⟨hc, ⟨_, update_self _ _ _, hmem⟩, ⟨_, hr, hxr⟩, _, update_self _ _ _, hmem, hp⟩
  | unsubscribed x' l' ho h0 hl' =>
    rw [h0] at hp
    cases hl.symm.trans hl'
    have hne : x ≠ x' := fun e => hun (e ▸ ho)
    have hmem : x ∈ l.filter (· ≠ x') := List.mem_filter.2 ⟨hx, by simpa using hne⟩
    exact ⟨hc, ⟨_, update_self _ _ _, hmem⟩, ⟨_, hr, hxr⟩, _, update_self _ _ _, hmem, hp⟩
  | refused error h0 => exact ⟨hc, ⟨l, hl, hx⟩, ⟨_, hr, hxr⟩, _, rfl, hp⟩
  | found ack l' prev h0 hprev =>
    -- the old channels are those of the session, which has the channel
    rw [h0] at hp
    cases (hlive.hgetall hy).symm.trans hprev
    exact ⟨hc, ⟨l, hl, hx⟩, ⟨_, hr, hxr⟩, _, update_self _ _ _, hp.1, hxr, hp.2⟩
  | missing ack l' h0 hprev => cases (hlive.hgetall hy).symm.trans hprev
  | cleaned ack l' old h0 =>
    rw [h0] at hp
    exact ⟨hc, ⟨l, hl, hx⟩, ⟨_, hr, hxr⟩, _, update_self _ _ _, hp.1, hp.2.1⟩
  | written ack l' old h0 =>
    rw [h0] at hp
    exact ⟨hc, ⟨l, hl, hx⟩, ⟨l', Redis.registered_writePipe _ _ _ _ _, hp.1⟩, _, update_self _ _ _,
      Redis.mem_saddChannels.2 (Or.inr ⟨rfl, hp.1⟩)⟩
  | responded ack ho h0 =>
    rw [h0] at hp
    exact ⟨hc, ⟨l, hl, hx⟩, ⟨_, hr, hxr⟩, _, update_self _ _ _, hp⟩
  | closed ho h0 => exact absurd ho hcl
  | forgetting data h0 hp' => rw [h0] at hp; exact hp.elim
  | skipped h0 => rw [h0] at hp; exact hp.elim
  | forgotten data h0 => rw [h0] at hp; exact hp.elim
  | left h0 => rw [h0] at hp; exact hp.elim
  | beat =>
    refine ⟨hc, ⟨l, hl, hx⟩, ⟨_, (Redis.registered_heartbeat _ _ _ _).trans hr, hxr⟩, _, rfl, ?_⟩
    rw [Redis.heartbeat_channel]
    exact hp

/-- **One step.** A connection stays steady until it unsubscribes or closes. -/
theorem steady_step {k : ConnId} {x : String} {s : St} {o : Op} (h : Steady k x s) (hlive : Live s)
    (hun : o ≠ .frame k (.unsubscribe x)) (hcl : o ≠ .close k) : Steady k x (step s o) := by
  by_cases ho : o.conn = some k
  · rcases conn_cases ho with e | ht
    · rw [e]; exact h
    · exact steady_trans h hlive hun hcl ht
  · have hk := step_other (s := s) ho
    obtain ⟨hc, hsubs, hreg, p, hp, hidx⟩ := h
    refine ⟨hk.conns.trans hc, by rwa [hk.subs], ?_, p, hk.phase.trans hp, by rwa [hk.index]⟩
    rwa [Redis.registered, hk.session]

/-- the acknowledgement is written when the connection is in the index -/
theorem steady_of_ack {k : ConnId} {x : String} {u : Uuid} {s : St} {o : Op} (h : Sync s k)
    (hack : (step s o).sent = s.sent ++ [⟨k, u, .ack (.subscribed x)⟩]) : Steady k x (step s o) := by
  rcases step_sent s o with e | ⟨f, e, hw⟩
  · simp [hack] at e
  · obtain rfl : ⟨k, u, .ack (.subscribed x)⟩ = f := by simpa using hack.symm.trans e
    cases hw with
    | ack _ _ h0 =>
      rw [Sync, h0] at h
      obtain ⟨hc, l, hr, hs, ha, hi⟩ := h
      have hx := ha x rfl
      simp only [step, advance, h0]
      exact ⟨hc, ⟨l, hs, hx⟩, ⟨l, hr, hx⟩, _, update_self _ _ _, hi x hx⟩

/-- outside a gap, a steady connection is in the index, once -/
theorem Steady.count {k : ConnId} {x : String} {s : St} (h : Steady k x s) (hgap : ¬ (s.phase k).gap x) :
    (s.redis.smembers x).count k = 1 := by
  obtain ⟨p, hp, hidx⟩ := h.phase
  rw [hp] at hgap
  apply List.count_eq_one_of_mem (s.redis.channel_nodup x)
  cases p with
  | lookup => exact hidx.2
  | clean => exact hidx.2.2
  | write => exact absurd ⟨hidx.2, hidx.1⟩ hgap
  | respond | reading => exact hidx
  | _ => exact hidx.elim

/-! ## The message -/

theorem written_congr {s s' : St} (h : s'.sent = s.sent) (k : ConnId) (m : ℕ) (c : Uuid) :
    s'.written k m c = s.written k m c := by
  rw [St.written, h, St.written]

theorem written_snoc {s s' : St} {f : Frame} (h : s'.sent = s.sent ++ [f]) (k : ConnId) (m : ℕ) (c : Uuid) :
    s'.written k m c = s.written k m c + if f.conn = k ∧ f.out = .newMessage m c then 1 else 0 := by
  rw [St.written, h, List.map_append, List.count_append, St.written, List.map_cons, List.map_nil, List.count_singleton]
  simp [Prod.ext_iff]

/-- only the message's own steps write it -/
theorem written_other {s : St} {o : Op} {m : ℕ} (ho : o.message ≠ some m) (k : ConnId) (c : Uuid) :
    (step s o).written k m c = s.written k m c := by
  rcases step_sent s o with e | ⟨f, e, hw⟩
  · exact written_congr e k m c
  · rw [written_snoc e, if_neg, Nat.add_zero]
    rintro ⟨-, hout⟩
    cases hw with
    | ack | error => cases hout
    | push m' cached c' k' rest h0 hk => cases hout; exact ho rfl

/-- nothing is written of a message that has not begun -/
theorem Unasked.written {s : St} (h : Unasked s) {m : ℕ} (hm : (s.messages m).asked = none) (k : ConnId) (c : Uuid) :
    s.written k m c = 0 := by
  apply List.count_eq_zero.2
  intro hmem
  obtain ⟨f, hf, e⟩ := List.mem_map.1 hmem
  exact h m hm f hf c (congrArg Prod.snd e)

/-- a message that has been written `w` times is to be written once in all -/
def MsgPhase.owes (k : ConnId) (c : Uuid) (w : ℕ) : MsgPhase → Prop
  | .began _ c' | .resolved _ c' _ | .fanout c' => c' = c ∧ w = 0
  | .listed c' ids | .pushing c' ids => c' = c ∧ w + ids.count k = 1
  | .finished c' => c' = c ∧ w = 1
  | .forbidden => True
  | .idle => False

/-- the message has been written to the connection as often as it should by now -/
def OnTrack (k : ConnId) (m : ℕ) (c : Uuid) (s : St) : Prop := (s.messages m).owes k c (s.written k m c)

theorem OnTrack.of {k : ConnId} {m : ℕ} {c : Uuid} {s : St} {p : MsgPhase} {w : ℕ} (hm : s.messages m = p)
    (hw : s.written k m c = w) (h : p.owes k c w) : OnTrack k m c s := by
  subst hm hw
  exact h

theorem onTrack_chat {k : ConnId} {m : ℕ} {c : Uuid} {s : St} {cached : Option (Finset Servers.Permission)}
    (h : OnTrack k m c s) (hk : Steady k (Servers.Uuid.toString c) s) (hlive : Live s)
    (hclear : Clear k m s (.chat m cached)) : OnTrack k m c (chat s m cached) := by
  unfold OnTrack at h
  cases hm : s.messages m with
  | idle => rw [hm] at h; exact h.elim
  | forbidden => simp only [chat, hm]; exact .of hm rfl trivial
  | finished c' => rw [hm] at h; simp only [chat, hm]; exact .of hm rfl h
  | began u c' =>
    rw [hm] at h
    simp only [chat, hm]
    exact .of (update_self _ _ _) (written_congr (resolveServerId_sent s c') k m c) h
  | resolved u c' sid =>
    rw [hm] at h
    rcases chat_resolved cached hm with e | e
    · rw [e]
      exact .of (update_self _ _ _) (written_congr rfl k m _) h
    · rw [e]
      exact .of (update_self _ _ _) (written_congr rfl k m _) trivial
  | fanout c' =>
    rw [hm] at h
    obtain ⟨rfl, hw⟩ := h
    simp only [chat, hm]
    refine .of (update_self _ _ _) ((written_congr rfl k m c').trans hw) ⟨rfl, ?_⟩
    rw [hk.count (hclear rfl c' (by rw [hm]; rfl))]
  | listed c' ids =>
    rw [hm] at h
    obtain ⟨rfl, hw⟩ := h
    -- the connection's session is live, so it passes the filter
    have hsome : (s.redis.hgetall s.now k).isSome = true := by
      obtain ⟨l, hr, -⟩ := hk.registered
      obtain ⟨y, hy, -⟩ := Option.map_eq_some_iff.1 hr
      rw [hlive.hgetall hy]
      rfl
    rw [← List.count_filter (p := fun id => (s.redis.hgetall s.now id).isSome) hsome] at hw
    simp only [chat, hm]
    split_ifs with hnil
    · refine .of (update_self _ _ _) (written_congr rfl k m _) ⟨rfl, ?_⟩
      rw [hnil] at hw
      exact hw
    · exact .of (update_self _ _ _) (written_congr rfl k m _) ⟨rfl, hw⟩
  | pushing c' ids =>
    rw [hm] at h
    obtain ⟨rfl, hw⟩ := h
    cases ids with
    | nil => simp only [chat, hm]; exact .of (update_self _ _ _) (written_congr rfl k m _) ⟨rfl, hw⟩
    | cons id rest =>
      rw [List.count_cons] at hw
      simp only [chat, hm]
      split_ifs with hc
      · refine .of (update_self _ _ _) (written_snoc rfl k m c') ⟨rfl, ?_⟩
        simp only [and_true, beq_iff_eq] at hw ⊢
        omega
      · -- a connection that is gone is another one
        have hne : id ≠ k := fun e => hc (e ▸ hk.conns)
        simp only [beq_iff_eq, if_neg hne, Nat.add_zero] at hw
        exact .of (update_self _ _ _) (written_congr rfl k m _) ⟨rfl, hw⟩

/-- **One step.** While the connection is steady, a message that is clear of its gaps stays on track. -/
theorem onTrack_step {k : ConnId} {m : ℕ} {c : Uuid} {s : St} {o : Op} (h : OnTrack k m c s)
    (hk : Steady k (Servers.Uuid.toString c) s) (hlive : Live s) (hclear : Clear k m s o) :
    OnTrack k m c (step s o) := by
  by_cases ho : o.message = some m
  · cases o with
    | create m' u c' =>
      cases ho
      have hidle : s.messages m ≠ .idle := fun e => by rw [OnTrack, e] at h; exact h
      rw [step, if_neg hidle]
      exact h
    | chat m' cached => cases ho; exact onTrack_chat h hk hlive hclear
    | _ => cases ho
  · exact .of (step_messages ho) (written_other ho k c) h

/-- a message that is finished is written no more -/
theorem finished_step {k : ConnId} {m : ℕ} {c c' : Uuid} {s : St} (o : Op) (h : s.messages m = .finished c') :
    (step s o).messages m = .finished c' ∧ (step s o).written k m c = s.written k m c := by
  by_cases ho : o.message = some m
  · have hsame : step s o = s := by
      cases o with
      | create m' u c'' => cases ho; simp [step, h]
      | chat m' cached => cases ho; simp only [step, chat, h]
      | _ => cases ho
    rw [hsame]
    exact ⟨h, rfl⟩
  · exact ⟨(step_messages ho).trans h, written_other ho k c⟩

/-! ## Runs -/

/-- the client neither leaves the channel nor closes the connection -/
def Stays (k : ConnId) (c : Uuid) (o : Op) : Prop := o ≠ .frame k (.unsubscribe (Servers.Uuid.toString c)) ∧ o ≠ .close k

/-- the message reaches the connection once: whenever the connection is acknowledged on the channel before the message
begins, and stays until the message is finished, it has been written to it once then and ever after -/
def DeliveredOnce (k : ConnId) (m : ℕ) (c : Uuid) (ops : List Op) : Prop :=
  ∀ before o between user after rest,
    ops = before ++ o :: (between ++ Op.create m user c :: (after ++ rest)) →
    (∃ u, (reached (before ++ [o])).sent =
      (reached before).sent ++ [⟨k, u, .ack (.subscribed (Servers.Uuid.toString c))⟩]) →
    (reached (before ++ o :: between)).messages m = .idle → (∀ o' ∈ between ++ after, Stays k c o') →
    (∃ c', (reached (before ++ o :: (between ++ Op.create m user c :: after))).messages m = .finished c') →
    (reached ops).written k m c = 1

/-- what a run keeps of a connection that stays -/
structure Held (k : ConnId) (c : Uuid) (s : St) : Prop where
  live : Live s
  steady : Steady k (Servers.Uuid.toString c) s

theorem held_step {k : ConnId} {c : Uuid} {s : St} {o : Op} (h : Held k c s) (hl : Lasting s o) (hs : Stays k c o) :
    Held k c (step s o) :=
  ⟨live_step h.live hl, steady_step h.steady h.live hs.1 hs.2⟩

theorem held_run {k : ConnId} {c : Uuid} {s : St} {ops : List Op} (h : Held k c s) (hl : Along step Lasting s ops)
    (hs : ∀ o ∈ ops, Stays k c o) : Held k c (run step s ops) :=
  run_inv (fun _ _ h hC => held_step h hC.1 hC.2) h (along_and hl (along_of_mem hs))

theorem onTrack_run {k : ConnId} {m : ℕ} {c : Uuid} {s : St} {ops : List Op} (h : Held k c s) (ht : OnTrack k m c s)
    (hl : Along step Lasting s ops) (hclear : Along step (Clear k m) s ops) (hs : ∀ o ∈ ops, Stays k c o) :
    OnTrack k m c (run step s ops) := by
  refine (run_inv (I := fun s => Held k c s ∧ OnTrack k m c s) ?_ ⟨h, ht⟩
    (along_and (along_and hl hclear) (along_of_mem hs))).2
  intro s o hI hC
  obtain ⟨⟨hl, hc⟩, hs⟩ := hC
  exact ⟨held_step hI.1 hl hs, onTrack_step hI.2 hI.1.steady hI.1.live hc⟩

theorem finished_run {k : ConnId} {m : ℕ} {c c' : Uuid} {s : St} (h : s.messages m = .finished c') (ops : List Op) :
    (run step s ops).written k m c = s.written k m c :=
  (run_inv' (I := fun t : St => t.messages m = .finished c' ∧ t.written k m c = s.written k m c)
    (fun _ o hI => ⟨(finished_step (k := k) (c := c) o hI.1).1, (finished_step o hI.1).2.trans hI.2⟩) ⟨h, rfl⟩ ops).2

/-- **Delivery.** In a run in which no session expires and presence is never asked for the message while the connection
is between the two pipelines of a registration that keeps the channel, the message reaches the connection once. -/
theorem delivered_once_when_clear (k : ConnId) (m : ℕ) (c : Uuid) (ops : List Op)
    (hlast : Along step Lasting init ops) (hclear : Along step (Clear k m) init ops) : DeliveredOnce k m c ops := by
  rintro before o between user after rest rfl ⟨u, hack⟩ hidle hstay ⟨c', hfin⟩
  simp only [along_append, Along] at hlast hclear
  obtain ⟨hl0, hlo, hl1, hlc, hl2, -⟩ := hlast
  obtain ⟨-, -, -, -, hc2, -⟩ := hclear
  simp only [reached, run_append, run_cons, run_nil] at hack hidle hfin ⊢
  have hlive : Live (run step init before) := run_inv (fun _ _ => live_step) live_init hl0
  have hsync : Sync (run step init before) k :=
    run_inv' (I := fun s => Sync s k) (fun _ o => sync_step o) (show Sync init k from trivial) before
  have hunasked : Unasked (run step init (before ++ o :: between)) :=
    run_inv' (fun _ o => unasked_step o) unasked_init _
  rw [run_append, run_cons] at hunasked
  have h1 : Held k c (step (run step init before) o) := ⟨live_step hlive hlo, steady_of_ack hsync hack⟩
  have h2 := held_run h1 hl1 fun o' ho' => hstay o' (List.mem_append_left _ ho')
  have h3 := held_step (o := .create m user c) h2 hlc ⟨by simp, by simp⟩
  have ht : OnTrack k m c (step (run step (step (run step init before) o) between) (.create m user c)) := by
    rw [step, if_pos hidle]
    exact .of (update_self _ _ _) (written_congr rfl k m c) ⟨rfl, hunasked.written (by rw [hidle]; rfl) k c⟩
  have h4 := onTrack_run h3 ht hl2 hc2 fun o' ho' => hstay o' (List.mem_append_right _ ho')
  rw [OnTrack, hfin] at h4
  rw [finished_run hfin]
  exact h4.2

/-! ## A second subscription -/

/-- user 7 opens connection 1 and subscribes it to channel 3; its next step writes the acknowledgement -/
def subscribing : List Op :=
  homeRequests.map Op.servers ++ [Op.open 1 7, .advance 1, .advance 1, .advance 1,
    .frame 1 (.subscribe (Servers.Uuid.toString 3)), .advance 1, .advance 1, .advance 1]

theorem lasting_of_no_tick {s : St} {ops : List Op} (h : ∀ o ∈ ops, ∀ n, o ≠ .tick n) : Along step Lasting s ops := by
  refine (along_of_mem h).mono ?_
  intro s o ho
  cases o with
  | tick n => exact absurd rfl (ho n)
  | _ => trivial

/-- connection 1 subscribes to a second channel while user 7 posts on the first; presence is asked for the message before
the first pipeline -/
def askedBeforeGap : List Op :=
  subscribing ++ [Op.advance 1, .frame 1 (.subscribe "lobby"), .advance 1, .create 0 7 3, .chat 0 none] ++
    Op.chat 0 none :: [.chat 0 none, .advance 1, .chat 0 none, .chat 0 none, .chat 0 none, .advance 1, .advance 1]

/-- the same, but the first pipeline has run when chat comes to CheckPerm -/
def intoGap : List Op :=
  subscribing ++ [Op.advance 1, .frame 1 (.subscribe "lobby"), .advance 1, .advance 1, .create 0 7 3, .chat 0 none]

/-- presence is asked between the two pipelines -/
def askedInGap : List Op :=
  intoGap ++ Op.chat 0 none :: [.chat 0 none, .chat 0 none, .advance 1, .advance 1]

theorem delivered_before_gap : DeliveredOnce 1 0 3 askedBeforeGap := by
  refine delivered_once_when_clear 1 0 3 _ (lasting_of_no_tick ?_) ?_
  · simp [askedBeforeGap, subscribing, homeRequests]
  · refine along_append.2 ⟨by decide +kernel, by decide +kernel, ?_⟩
    rw [home_permits ((reached_db _).trans (congrArg _ (by rfl))) (by decide +kernel)]
    decide +kernel

/-- **A message is lost.** Connection 1 is acknowledged on channel 3, subscribes to a second channel, and presence is
asked for the message between the two pipelines of that registration. -/
theorem lost_in_gap : Along step Lasting init askedInGap ∧ ¬ DeliveredOnce 1 0 3 askedInGap := by
  refine ⟨lasting_of_no_tick (by simp [askedInGap, intoGap, subscribing, homeRequests]), ?_⟩
  intro h
  have hrun := home_run intoGap (m := 0) (by decide +kernel) (by decide +kernel)
  have honce := h subscribing (.advance 1) [.frame 1 (.subscribe "lobby"), .advance 1, .advance 1] 7
    [.chat 0 none, .chat 0 none, .chat 0 none, .chat 0 none] [.advance 1, .advance 1] rfl
    ⟨7, by decide +kernel⟩ (by decide +kernel) (by simp [Stays])
    ⟨3, (congrArg (fun s => s.messages 0) (hrun [.chat 0 none, .chat 0 none])).trans (by decide +kernel)⟩
  have hnone : (reached askedInGap).written 1 0 3 = 0 := by
    rw [askedInGap, hrun]
    decide +kernel
  exact absurd (honce.symm.trans hnone) (by decide)

end Concordia.Push
