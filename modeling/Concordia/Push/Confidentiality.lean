/-
Who receives the messages of a channel. Chat asks CheckPerm before it lets a user read a channel's history; the gateway
asks nobody before it subscribes a connection to one, and nobody takes a subscription back.

- `MayRead`: CheckPerm allows the user READ on the channel.
- `Guarded`: a subscription is made by a user who may read the channel, and no request to the servers service takes that
  from a user whose connection is subscribed.
- `ConnOk`: what holds of a connection in a guarded run. `FromQuery`: what holds of a message once presence has answered.
- `confidential_when_guarded`: the run. `outsider_receives`: a user who never joined reads along.
-/
import Concordia.Push.Steps

namespace Concordia.Push

open Concordia.Lib Concordia.Presence
open Concordia.Servers (Db Uuid checkPerm)
open Function (update update_self update_of_ne)

/-- CheckPerm, its role cache fresh, allows the user READ on the channel -/
def MayRead (db : Db) (userId channelId : Uuid) : Prop :=
  (checkPerm db db.effective
    ⟨Servers.Uuid.toString userId, "", Servers.Uuid.toString channelId, .read⟩).allowed = true

/-- the connection is subscribed to the channel, by the gateway's set or by presence's index -/
def Exposed (s : St) (k : ConnId) (x : String) : Prop :=
  (∃ l, s.subs k = some l ∧ x ∈ l) ∨ k ∈ s.redis.channel x

/-- subscriptions are made, and remain, those of users who may read the channel -/
def Guarded (s : St) : Op → Prop
  | .frame k (.subscribe x) =>
    s.phase k = .reading → ∀ c, x = Servers.Uuid.toString c → MayRead s.db (s.user k) c
  | .servers q => ∀ k c, s.conns k = true → Exposed s k (Servers.Uuid.toString c) → MayRead s.db (s.user k) c →
    MayRead (Servers.step s.db q) (s.user k) c
  | _ => True

/-! ## Connections -/

/-- the channels a registration under way will write -/
def Phase.channels : Phase → Option (List String)
  | .lookup _ channels | .clean _ channels _ | .write _ channels _ => some channels
  | _ => none

structure ConnOk (s : St) (k : ConnId) : Prop where
  absent : s.phase k = .absent → s.conns k = false ∧ ∀ x, k ∉ s.redis.channel x
  registering : ∀ l, (s.phase k).channels = some l → s.subs k = some l
  covered : s.conns k = true → ∀ c, Exposed s k (Servers.Uuid.toString c) → MayRead s.db (s.user k) c

theorem connOk_init (k : ConnId) : ConnOk init k where
  absent _ := ⟨rfl, fun _ h => nomatch h⟩
  registering _ h := nomatch h
  covered h := nomatch h

/-- a step that leaves the connection alone, and what its user may read -/
theorem ConnOk.same {s s' : St} {k : ConnId} (h : ConnOk s k) (hk : SameConn k s s')
    (hdb : s.conns k = true → ∀ c, Exposed s k (Servers.Uuid.toString c) → MayRead s.db (s.user k) c →
      MayRead s'.db (s.user k) c) : ConnOk s' k := by
  have hexp : ∀ x, Exposed s' k x ↔ Exposed s k x := fun x => by rw [Exposed, Exposed, hk.subs, hk.index]
  refine ⟨?_, ?_, ?_⟩
  · intro h0
    rw [hk.phase] at h0
    rw [hk.conns]
    exact ⟨(h.absent h0).1, fun x hx => (h.absent h0).2 x ((hk.index x).1 hx)⟩
  · intro l hl
    rw [hk.phase] at hl
    rw [hk.subs]
    exact h.registering l hl
  · intro hc c he
    rw [hk.conns] at hc
    rw [hk.user]
    exact hdb hc c ((hexp _).1 he) (h.covered hc c ((hexp _).1 he))

/-- a step of the connection that subscribes it to nothing new -/
theorem ConnOk.move {s s' : St} {k : ConnId} {p : Phase} (h : ConnOk s k) (hphase : s'.phase k = p) (hp : p ≠ .absent)
    (hchannels : ∀ l, p.channels = some l → s'.subs k = some l) (hdb : s'.db = s.db) (huser : s'.user = s.user)
    (hconns : s'.conns k = true → s.conns k = true) (hexp : ∀ x, Exposed s' k x → Exposed s k x) : ConnOk s' k where
  absent h0 := absurd (hphase.symm.trans h0) hp
  registering l hl := hchannels l (by rw [← hphase]; exact hl)
  covered hc c he := by
    rw [hdb, huser]
    exact h.covered (hconns hc) c (hexp _ he)

/-- a change of phase alone -/
theorem ConnOk.setPhase {s : St} {k : ConnId} (h : ConnOk s k) {p : Phase} (hp : p ≠ .absent)
    (hchannels : ∀ l, p.channels = some l → (s.phase k).channels = some l) : ConnOk (s.setPhase k p) k :=
  h.move (update_self _ _ _) hp (fun l hl => h.registering l (hchannels l hl)) rfl rfl id fun _ => id

theorem connOk_trans {s s' : St} {o : Op} {k : ConnId} (h : ConnOk s k) (hg : Guarded s o) (ht : Trans s o k s') :
    ConnOk s' k := by
  cases ht with
  | opened userId ho h0 =>
    -- nothing is subscribed yet, and the index does not know the connection
    refine ⟨?_, ?_, ?_⟩
    · intro h0'
      simp at h0'
    · intro l hl
      simpa [Phase.channels] using hl
    · intro _ c he
      simp only [Exposed, update_self, Option.some.injEq] at he
      rcases he with ⟨l, rfl, hx⟩ | hx
      · cases hx
      · exact absurd hx ((h.absent h0).2 _)
  | subscribed x l ho h0 hl =>
    refine ⟨?_, ?_, ?_⟩
    · intro h0'
      simp at h0'
    · intro l' hl'
      simpa [Phase.channels] using hl'
    · intro hc c he
      simp only [Exposed, update_self, Option.some.injEq] at he
      rcases he with ⟨_, rfl, hx⟩ | hx
      · rcases mem_addRow.1 hx with hx | hx
        · exact h.covered hc c (Or.inl ⟨l, hl, hx⟩)
        · subst ho
          exact hg h0 c hx.symm
      · exact h.covered hc c (Or.inr hx)
  | unsubscribed x l ho h0 hl =>
    refine h.move (update_self _ _ _) (by simp) ?_ rfl rfl id ?_
    · intro l' hl'
      cases hl'
      exact update_self _ _ _
    · intro y he
      simp only [Exposed, update_self, Option.some.injEq] at he
      rcases he with ⟨_, rfl, hy⟩ | hy
      · exact Or.inl ⟨l, hl, (List.mem_filter.1 hy).1⟩
      · exact Or.inr hy
  | refused error h0 => exact h.move h0 (by simp) (fun l hl => nomatch hl) rfl rfl id fun _ => id
  | found ack channels prev h0 hp => exact h.setPhase (by simp) fun l hl => by rw [h0]; exact hl
  | missing ack channels h0 hp => exact h.setPhase (by simp) fun l hl => by rw [h0]; exact hl
  | cleaned ack channels old h0 =>
    refine h.move (update_self _ _ _) (by simp) ?_ rfl rfl id ?_
    · intro l hl
      exact h.registering l (by rw [h0]; exact hl)
    · intro x he
      exact he.imp id fun hx => (Redis.mem_sremChannels.1 hx).1
  | written ack channels old h0 =>
    refine h.move (update_self _ _ _) (by simp) (fun l hl => nomatch hl) rfl rfl id ?_
    intro x he
    rcases he with he | hx
    · exact Or.inl he
    · rcases Redis.mem_saddChannels.1 hx with hx | ⟨-, hx⟩
      · exact Or.inr hx
      · exact Or.inl ⟨channels, h.registering channels (by rw [h0]; rfl), hx⟩
  | responded ack ho h0 =>
    exact h.move (update_self _ _ _) (by simp) (fun l hl => nomatch hl) rfl rfl id fun _ => id
  | closed ho h0 => exact h.setPhase (by simp) fun l hl => nomatch hl
  | forgetting data h0 hp => exact h.setPhase (by simp) fun l hl => nomatch hl
  | skipped h0 => exact h.setPhase (by simp) fun l hl => nomatch hl
  | forgotten data h0 =>
    refine h.move (update_self _ _ _) (by simp) (fun l hl => nomatch hl) rfl rfl id ?_
    intro x he
    exact he.imp id fun hx => (Redis.mem_sremChannels.1 hx).1
  | left h0 =>
    refine h.move (update_self _ _ _) (by simp) (fun l hl => nomatch hl) rfl rfl (fun hc => by simp at hc) ?_
    intro x he
    simp only [Exposed, update_self] at he
    rcases he with ⟨l, hl, -⟩ | hx
    · cases hl
    · exact Or.inr hx
  | beat =>
    have hidx : ∀ x, k ∈ (s.redis.heartbeat s.now k).channel x ↔ k ∈ s.redis.channel x := fun x => by
      rw [Redis.heartbeat_channel]
    refine ⟨fun h0 => ⟨(h.absent h0).1, fun x hx => (h.absent h0).2 x ((hidx x).1 hx)⟩, h.registering, ?_⟩
    exact fun hc c he => h.covered hc c (he.imp id (hidx _).1)

/-- **One step.** A guarded step keeps every connection's subscriptions those of a user who may read. -/
theorem connOk_step {s : St} {o : Op} (h : ∀ k, ConnOk s k) (hg : Guarded s o) (k : ConnId) : ConnOk (step s o) k := by
  by_cases ho : o.conn = some k
  · rcases conn_cases ho with e | ht
    · rw [e]; exact h k
    · exact connOk_trans (h k) hg ht
  · refine (h k).same (step_other ho) ?_
    intro hc c he hr
    by_cases hq : ∃ q, o = .servers q
    · obtain ⟨q, rfl⟩ := hq
      exact hg k c hc he hr
    · rw [step_db fun q e => hq ⟨q, e⟩]
      exact hr

/-! ## Messages -/

/-- an open connection stays the user's, or goes -/
theorem conn_later {s : St} (o : Op) {k : ConnId} (h : s.phase k ≠ .absent) :
    (step s o).phase k ≠ .absent ∧ (step s o).user k = s.user k ∧ ((step s o).conns k = true → s.conns k = true) := by
  by_cases ho : o.conn = some k
  · rcases conn_cases ho with e | ht
    · rw [e]; exact ⟨h, rfl, id⟩
    · generalize step s o = s' at ht ⊢
      cases ht with
      | opened userId ho h0 => exact absurd h0 h
      | refused | beat => exact ⟨h, rfl, id⟩
      | left h0 => exact ⟨by simp, rfl, fun hc => by simp at hc⟩
      | _ => exact ⟨by simp [St.setPhase], rfl, id⟩
  · have hk := step_other (s := s) ho
    exact ⟨by rw [hk.phase]; exact h, hk.user, by rw [hk.conns]; exact id⟩

/-- presence answered the message `m` on channel `c` when the database was `d` -/
structure FromQuery (m : ℕ) (c : Uuid) (d : Db) (s : St) : Prop where
  listed : ∃ ids, (s.messages m).asked = some (c, ids) ∧
    ∀ k ∈ ids, s.phase k ≠ .absent ∧ (s.conns k = true → MayRead d (s.user k) c)
  sent : ∀ f ∈ s.sent, ∀ c', f.out = .newMessage m c' → c' = c ∧ MayRead d f.userId c

theorem fromQuery_step {m : ℕ} {c : Uuid} {d : Db} {s : St} (o : Op) (h : FromQuery m c d s) :
    FromQuery m c d (step s o) := by
  obtain ⟨ids, ha, hids⟩ := h.listed
  refine ⟨?_, ?_⟩
  · obtain ⟨ids', ha', hsub⟩ := asked_step s o ha
    refine ⟨ids', ha', ?_⟩
    intro k hk
    obtain ⟨hphase, hread⟩ := hids k (hsub hk)
    obtain ⟨hphase', huser, hconns⟩ := conn_later o hphase
    exact ⟨hphase', fun hc => huser ▸ hread (hconns hc)⟩
  · intro f hf c' hout
    rcases step_sent s o with e | ⟨g, e, hw⟩
    · exact h.sent f (e ▸ hf) c' hout
    · rw [e] at hf
      rcases mem_snoc.1 hf with hf | rfl
      · exact h.sent f hf c' hout
      · cases hw with
        | ack | error => cases hout
        | push m' cached c'' k rest h0 hk =>
          -- the connection written to is the first of those presence listed
          cases hout
          rw [h0] at ha
          cases ha
          exact ⟨rfl, (hids k List.mem_cons_self).2 hk⟩

/-- the step in which presence answers -/
theorem fromQuery_onset {s : St} {o : Op} {m : ℕ} (hok : ∀ k, ConnOk s k) (hun : Unasked s)
    (h : (s.messages m).asked = none) (h' : ((step s o).messages m).asked ≠ none) :
    ∃ cached c, o = .chat m cached ∧ s.messages m = .fanout c ∧ FromQuery m c s.db (step s o) := by
  obtain ⟨cached, c, rfl, hm, hm'⟩ := asked_onset h h'
  refine ⟨cached, c, rfl, hm, ⟨_, by rw [hm']; rfl, ?_⟩, ?_⟩
  · intro k hk
    have hsame := chat_conn s k m cached
    simp only [step, hsame.phase, hsame.conns, hsame.user]
    refine ⟨fun h0 => ((hok k).absent h0).2 _ hk, fun hc => (hok k).covered hc c (Or.inr hk)⟩
  · intro f hf c' hout
    rcases step_sent s (.chat m cached) with e | ⟨g, -, hw⟩
    · exact absurd hout (hun m h f (e ▸ hf) c')
    · cases hw with
      | push _ _ c'' k rest h0 hk => rw [hm] at h0; cases h0

/-- every message written on a channel went to a user who was allowed to read it when presence was asked -/
def Confidential (ops : List Op) : Prop :=
  ∀ f ∈ (reached ops).sent, ∀ m c, f.out = .newMessage m c →
    ∃ a b cached, ops = a ++ Op.chat m cached :: b ∧ (reached a).messages m = .fanout c ∧ MayRead (reached a).db f.userId c

/-- **Confidentiality of the push path.** In a guarded run, a message is written only to connections of users who were
allowed to read its channel at the moment presence was asked. -/
theorem confidential_when_guarded (ops : List Op) (hg : Along step Guarded init ops) : Confidential ops := by
  intro f hf m c hout
  have hun : ∀ a, Unasked (reached a) := run_inv' (fun s o => unasked_step o) unasked_init
  have hasked : ((reached ops).messages m).asked ≠ none := fun e => hun ops m e f hf c hout
  obtain ⟨a, o, b, rfl, hna, hall⟩ :=
    onset (P := fun s : St => (s.messages m).asked ≠ none) (fun h => h rfl) hasked
  have hga := (along_append.1 hg).1
  have hok : ∀ k, ConnOk (reached a) k := run_inv (fun s o => connOk_step) connOk_init hga
  have hnext := hall [] b rfl
  rw [run_snoc] at hnext
  obtain ⟨cached, c', rfl, hm, hq⟩ := fromQuery_onset hok (hun a) (not_not.1 hna) hnext
  have hend : FromQuery m c' (reached a).db (reached (a ++ Op.chat m cached :: b)) := by
    rw [show reached (a ++ Op.chat m cached :: b) = run step (step (reached a) (.chat m cached)) b from run_append _ _ _ _]
    exact run_inv' (fun s o => fromQuery_step o) hq b
  obtain ⟨rfl, hread⟩ := hend.sent f hf c hout
  exact ⟨a, b, cached, rfl, hm, hread⟩

/-! ## A reader and an outsider -/

/-- a user opens connection 1 and subscribes it to channel 3; user 7 posts there -/
def posting (reader : Uuid) : List Op :=
  homeRequests.map Op.servers ++
    [Op.open 1 reader, .advance 1, .advance 1, .advance 1, .frame 1 (.subscribe (Servers.Uuid.toString 3)), .advance 1,
      .advance 1, .advance 1, .advance 1, .create 0 7 3, .chat 0 none] ++
    Op.chat 0 none :: [.chat 0 none, .chat 0 none, .chat 0 none]

theorem posting_sent {reader : Uuid} (h : reader = 7 ∨ reader = 8) :
    (⟨1, reader, .newMessage 0 3⟩ : Frame) ∈ (reached (posting reader)).sent := by
  rcases h with rfl | rfl
  · rw [posting, home_run _ (by decide +kernel) (by decide +kernel)]
    decide +kernel
  · rw [posting, home_run _ (by decide +kernel) (by decide +kernel)]
    decide +kernel

/-- the owner subscribes to the channel and reads what is posted -/
theorem confidential_owner : Confidential (posting 7) ∧ ⟨1, 7, .newMessage 0 3⟩ ∈ (reached (posting 7)).sent := by
  refine ⟨confidential_when_guarded _ ?_, posting_sent (Or.inl rfl)⟩
  have hnone : ∀ s : St, (∀ k, s.conns k = false) → ∀ q, Guarded s (.servers q) := fun s hs q k c hc => by
    rw [hs] at hc
    cases hc
  refine ⟨hnone _ (fun _ => rfl) _, hnone _ (fun _ => rfl) _, trivial, trivial, trivial, trivial, ?_, trivial, trivial,
    trivial, trivial, trivial, trivial, trivial, trivial, trivial, trivial, trivial⟩
  rintro - c hc
  unfold MayRead
  rw [← hc]
  exact Servers.checkPerm_allowed.2 ⟨3, 0, .read, ⟨by decide, by decide, by decide⟩, by decide, by decide⟩

theorem MayRead.member {db : Db} {u c : Uuid} (h : MayRead db u c) :
    ∃ x ∈ db.memberships, x.userId = Servers.Uuid.toString u := by
  obtain ⟨_, s, _, -, hm, -⟩ := Servers.checkPerm_allowed.1 h
  exact ⟨_, hm, rfl⟩

/-- **A user who never joined reads along.** User 8 is a member of no server, subscribes, and is sent the message. -/
theorem outsider_receives : ¬ Confidential (posting 8) := by
  intro h
  obtain ⟨a, b, cached, hab, -, hread⟩ := h _ (posting_sent (Or.inr rfl)) 0 3 rfl
  obtain ⟨x, hx, hu⟩ := hread.member
  rw [reached_db] at hx
  have hpre : a.filterMap Op.request ∈ homeRequests.inits := by
    refine (List.mem_inits _ _).2 ⟨b.filterMap Op.request, ?_⟩
    have := congrArg (List.filterMap Op.request) hab
    rw [List.filterMap_append] at this
    exact this.symm
  have hall : ∀ l ∈ homeRequests.inits, ∀ x ∈ (Servers.reached l).memberships,
      x.userId ≠ Servers.Uuid.toString 8 := by decide
  exact hall _ hpre x hx hu

end Concordia.Push
