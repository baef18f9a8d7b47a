/-
The sorted set of a channel's users against their sessions, over whole runs of the voice service.

- `score`, `hgetall`: what the two kinds of keys say of a user; `enter_spec`, `score_zrem`, `hgetall_delete`: how the writes
  change them.
- `Agree`: a user is in the sorted set exactly if the session exists, with the time of the session, which is the one that
  the user's latest join was answered with.
- `Synchronous`: a user with a session joins again only at the time of the session, no socket of a user with a session is
  hung up, and no session expires before its channel's set.
- `agree_iff`: the stores agree in every state of a run exactly if the run is synchronous.
-/
import Concordia.Voice.Authorization

namespace Concordia.Voice

open Concordia.Lib

/-! ## Reading and writing the stores -/

/-- ZSCORE -/
def St.score (s : St) (channelId userId : String) : Option ℕ := (s.members channelId).bind (·.value.get userId)

theorem mem_zrange {s : St} {c u : String} {t : ℕ} : (u, t) ∈ s.zrange c ↔ s.score c u = some t := by
  unfold St.zrange St.score byScore
  rw [List.mem_insertionSort, Dict.mem_items]
  cases s.members c <;> simp

theorem score_zrem (s : St) (c u c' u' : String) :
    (s.zrem c u).score c' u' = if c' = c ∧ u' = u then none else s.score c' u' := by
  unfold St.zrem St.score
  by_cases hc : c' = c
  swap
  · simp [hc]
  subst hc
  cases s.members c' with
  | none => simp
  | some k =>
    simp only [Function.update_self, Option.bind_some]
    split_ifs with hempty hu hu
    · rfl
    · -- the user is not among the others, of whom nobody is left
      have hne : u' ≠ u := fun heq => hu ⟨trivial, heq⟩
      rw [Option.bind_none, ← Dict.get_pop_of_ne (d := k.value) hne]
      exact (Dict.eq_empty_iff.1 (List.isEmpty_iff.1 hempty) u').symm
    · simp [hu.2]
    · have hne : u' ≠ u := fun heq => hu ⟨trivial, heq⟩
      simp [hne]

theorem expiresAt_zrem {s : St} {c u c' : String} {k : Key (Dict String ℕ)} (h : (s.zrem c u).members c' = some k) :
    ∃ k', s.members c' = some k' ∧ k'.expiresAt = k.expiresAt := by
  unfold St.zrem at h
  by_cases hc : c' = c
  · subst hc
    simp only [Function.update_self] at h
    obtain ⟨k', hk', h⟩ := Option.bind_eq_some_iff.1 h
    split_ifs at h
    cases h
    exact ⟨k', hk', rfl⟩
  · simp only [Function.update_of_ne hc] at h
    exact ⟨k, h, rfl⟩

theorem hgetall_delete (s : St) (c u c' u' : String) :
    (s.delete c u).hgetall c' u' = if c' = c ∧ u' = u then none else s.hgetall c' u' := by
  unfold St.delete St.hgetall
  by_cases h : (c', u') = (c, u)
  · rw [h]
    cases h
    simp
  · rw [if_neg (by simpa using h)]
    simp only [Function.update_of_ne h]

/-- **A join in the stores.** The session is the user's own or a new one, and its key and the channel's begin to expire anew. -/
structure Entered (s : St) (c u : String) (session : Session) (s' : St) : Prop where
  session_eq : session = (s.hgetall c u).getD ⟨s.drawn, s.now⟩
  sessions_self : s'.sessions (c, u) = some ⟨session, some (s.now + sessionTtl)⟩
  sessions_other : ∀ x ≠ (c, u), s'.sessions x = s.sessions x
  score : ∀ c' u', s'.score c' u' = if c' = c ∧ u' = u then some s.now else s.score c' u'
  members_self : ∃ users, s'.members c = some ⟨users, some (s.now + sessionTtl)⟩
  members_other : ∀ c' ≠ c, s'.members c' = s.members c'

theorem Entered.hgetall_self {s s' : St} {c u : String} {session : Session} (h : Entered s c u session s') :
    s'.hgetall c u = some session := by
  unfold St.hgetall
  rw [h.sessions_self]
  rfl

theorem Entered.hgetall_of_ne {s s' : St} {c u c' u' : String} {session : Session} (h : Entered s c u session s')
    (hne : (c', u') ≠ (c, u)) : s'.hgetall c' u' = s.hgetall c' u' := by
  unfold St.hgetall
  rw [h.sessions_other _ hne]

theorem entered_of_session {s : St} {c u : String} {x : Session} {expiresAt : Option ℕ}
    (h : s.sessions (c, u) = some ⟨x, expiresAt⟩) :
    let s' := ((s.zadd c u s.now).expireMembers c).expireSession c u
    s'.sessions (c, u) = some ⟨x, some (s.now + sessionTtl)⟩ ∧ (∀ y ≠ (c, u), s'.sessions y = s.sessions y) ∧
      (∀ c' u', s'.score c' u' = if c' = c ∧ u' = u then some s.now else s.score c' u') ∧
      (∃ users, s'.members c = some ⟨users, some (s.now + sessionTtl)⟩) ∧ ∀ c' ≠ c, s'.members c' = s.members c' := by
  intro s'
  refine ⟨?_, ?_, ?_, ?_, ?_⟩
  · simp [s', St.expireSession, St.expireMembers, St.zadd, h]
  · intro y hy
    simp [s', St.expireSession, St.expireMembers, St.zadd, hy]
  · intro c' u'
    by_cases hc : c' = c
    · subst hc
      by_cases hu : u' = u
      · subst hu
        simp [s', St.score, St.expireSession, St.expireMembers, St.zadd]
      · cases hm : s.members c' <;> simp [s', St.score, St.expireSession, St.expireMembers, St.zadd, hm, hu]
    · simp [s', St.score, St.expireSession, St.expireMembers, St.zadd, hc]
  · simp [s', St.expireSession, St.expireMembers, St.zadd]
  · intro c' hc
    simp [s', St.expireSession, St.expireMembers, St.zadd, hc]

theorem enter_spec (s : St) (c u : String) : Entered s c u (s.enter c u).1 (s.enter c u).2 := by
  unfold St.enter
  cases h : s.hgetall c u with
  | some existing =>
    obtain ⟨k, hk, rfl⟩ := Option.map_eq_some_iff.1 h
    obtain ⟨h1, h2, h3, h4, h5⟩ := @entered_of_session s c u k.value k.expiresAt hk
    exact ⟨by rw [h]; rfl, h1, h2, h3, h4, h5⟩
  | none =>
    have hset : ({ s.hset c u ⟨s.drawn, s.now⟩ with drawn := s.drawn + 1 } : St).sessions (c, u) =
        some ⟨⟨s.drawn, s.now⟩, (s.sessions (c, u)).bind Key.expiresAt⟩ := Function.update_self _ _ _
    obtain ⟨h1, h2, h3, h4, h5⟩ := entered_of_session hset
    refine ⟨by rw [h]; rfl, h1, ?_, h3, h4, h5⟩
    intro y hy
    rw [h2 y hy]
    exact Function.update_of_ne hy _ _

/-! ## Agreement -/

/-- whose joining, leaving or disconnecting an event is -/
def Event.concerns : Event → Option (String × String)
  | .joined channelId userId _ => some (channelId, userId)
  | .left channelId userId => some (channelId, userId)
  | .disconnected channelId userId => some (channelId, userId)
  | _ => none

/-- the latest joining, leaving or disconnecting of a user on a channel -/
def latest (log : List Event) (channelId userId : String) : Option Event :=
  log.reverse.find? fun e => e.concerns = some (channelId, userId)

structure Agree (s : St) : Prop where
  stores : ∀ c u t, s.score c u = some t ↔ ∃ session, s.hgetall c u = some session ∧ session.joinedAt = t
  /-- what `get_participants` reports is what the user's latest join answered, and the user has not gone since -/
  reported : ∀ env c authorization entries, participants env s c authorization true = .ok entries →
    ∀ e ∈ entries, latest s.log c e.userId = some (.joined c e.userId e.joinedAt)

/-- an operation that keeps the two stores together -/
structure Synchronous (env : Env) (s : St) (o : Op) : Prop where
  join : ∀ c authorization failing u session, o = .join c authorization true failing →
    env.getUserId s.now authorization = some u → s.hgetall c u = some session → session.joinedAt = s.now
  hangup : ∀ t, s.turn o = some t → t.after = .disconnected → s.hgetall t.channelId t.userId = none
  tick : ∀ elapsed, o = .tick elapsed → ∀ c u k, s.sessions (c, u) = some k → k.expired (s.now + elapsed) = true →
    ∀ k', s.members c = some k' → k'.expired (s.now + elapsed) = true

/-- `Agree.stores` as an equation -/
def Stores (s : St) : Prop := ∀ c u, s.score c u = (s.hgetall c u).map Session.joinedAt

theorem stores_iff {s : St} : Stores s ↔
    ∀ c u t, s.score c u = some t ↔ ∃ session, s.hgetall c u = some session ∧ session.joinedAt = t := by
  refine forall₂_congr fun c u => ⟨?_, ?_⟩
  · intro h t
    rw [h, Option.map_eq_some_iff]
  · intro h
    refine Option.ext fun t => ?_
    rw [h t, Option.map_eq_some_iff]

/-- the clocks of the keys, and the sessions against the answers -/
structure Kept (s : St) : Prop where
  session : ∀ c u k, s.sessions (c, u) = some k → ∃ d, k.expiresAt = some d ∧ s.now < d ∧ d ≤ s.now + sessionTtl
  members : ∀ c k, s.members c = some k → ∃ d, k.expiresAt = some d ∧
    ∀ u k' d', s.sessions (c, u) = some k' → k'.expiresAt = some d' → d' ≤ d
  answered : ∀ c u session, s.hgetall c u = some session → latest s.log c u = some (.joined c u session.joinedAt)

theorem latest_append {log new : List Event} {c u : String} (h : ∀ e ∈ new, e.concerns ≠ some (c, u)) :
    latest (log ++ new) c u = latest log c u := by
  unfold latest
  rw [List.reverse_append, List.find?_append, List.find?_eq_none.2, Option.none_or]
  intro e he
  simpa using h e (List.mem_reverse.1 he)

theorem latest_snoc_self {log : List Event} {e : Event} {c u : String} (h : e.concerns = some (c, u)) :
    latest (log ++ [e]) c u = some e := by
  unfold latest
  simp [h]

theorem agree_of_stores {s : St} (h : Stores s) (hk : Kept s) : Agree s := by
  refine ⟨stores_iff.1 h, ?_⟩
  intro env c authorization entries hok e he
  unfold participants at hok
  cases hu : env.getUserId s.now authorization with
  | none =>
    rw [hu] at hok
    cases hok
  | some u =>
    rw [hu] at hok
    cases hok
    obtain ⟨p, hp, rfl⟩ := List.mem_map.1 he
    obtain ⟨session, hsession, hat⟩ := (stores_iff.1 h c p.1 p.2).1 (mem_zrange.1 hp)
    rw [← hat]
    exact hk.answered c p.1 session hsession

/-! ## Steps -/

section Steps

variable {env : Env} {s s' : St} {c u : String}

theorem Stores.congr (h : Stores s) (hmembers : s'.members = s.members) (hsessions : s'.sessions = s.sessions) :
    Stores s' := by
  intro c u
  unfold St.score St.hgetall
  rw [hmembers, hsessions]
  exact h c u

theorem Kept.congr (h : Kept s) (hmembers : s'.members = s.members) (hsessions : s'.sessions = s.sessions)
    (hnow : s'.now = s.now) (hlog : ∀ c u, latest s'.log c u = latest s.log c u) : Kept s' := by
  refine ⟨?_, ?_, ?_⟩
  · rw [hsessions, hnow]
    exact h.session
  · rw [hsessions, hmembers]
    exact h.members
  · intro c u session hsession
    rw [hlog]
    refine h.answered c u session ?_
    unfold St.hgetall at hsession ⊢
    rwa [hsessions] at hsession

/-- a user's keys are removed, or the user was without a session -/
theorem Kept.remove (h : Kept s) (hnow : s'.now = s.now)
    (hsessions : ∀ c' u' k, s'.sessions (c', u') = some k → (c', u') ≠ (c, u) ∧ s.sessions (c', u') = some k)
    (hmembers : ∀ c' k, s'.members c' = some k → ∃ k', s.members c' = some k' ∧ k'.expiresAt = k.expiresAt)
    (hlog : ∀ c' u', (c', u') ≠ (c, u) → latest s'.log c' u' = latest s.log c' u') : Kept s' := by
  refine ⟨?_, ?_, ?_⟩
  · intro c' u' k hk
    rw [hnow]
    exact h.session c' u' k (hsessions c' u' k hk).2
  · intro c' k hk
    obtain ⟨k₀, hk₀, hsame⟩ := hmembers c' k hk
    obtain ⟨d, hd, hle⟩ := h.members c' k₀ hk₀
    exact ⟨d, hsame ▸ hd, fun u' k' d' hk' hd' => hle u' k' d' (hsessions c' u' k' hk').2 hd'⟩
  · intro c' u' session hsession
    obtain ⟨k, hk, rfl⟩ := Option.map_eq_some_iff.1 hsession
    obtain ⟨hne, hold⟩ := hsessions c' u' k hk
    rw [hlog c' u' hne]
    exact h.answered c' u' k.value (Option.map_eq_some_iff.2 ⟨k, hold, rfl⟩)

/-- events that are sends or checks concern nobody -/
theorem broadcast_concerns {message : Value} {exclude : String} {failing : List ℕ} (c' u' : String) :
    latest (s.broadcast message c exclude failing).log c' u' = latest s.log c' u' := by
  refine latest_append fun e he => ?_
  obtain ⟨p, -, rfl⟩ := List.mem_map.1 he
  exact nofun

/-- **A join.** -/
theorem join_spec {authorization : Option String} (hu : env.getUserId s.now authorization = some u) (failing : List ℕ) :
    ∃ session, Entered s c u session (join env s c authorization true failing).2 ∧
      (join env s c authorization true failing).2.now = s.now ∧
      latest (join env s c authorization true failing).2.log c u = some (.joined c u session.joinedAt) ∧
      ∀ c' u', (c', u') ≠ (c, u) → latest (join env s c authorization true failing).2.log c' u' = latest s.log c' u' := by
  have hent := enter_spec (s.record [.checked c u true]) c u
  obtain ⟨-, -, hnow, hlog⟩ := enter_frame (s.record [.checked c u true]) c u
  have hchecked : ∀ c' u', latest ((s.record [.checked c u true]).enter c u).2.log c' u' = latest s.log c' u' := by
    intro c' u'
    rw [hlog]
    exact latest_append (by simp [Event.concerns])
  unfold join
  rw [hu]
  refine ⟨_, ⟨hent.session_eq, hent.sessions_self, hent.sessions_other, hent.score, hent.members_self,
    hent.members_other⟩, hnow, latest_snoc_self rfl, ?_⟩
  intro c' u' hne
  refine (latest_append (by simpa [Event.concerns] using fun h1 h2 => hne (by rw [h1, h2]))).trans ?_
  rw [broadcast_concerns]
  exact hchecked c' u'

theorem stores_join_iff {session : Session} (h : Stores s) (hent : Entered s c u session s') :
    Stores s' ↔ session.joinedAt = s.now := by
  refine ⟨?_, ?_⟩
  · intro h'
    have heq := h' c u
    rw [hent.score, if_pos ⟨rfl, rfl⟩, hent.hgetall_self] at heq
    exact (Option.some.inj heq).symm
  · intro hnow c' u'
    rw [hent.score]
    split_ifs with hcu
    · obtain ⟨rfl, rfl⟩ := hcu
      rw [hent.hgetall_self, ← hnow]
      rfl
    · rw [hent.hgetall_of_ne (by simpa using hcu)]
      exact h c' u'

theorem kept_join {session : Session} (h : Kept s) (hent : Entered s c u session s') (hnow : s'.now = s.now)
    (hself : latest s'.log c u = some (.joined c u session.joinedAt))
    (hother : ∀ c' u', (c', u') ≠ (c, u) → latest s'.log c' u' = latest s.log c' u') : Kept s' := by
  have hpos : 0 < sessionTtl := by decide
  refine ⟨?_, ?_, ?_⟩
  · intro c' u' k hk
    rw [hnow]
    by_cases hcu : (c', u') = (c, u)
    · rw [hcu, hent.sessions_self] at hk
      cases hk
      exact ⟨_, rfl, Nat.lt_add_of_pos_right hpos, le_rfl⟩
    · rw [hent.sessions_other _ hcu] at hk
      exact h.session c' u' k hk
  · intro c' k hk
    by_cases hc : c' = c
    · subst hc
      obtain ⟨users, husers⟩ := hent.members_self
      rw [husers] at hk
      cases hk
      refine ⟨_, rfl, ?_⟩
      -- no session of the channel expires later than one that begins now
      intro u' k' d' hk' hd'
      by_cases hcu : (c', u') = (c', u)
      · rw [hcu, hent.sessions_self] at hk'
        cases hk'
        exact (Option.some.inj hd').ge
      · rw [hent.sessions_other _ hcu] at hk'
        obtain ⟨d, hd, -, hle⟩ := h.session c' u' k' hk'
        exact (Option.some.inj (hd.symm.trans hd')) ▸ hle
    · rw [hent.members_other c' hc] at hk
      obtain ⟨d, hd, hle⟩ := h.members c' k hk
      refine ⟨d, hd, fun u' k' d' hk' hd' => ?_⟩
      rw [hent.sessions_other (c', u') (by simp [hc])] at hk'
      exact hle u' k' d' hk' hd'
  · intro c' u' x hx
    by_cases hcu : (c', u') = (c, u)
    · cases hcu
      rw [hent.hgetall_self] at hx
      cases hx
      exact hself
    · rw [hother c' u' hcu]
      rw [hent.hgetall_of_ne hcu] at hx
      exact h.answered c' u' x hx

theorem sessions_delete {c' u' : String} {k : Key Session} (h : (s.delete c u).sessions (c', u') = some k) :
    (c', u') ≠ (c, u) ∧ s.sessions (c', u') = some k := by
  unfold St.delete at h
  by_cases hcu : (c', u') = (c, u)
  · rw [hcu] at h
    simp at h
  · exact ⟨hcu, by simpa only [Function.update_of_ne hcu] using h⟩

/-- **A leave** takes the user out of both stores. -/
theorem leave_keeps (h : Kept s) (hst : Stores s) (authorization : Option String) (failing : List ℕ) :
    Kept (leave env s c authorization failing).2 ∧ Stores (leave env s c authorization failing).2 := by
  unfold leave
  cases env.getUserId s.now authorization with
  | none => exact ⟨h, hst⟩
  | some u =>
    refine ⟨?_, ?_⟩
    · refine h.remove (c := c) (u := u) rfl (fun c' u' k hk => sessions_delete hk) (fun c' k hk => expiresAt_zrem hk) ?_
      intro c' u' hne
      refine (latest_append (by simpa [Event.concerns] using fun h1 h2 => hne (by rw [h1, h2]))).trans ?_
      exact broadcast_concerns c' u'
    · intro c' u'
      refine (score_zrem s c u c' u').trans ?_
      refine Eq.trans ?_ (congrArg (Option.map Session.joinedAt) (hgetall_delete s c u c' u').symm)
      split_ifs
      · rfl
      · exact hst c' u'

/-- the stores after a socket has disconnected -/
theorem stores_disconnected_iff (hst : Stores s) (k : ℕ) :
    Stores (s.finish k c u .disconnected) ↔ s.hgetall c u = none := by
  have hscore : ∀ c' u', (s.finish k c u .disconnected).score c' u' = if c' = c ∧ u' = u then none else s.score c' u' :=
    score_zrem s c u
  refine ⟨?_, ?_⟩
  · intro h'
    have heq := h' c u
    rw [hscore, if_pos ⟨rfl, rfl⟩] at heq
    exact Option.map_eq_none_iff.1 heq.symm
  · intro hnone c' u'
    rw [hscore]
    split_ifs with hcu
    · obtain ⟨rfl, rfl⟩ := hcu
      exact (congrArg (Option.map Session.joinedAt) hnone).symm
    · exact hst c' u'

theorem kept_disconnected (h : Kept s) (hnone : s.hgetall c u = none) (k : ℕ) : Kept (s.finish k c u .disconnected) := by
  refine h.remove (c := c) (u := u) rfl ?_ (fun c' k hk => expiresAt_zrem hk) ?_
  · intro c' u' k hk
    refine ⟨?_, hk⟩
    intro hcu
    cases hcu
    have hsome : s.hgetall c u = some k.value := Option.map_eq_some_iff.2 ⟨k, hk, rfl⟩
    rw [hnone] at hsome
    cases hsome
  · intro c' u' hne
    exact latest_append (by simpa [Event.concerns] using fun h1 h2 => hne (by rw [h1, h2]))

theorem sessions_tick {elapsed : ℕ} {x : String × String} {k : Key Session} :
    (s.tick elapsed).sessions x = some k ↔ s.sessions x = some k ∧ k.expired (s.now + elapsed) = false := by
  unfold St.tick
  rw [Option.filter_eq_some_iff, Bool.not_eq_true']

theorem members_tick {elapsed : ℕ} {k : Key (Dict String ℕ)} :
    (s.tick elapsed).members c = some k ↔ s.members c = some k ∧ k.expired (s.now + elapsed) = false := by
  unfold St.tick
  rw [Option.filter_eq_some_iff, Bool.not_eq_true']

theorem kept_tick (h : Kept s) (elapsed : ℕ) : Kept (s.tick elapsed) := by
  refine ⟨?_, ?_, ?_⟩
  · intro c u k hk
    obtain ⟨hk, hexp⟩ := sessions_tick.1 hk
    obtain ⟨d, hd, -, hle⟩ := h.session c u k hk
    have hlives : s.now + elapsed < d := by simpa [Key.expired, hd] using hexp
    exact ⟨d, hd, hlives, hle.trans (Nat.add_le_add_right (Nat.le_add_right _ _) _)⟩
  · intro c k hk
    obtain ⟨d, hd, hle⟩ := h.members c k (members_tick.1 hk).1
    exact ⟨d, hd, fun u k' d' hk' hd' => hle u k' d' (sessions_tick.1 hk').1 hd'⟩
  · intro c u session hsession
    obtain ⟨k, hk, rfl⟩ := Option.map_eq_some_iff.1 hsession
    exact h.answered c u k.value (Option.map_eq_some_iff.2 ⟨k, (sessions_tick.1 hk).1, rfl⟩)

theorem hgetall_tick (elapsed : ℕ) (c u : String) : (s.tick elapsed).hgetall c u =
    ((s.sessions (c, u)).filter fun k => !k.expired (s.now + elapsed)).map Key.value := rfl

theorem score_tick (elapsed : ℕ) (c u : String) : (s.tick elapsed).score c u =
    ((s.members c).filter fun k => !k.expired (s.now + elapsed)).bind (·.value.get u) := rfl

/-- a channel's set outlives the sessions there -/
theorem Kept.members_live (h : Kept s) {k : Key Session} {k' : Key (Dict String ℕ)} {later : ℕ}
    (hk : s.sessions (c, u) = some k) (hk' : s.members c = some k') (hlives : k.expired later = false) :
    k'.expired later = false := by
  obtain ⟨d, hd, -⟩ := h.session c u k hk
  obtain ⟨d', hd', hle⟩ := h.members c k' hk'
  have hlt : later < d := by simpa [Key.expired, hd] using hlives
  simpa [Key.expired, hd'] using hlt.trans_le (hle u k d hk hd)

/-- **Time passes** for both stores alike, exactly if the set of a channel does not outlive a session there. -/
theorem stores_tick_iff (h : Kept s) (hst : Stores s) (elapsed : ℕ) : Stores (s.tick elapsed) ↔
    ∀ c u k, s.sessions (c, u) = some k → k.expired (s.now + elapsed) = true →
      ∀ k', s.members c = some k' → k'.expired (s.now + elapsed) = true := by
  refine ⟨?_, ?_⟩
  · intro h' c u k hk hexp k' hk'
    by_contra hlives
    have hlives : k'.expired (s.now + elapsed) = false := by simpa using hlives
    have hbefore := hst c u
    have hafter := h' c u
    -- the set still has the user, whose session is gone
    rw [score_tick, hgetall_tick, hk', hk] at hafter
    unfold St.score St.hgetall at hbefore
    rw [hk', hk] at hbefore
    simp only [Option.bind_some, Option.map_some] at hbefore
    simp [Option.filter_some, hlives, hexp, hbefore] at hafter
  · intro hall c u
    have hbefore := hst c u
    unfold St.score St.hgetall at hbefore
    rw [score_tick, hgetall_tick]
    cases hk' : s.members c with
    | none =>
      rw [hk'] at hbefore
      cases hk : s.sessions (c, u) with
      | none => rfl
      | some k =>
        rw [hk] at hbefore
        cases hbefore
    | some k' =>
      rw [hk'] at hbefore
      simp only [Option.bind_some] at hbefore
      cases hk : s.sessions (c, u) with
      | none =>
        rw [hk] at hbefore
        cases hexp : k'.expired (s.now + elapsed) <;> simp [Option.filter_some, hexp, hbefore]
      | some k =>
        rw [hk] at hbefore
        cases hexp : k.expired (s.now + elapsed) with
        | true =>
          have hexp' := hall c u k hk hexp k' hk'
          simp [Option.filter_some, hexp, hexp']
        | false =>
          have hlives := h.members_live hk hk' hexp
          simp [Option.filter_some, hexp, hlives, hbefore]

/-! ## Runs -/

theorem synchronous_turn {o : Op} {t : Turn} (ht : s.turn o = some t) :
    Synchronous env s o ↔ (t.after = .disconnected → s.hgetall t.channelId t.userId = none) := by
  refine ⟨fun h => h.hangup t ht, fun h => ⟨?_, ?_, ?_⟩⟩
  · rintro c authorization failing u session rfl
    cases ht
  · intro t' ht'
    rw [ht] at ht'
    cases ht'
    exact h
  · rintro elapsed rfl
    cases ht

theorem synchronous_join {authorization : Option String} {failing : List ℕ} {session : Session}
    (hu : env.getUserId s.now authorization = some u) (hsession : session = (s.hgetall c u).getD ⟨s.drawn, s.now⟩) :
    Synchronous env s (.join c authorization true failing) ↔ session.joinedAt = s.now := by
  refine ⟨?_, ?_⟩
  · intro h
    cases hx : s.hgetall c u with
    | none => rw [hsession, hx]; rfl
    | some x =>
      rw [hsession, hx]
      exact h.join c authorization failing u x rfl hu hx
  · intro hnow
    refine ⟨?_, nofun, nofun⟩
    rintro c' authorization' failing' u' x ⟨⟩ hu' hx
    rw [hu] at hu'
    cases hu'
    rw [hsession, hx] at hnow
    exact hnow

/-- the messages of a turn concern nobody's joining or leaving -/
theorem latest_turn (t : Turn) (c u : String) :
    latest (s.record (t.sent.map (.sent t.channelId))).log c u = latest s.log c u := by
  refine latest_append fun e he => ?_
  obtain ⟨x, -, rfl⟩ := List.mem_map.1 he
  exact nofun

/-- nobody joins or hangs up, and no time passes -/
theorem synchronous_quiet {o : Op} (hturn : s.turn o = none)
    (hjoin : ∀ c authorization failing, o ≠ .join c authorization true failing) (htick : ∀ elapsed, o ≠ .tick elapsed) :
    Synchronous env s o := by
  refine ⟨?_, ?_, ?_⟩
  · intro c authorization failing u session heq
    exact absurd heq (hjoin c authorization failing)
  · intro t ht
    rw [hturn] at ht
    cases ht
  · intro elapsed heq
    exact absurd heq (htick elapsed)

theorem synchronous_unknown {authorization : Option String} {allowed : Bool} {failing : List ℕ}
    (hu : env.getUserId s.now authorization = none) : Synchronous env s (.join c authorization allowed failing) := by
  refine ⟨?_, ?_, ?_⟩
  · rintro c' authorization' failing' u session ⟨⟩ hu'
    rw [hu] at hu'
    cases hu'
  · intro t ht
    cases ht
  · intro elapsed heq
    cases heq

theorem synchronous_tick {elapsed : ℕ} : Synchronous env s (.tick elapsed) ↔
    ∀ c u k, s.sessions (c, u) = some k → k.expired (s.now + elapsed) = true →
      ∀ k', s.members c = some k' → k'.expired (s.now + elapsed) = true := by
  refine ⟨fun h => h.tick elapsed rfl, fun hall => ⟨?_, ?_, ?_⟩⟩
  · intro c authorization failing u session heq
    cases heq
  · intro t ht
    cases ht
  · rintro elapsed' ⟨⟩
    exact hall

/-- a turn of a handler -/
theorem stores_turn_iff (h : Kept s) (hst : Stores s) {o : Op} {t : Turn} (ht : s.turn o = some t) :
    (Stores (step env s o) ↔ Synchronous env s o) ∧ (Synchronous env s o → Kept (step env s o)) := by
  rw [step_of_turn ht, synchronous_turn ht]
  have hsent : Kept (s.record (t.sent.map (.sent t.channelId))) := h.congr rfl rfl rfl (latest_turn t)
  have hstsent : Stores (s.record (t.sent.map (.sent t.channelId))) := hst.congr rfl rfl
  unfold St.take
  cases t.after with
  | listening => exact ⟨iff_of_true hstsent (by simp), fun _ => hsent⟩
  | disconnected =>
    rw [stores_disconnected_iff hstsent]
    exact ⟨⟨fun hnone _ => hnone, fun hsync => hsync rfl⟩, fun hsync => kept_disconnected hsent (hsync rfl) t.socket⟩
  | crashed => exact ⟨iff_of_true (hstsent.congr rfl rfl) (by simp), fun _ => hsent.congr rfl rfl rfl fun _ _ => rfl⟩

theorem stores_join_step_iff (h : Kept s) (hst : Stores s) (c : String) (authorization : Option String) (allowed : Bool)
    (failing : List ℕ) : (Stores (step env s (.join c authorization allowed failing)) ↔
      Synchronous env s (.join c authorization allowed failing)) ∧
        (Synchronous env s (.join c authorization allowed failing) →
          Kept (step env s (.join c authorization allowed failing))) := by
  cases hu : env.getUserId s.now authorization with
  | none =>
    have hsame : step env s (.join c authorization allowed failing) = s := by
      simp only [step, join, hu]
    rw [hsame]
    exact ⟨iff_of_true hst (synchronous_unknown hu), fun _ => h⟩
  | some u =>
    cases allowed with
    | false =>
      have hrefused : step env s (.join c authorization false failing) = s.record [.checked c u false] := by
        simp only [step, join, hu]
        rfl
      rw [hrefused]
      exact ⟨iff_of_true (hst.congr rfl rfl) (synchronous_quiet rfl (by simp) (by simp)),
        fun _ => h.congr rfl rfl rfl fun _ _ => latest_append (by simp [Event.concerns])⟩
    | true =>
      obtain ⟨session, hent, hnow, hself, hother⟩ := @join_spec env s c u authorization hu failing
      exact ⟨(stores_join_iff hst hent).trans (synchronous_join hu hent.session_eq).symm,
        fun _ => kept_join h hent hnow hself hother⟩

theorem stores_step_iff (h : Kept s) (hst : Stores s) (o : Op) :
    (Stores (step env s o) ↔ Synchronous env s o) ∧ (Synchronous env s o → Kept (step env s o)) := by
  cases ht : s.turn o with
  | some t => exact stores_turn_iff h hst ht
  | none =>
    cases o with
    | join c authorization allowed failing => exact stores_join_step_iff h hst c authorization allowed failing
    | leave c authorization failing =>
      obtain ⟨hk', hst'⟩ := @leave_keeps env s c h hst authorization failing
      exact ⟨iff_of_true hst' (synchronous_quiet ht (by simp) (by simp)), fun _ => hk'⟩
    | connect c authorization token =>
      obtain ⟨hmembers, hsessions, hnow, hlog⟩ := connect_frame env s c authorization token
      exact ⟨iff_of_true (hst.congr hmembers hsessions) (synchronous_quiet ht (by simp) (by simp)),
        fun _ => h.congr hmembers hsessions hnow fun c u => by simp only [step, hlog]⟩
    | tick elapsed => exact ⟨(stores_tick_iff h hst elapsed).trans synchronous_tick.symm, fun _ => kept_tick h elapsed⟩
    | receive | hangup =>
      simp only [step, ht]
      exact ⟨iff_of_true hst (synchronous_quiet ht (by simp) (by simp)), fun _ => h⟩

theorem agree_step_iff (h : Kept s) (hagree : Agree s) (o : Op) : Agree (step env s o) ↔ Synchronous env s o := by
  obtain ⟨hiff, hkept⟩ := @stores_step_iff env s h (stores_iff.2 hagree.stores) o
  exact ⟨fun h' => hiff.1 (stores_iff.2 h'.stores), fun hsync => agree_of_stores (hiff.2 hsync) (hkept hsync)⟩

end Steps

theorem kept_start (now : ℕ) : Kept (start now) := ⟨nofun, nofun, nofun⟩

theorem stores_start (now : ℕ) : Stores (start now) := fun _ _ => rfl

/-- **The two stores agree** in every state of a run exactly if the run is synchronous. -/
theorem agree_iff (env : Env) (now : ℕ) (ops : List Op) :
    (∀ a, a <+: ops → Agree (run (step env) (start now) a)) ↔ Along (step env) (Synchronous env) (start now) ops :=
  always_iff_along (I := Kept) (P := Agree) (fun _ o hk ha => agree_step_iff hk ha o)
    (fun _ o hk ha hsync => (stores_step_iff hk (stores_iff.2 ha.stores) o).2 hsync) (kept_start now)
    (agree_of_stores (stores_start now) (kept_start now)) ops

/-- alice joins again a second later: she is listed with the later time, and told the earlier one -/
theorem rejoin_moves :
    let s := run (step readable) (start 0)
      [.join "lounge" (some "Bearer alice") true [], .tick 1000000, .join "lounge" (some "Bearer alice") true []]
    s.score "lounge" "alice" = some 1000000 ∧ s.hgetall "lounge" "alice" = some ⟨0, 0⟩ ∧ ¬ Agree s := by
  intro s
  have hscore : s.score "lounge" "alice" = some 1000000 := by decide
  have hsession : s.hgetall "lounge" "alice" = some ⟨0, 0⟩ := by decide
  refine ⟨hscore, hsession, fun h => ?_⟩
  obtain ⟨session, hx, hat⟩ := (h.stores "lounge" "alice" 1000000).1 hscore
  rw [hsession] at hx
  cases hx
  exact absurd hat (by decide)

end Concordia.Voice
