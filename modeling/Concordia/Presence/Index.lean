/-
What presence's two indexes are worth. Neither expires, while the session hashes do; `register` cleans the channel index
only when it finds the old hash, and never the index of another user.

- `channel_sound_iff`: `queryByChannel` is right at every moment of a run iff every registration of a connection without
  a live session lists all the channels whose sets still hold that connection.
- `stale_channel_returned`: a session expires, its connection registers for other channels, and the query for the old
  channel returns it.
- `user_exact_iff`: `queryByUser` is right at every moment of a run iff every registration finds its connection in no
  other user's set.
- `both_users_online`: a connection is registered for one user and then for another, and both are online.
- `index_complete`: a live session is in the answer for its user and for each of its channels, and nothing that happens
  to other connections takes it out.

`Change` says once what a request does to one connection; the three invariants are read off it.
-/
import Concordia.Presence.Sessions

namespace Concordia.Presence

open Concordia.Lib

/-! ## What a request does to one connection -/

/-- the registration an operation makes -/
def registers : Op → Option (ConnId × String × List String)
  | .register body => accepted body
  | _ => none

/-- the operation neither registers nor deregisters the connection -/
def Spares (o : Op) (k : ConnId) : Prop := o ≠ .deregister k ∧ ∀ u channels, registers o ≠ some (k, u, channels)

inductive Change (s s' : State) (o : Op) (k : ConnId) : Prop where
  | registered (u : String) (channels : List String) (ho : registers o = some (k, u, channels))
      (live : s'.redis.hgetall s'.now k = some ⟨u, channels, s.now + sessionTtl⟩)
      (user : ∀ u', k ∈ s'.redis.user u' ↔ k ∈ s.redis.user u' ∨ u' = u)
      (channel : ∀ c, k ∈ s'.redis.channel c ↔
        (k ∈ s.redis.channel c ∧ ∀ x, s.redis.hgetall s.now k = some x → c ∉ x.subscribedChannels) ∨ c ∈ channels)
  | deregistered (ho : o = .deregister k) (gone : s'.redis.hgetall s'.now k = none)
  | spared (ho : Spares o k)
      (live : ∀ x, s'.redis.hgetall s'.now k = some x → ∃ y, s.redis.hgetall s.now k = some y ∧
        y.userId = x.userId ∧ y.subscribedChannels = x.subscribedChannels)
      (stays : (∀ d, o ≠ .tick d) → (s'.redis.hgetall s'.now k).isSome = (s.redis.hgetall s.now k).isSome)
      (user : ∀ u, k ∈ s'.redis.user u ↔ k ∈ s.redis.user u)
      (channel : ∀ c, k ∈ s'.redis.channel c ↔ k ∈ s.redis.channel c)

theorem Change.refl {s : State} {o : Op} {k : ConnId} (ho : Spares o k) : Change s s o k :=
  .spared ho (fun x hx => ⟨x, hx, rfl, rfl⟩) (fun _ => rfl) (fun _ => Iff.rfl) fun _ => Iff.rfl

/-- **Change lemma.** -/
theorem step_change (s : State) (o : Op) (k : ConnId) : Change s (step s o) o k := by
  cases o with
  | register body =>
    cases hb : accepted body with
    | none =>
      have hs : step s (.register body) = s := by simp only [step, hb]
      rw [hs]
      exact .refl ⟨by simp, by simp [registers, hb]⟩
    | some p =>
      obtain ⟨q, u, channels⟩ := p
      have hs : step s (.register body) = { s with redis := s.redis.register s.now q u channels } := by
        simp only [step, hb]
      rw [hs]
      by_cases hk : k = q
      · subst hk
        refine .registered u channels hb ?_ ?_ ?_
        · simp [Redis.hgetall_register]
        · simp [Redis.mem_user_register]
        · simp [Redis.mem_channel_register]
      · have hne : ¬ q = k := fun e => hk e.symm
        refine .spared ⟨by simp, by simp [registers, hb, hne]⟩ ?_ ?_ ?_ ?_
        · intro x hx
          rw [Redis.hgetall_register, if_neg hk] at hx
          exact ⟨x, hx, rfl, rfl⟩
        · intro _
          rw [Redis.hgetall_register, if_neg hk]
        · simp [Redis.mem_user_register, hk]
        · simp [Redis.mem_channel_register, hk]
  | deregister q =>
    simp only [step]
    by_cases hk : k = q
    · subst hk
      exact .deregistered rfl (by simp [Redis.hgetall_deregister])
    · have hne : ¬ q = k := fun e => hk e.symm
      refine .spared ⟨by simp [hne], by simp [registers]⟩ ?_ ?_ ?_ ?_
      · intro x hx
        rw [Redis.hgetall_deregister, if_neg hk] at hx
        exact ⟨x, hx, rfl, rfl⟩
      · intro _
        rw [Redis.hgetall_deregister, if_neg hk]
      · simp [Redis.mem_user_deregister, hk]
      · simp [Redis.mem_channel_deregister, hk]
  | heartbeat q =>
    simp only [step]
    refine .spared ⟨by simp, by simp [registers]⟩ ?_ ?_ ?_ ?_
    · intro x hx
      rw [Redis.hgetall_heartbeat, Option.map_eq_some_iff] at hx
      obtain ⟨y, hy, rfl⟩ := hx
      refine ⟨y, hy, ?_⟩
      split_ifs <;> exact ⟨rfl, rfl⟩
    · intro _
      rw [Redis.hgetall_heartbeat, Option.isSome_map]
    · simp [Redis.heartbeat_user]
    · simp [Redis.heartbeat_channel]
  | tick d =>
    simp only [step]
    refine .spared ⟨by simp, by simp [registers]⟩ ?_ (fun h => absurd rfl (h d)) (fun _ => Iff.rfl) fun _ => Iff.rfl
    intro x hx
    rw [Redis.hgetall_later, Option.filter_eq_some_iff] at hx
    exact ⟨x, hx.1, rfl, rfl⟩

/-! ## The channel query -/

/-- the answer for a channel lists only live sessions whose latest registration has the channel, each once and with the
user of that registration -/
structure ChannelSound (s : State) (g : Registry) (c : String) : Prop where
  answered : ∀ u, query s c u = .channel (queryByChannel s c)
  once : ((queryByChannel s c).map SessionEntry.connectionId).Nodup
  live : ∀ e ∈ queryByChannel s c, ∃ x, g.live e.connectionId = some x ∧ c ∈ x.channels ∧ x.userId = e.userId

/-- a registration of a connection without a live session lists every channel whose set still holds the connection -/
def ListsStale (s : State) (o : Op) : Prop :=
  ∀ k u channels, registers o = some (k, u, channels) → s.redis.hgetall s.now k = none →
    ∀ c, c ≠ "" → k ∈ s.redis.channel c → c ∈ channels

/-- the channel sets hold a live session only where its hash lists the channel -/
def ChannelInv (s : State) : Prop :=
  ∀ k x, s.redis.hgetall s.now k = some x → ∀ c, c ≠ "" → k ∈ s.redis.channel c → c ∈ x.subscribedChannels

theorem channelInv_init : ChannelInv init := by
  intro k x hx
  cases hx

theorem step_channelInv (s : State) (o : Op) (h : ChannelInv s) (ho : ListsStale s o) : ChannelInv (step s o) := by
  intro k x hx c hc hmem
  cases step_change s o k with
  | registered u channels hreg live user channel =>
    rw [live] at hx
    cases hx
    rcases (channel c).1 hmem with hold | hnew
    · -- the entry was left over: by a live session, whose channels are cleaned, or by one that is gone
      cases hs : s.redis.hgetall s.now k with
      | some y => exact absurd (h k y hs c hc hold.1) (hold.2 y hs)
      | none => exact ho k u channels hreg hs c hc hold.1
    · exact hnew
  | deregistered ho gone =>
    rw [gone] at hx
    cases hx
  | spared ho live stays user channel =>
    obtain ⟨y, hy, -, hch⟩ := live x hx
    rw [← hch]
    exact h k y hy c hc ((channel c).1 hmem)

theorem channelSound {s : State} {g : Registry} (hg : Refines s g) (h : ChannelInv s) {c : String} (hc : c ≠ "") :
    ChannelSound s g c where
  answered u := if_pos hc
  once := nodup_queryByChannel s c
  live := by
    intro e he
    obtain ⟨hmem, hu⟩ := mem_queryByChannel.1 he
    obtain ⟨y, hy, hyu⟩ := Option.map_eq_some_iff.1 hu
    have hin := h _ y hy c hc hmem
    rw [hg.live, Option.map_eq_some_iff] at hy
    obtain ⟨x, hx, rfl⟩ := hy
    exact ⟨x, hx, hin, hyu⟩

/-- **When the channel query can be trusted.** It is right at every moment of a run iff every registration of a
connection without a live session lists all the channels whose sets still hold that connection. -/
theorem channel_sound_iff (ops : List Op) :
    (∀ a b, ops = a ++ b → ∀ c, c ≠ "" → ChannelSound (run step init a) (.after a) c) ↔
      Along step ListsStale init ops := by
  refine ⟨?_, ?_⟩
  · intro h
    rw [along_iff_split]
    intro a o b hab k u channels hreg hgone c hc hmem
    have hsound := h (a ++ [o]) b (by simpa using hab) c hc
    have hrefines := run_refines (a ++ [o])
    rw [run_snoc] at hsound hrefines
    generalize hs' : step (run step init a) o = s' at hsound hrefines
    have hchange := step_change (run step init a) o k
    rw [hs'] at hchange
    cases hchange with
    | registered u' channels' hreg' live user channel =>
      rw [hreg] at hreg'
      cases hreg'
      have hmem' : k ∈ s'.redis.channel c := (channel c).2 (.inl ⟨hmem, by simp [hgone]⟩)
      have he : (⟨k, u⟩ : SessionEntry) ∈ queryByChannel s' c := by
        rw [mem_queryByChannel]
        exact ⟨hmem', by simp [live]⟩
      obtain ⟨x, hx, hin, -⟩ := hsound.live _ he
      have hl := hrefines.live k
      rw [live, hx] at hl
      have hcs : channels = x.channels := congrArg Session.subscribedChannels (Option.some.inj hl)
      rw [hcs]
      exact hin
    | deregistered ho => simp [ho, registers] at hreg
    | spared ho => exact absurd hreg (ho.2 u channels)
  · intro h a b hab c hc
    rw [hab, along_append] at h
    exact channelSound (run_refines a) (run_inv step_channelInv channelInv_init h.1) hc

/-- connection 1 registers for channel "a", expires, and registers again for channel "b" -/
def movedAfterExpiry : List Op :=
  [.register (some ⟨some 1, "alice", ["a"]⟩), .tick sessionTtl, .register (some ⟨some 1, "alice", ["b"]⟩)]

/-- the query for "a" still returns it -/
theorem stale_channel_returned : ¬ ChannelSound (run step init movedAfterExpiry) (.after movedAfterExpiry) "a" := by
  intro h
  have hanswer : queryByChannel (run step init movedAfterExpiry) "a" = [⟨1, "alice"⟩] := by decide
  have hlatest : (Registry.after movedAfterExpiry).live 1 = some ⟨"alice", ["b"], sessionTtl⟩ := by decide
  obtain ⟨x, hx, hin, -⟩ := h.live ⟨1, "alice"⟩ (by rw [hanswer]; simp)
  rw [hlatest] at hx
  cases hx
  exact absurd hin (by decide)

/-! ## The user query -/

/-- the answer for a user lists exactly the live sessions whose latest registration is the user's, and says online iff
there is one -/
structure UserExact (s : State) (g : Registry) (u : String) : Prop where
  answered : u ≠ "" → query s "" u = .user (queryByUser s u)
  online : (queryByUser s u).online = true ↔ ∃ k x, g.live k = some x ∧ x.userId = u
  sessions : ∀ k, k ∈ (queryByUser s u).sessions ↔ ∃ x, g.live k = some x ∧ x.userId = u

/-- a registration finds its connection in no other user's set -/
def SameUser (s : State) (o : Op) : Prop :=
  ∀ k u channels, registers o = some (k, u, channels) → ∀ u', k ∈ s.redis.user u' → u' = u

/-- a live session is in its user's set and in no other -/
def UserInv (s : State) : Prop := ∀ k x, s.redis.hgetall s.now k = some x → ∀ u, k ∈ s.redis.user u → u = x.userId

/-- a live session is in the sets of its user and of its channels -/
structure Complete (s : State) : Prop where
  user : ∀ k x, s.redis.hgetall s.now k = some x → k ∈ s.redis.user x.userId
  channel : ∀ k x, s.redis.hgetall s.now k = some x → ∀ c ∈ x.subscribedChannels, k ∈ s.redis.channel c

theorem complete_init : Complete init where
  user := by
    intro k x hx
    cases hx
  channel := by
    intro k x hx
    cases hx

theorem step_complete (s : State) (o : Op) (h : Complete s) : Complete (step s o) where
  user := by
    intro k x hx
    cases step_change s o k with
    | registered u channels ho live user channel =>
      rw [live] at hx
      cases hx
      exact (user u).2 (.inr rfl)
    | deregistered ho gone =>
      rw [gone] at hx
      cases hx
    | spared ho live stays user channel =>
      obtain ⟨y, hy, hu, -⟩ := live x hx
      rw [user, ← hu]
      exact h.user k y hy
  channel := by
    intro k x hx c hc
    cases step_change s o k with
    | registered u channels ho live user channel =>
      rw [live] at hx
      cases hx
      exact (channel c).2 (.inr hc)
    | deregistered ho gone =>
      rw [gone] at hx
      cases hx
    | spared ho live stays user channel =>
      obtain ⟨y, hy, -, hch⟩ := live x hx
      rw [channel]
      apply h.channel k y hy
      rw [hch]
      exact hc

theorem run_complete (ops : List Op) : Complete (run step init ops) := run_inv' step_complete complete_init ops

theorem userInv_init : UserInv init := by
  intro k x hx
  cases hx

theorem step_userInv (s : State) (o : Op) (h : UserInv s) (ho : SameUser s o) : UserInv (step s o) := by
  intro k x hx u' hmem
  cases step_change s o k with
  | registered u channels hreg live user channel =>
    rw [live] at hx
    cases hx
    rcases (user u').1 hmem with hold | hnew
    · exact ho k u channels hreg u' hold
    · exact hnew
  | deregistered ho gone =>
    rw [gone] at hx
    cases hx
  | spared ho live stays user channel =>
    obtain ⟨y, hy, hu, -⟩ := live x hx
    rw [← hu]
    exact h k y hy u' ((user u').1 hmem)

theorem userExact {s : State} {g : Registry} (hg : Refines s g) (hc : Complete s) (h : UserInv s) (u : String) :
    UserExact s g u := by
  have hsessions : ∀ k, k ∈ (queryByUser s u).sessions ↔ ∃ x, g.live k = some x ∧ x.userId = u := by
    intro k
    rw [mem_queryByUser]
    refine ⟨?_, ?_⟩
    · intro hk
      obtain ⟨y, hy⟩ := Option.isSome_iff_exists.1 hk.2
      have hu := h k y hy u hk.1
      rw [hg.live, Option.map_eq_some_iff] at hy
      obtain ⟨x, hx, rfl⟩ := hy
      exact ⟨x, hx, hu.symm⟩
    · intro hk
      obtain ⟨x, hx, hu⟩ := hk
      have hy : s.redis.hgetall s.now k = some x.session := by rw [hg.live, hx, Option.map_some]
      refine ⟨?_, by simp [hy]⟩
      rw [← hu]
      exact hc.user k _ hy
  refine ⟨?_, ?_, hsessions⟩
  · intro hu
    unfold query
    rw [if_neg (by simp), if_pos hu]
  · rw [online_iff]
    exact exists_congr hsessions

/-- **When the user query can be trusted.** It is right for every user at every moment of a run iff every registration
finds its connection in no other user's set. -/
theorem user_exact_iff (ops : List Op) :
    (∀ a b, ops = a ++ b → ∀ u, UserExact (run step init a) (.after a) u) ↔ Along step SameUser init ops := by
  refine ⟨?_, ?_⟩
  · intro h
    rw [along_iff_split]
    intro a o b hab k u channels hreg u' hmem
    have hexact := h (a ++ [o]) b (by simpa using hab) u'
    have hrefines := run_refines (a ++ [o])
    rw [run_snoc] at hexact hrefines
    generalize hs' : step (run step init a) o = s' at hexact hrefines
    have hchange := step_change (run step init a) o k
    rw [hs'] at hchange
    cases hchange with
    | registered w channels' hreg' live user channel =>
      rw [hreg] at hreg'
      cases hreg'
      have hlisted : k ∈ (queryByUser s' u').sessions := mem_queryByUser.2 ⟨(user u').2 (.inl hmem), by simp [live]⟩
      obtain ⟨x, hx, hxu⟩ := (hexact.sessions k).1 hlisted
      have hl := hrefines.live k
      rw [live, hx] at hl
      have huser : u = x.userId := congrArg Session.userId (Option.some.inj hl)
      rw [huser, hxu]
    | deregistered ho => simp [ho, registers] at hreg
    | spared ho => exact absurd hreg (ho.2 u channels)
  · intro h a b hab u
    rw [hab, along_append] at h
    exact userExact (run_refines a) (run_complete a) (run_inv step_userInv userInv_init h.1) u

/-- connection 1 is registered for alice and then for bob -/
def changedUser : List Op := [.register (some ⟨some 1, "alice", []⟩), .register (some ⟨some 1, "bob", []⟩)]

/-- alice is still online with it -/
theorem both_users_online : ¬ UserExact (run step init changedUser) (.after changedUser) "alice" := by
  intro h
  have hanswer : (queryByUser (run step init changedUser) "alice").sessions = [1] := by decide
  have hlatest : (Registry.after changedUser).live 1 = some ⟨"bob", [], 0⟩ := by decide
  obtain ⟨x, hx, hu⟩ := (h.sessions 1).1 (by rw [hanswer]; simp)
  rw [hlatest] at hx
  cases hx
  exact absurd hu (by decide)

/-! ## Nothing is missed -/

/-- **Completeness of the index.** After every run a live session is in the answer for each channel of its latest
registration and in the answer for its user. And whatever happens to other connections, or expires, a session that is
still alive stays in every answer it was in. -/
theorem index_complete (ops : List Op) (k : ConnId) :
    (∀ x, (Registry.after ops).live k = some x →
      (∀ c ∈ x.channels, (⟨k, x.userId⟩ : SessionEntry) ∈ queryByChannel (run step init ops) c) ∧
        k ∈ (queryByUser (run step init ops) x.userId).sessions) ∧
    ∀ o, Spares o k → (∀ d, o = .tick d → ((Registry.after (ops ++ [o])).live k).isSome) →
      (∀ c u, (⟨k, u⟩ : SessionEntry) ∈ queryByChannel (run step init ops) c →
        (⟨k, u⟩ : SessionEntry) ∈ queryByChannel (run step init (ops ++ [o])) c) ∧
      ∀ u, k ∈ (queryByUser (run step init ops) u).sessions →
        k ∈ (queryByUser (run step init (ops ++ [o])) u).sessions := by
  have hrefines := run_refines ops
  have hcomplete := run_complete ops
  refine ⟨?_, ?_⟩
  · intro x hx
    have hy : (run step init ops).redis.hgetall (run step init ops).now k = some x.session := by
      rw [hrefines.live, hx, Option.map_some]
    refine ⟨?_, ?_⟩
    · intro c hc
      rw [mem_queryByChannel]
      exact ⟨hcomplete.channel k _ hy c hc, by simp [hy, Registration.session]⟩
    · rw [mem_queryByUser]
      exact ⟨hcomplete.user k _ hy, by simp [hy]⟩
  · intro o hspares htick
    have hrefines' := run_refines (ops ++ [o])
    rw [run_snoc] at hrefines' ⊢
    cases step_change (run step init ops) o k with
    | registered u channels ho => exact absurd ho (hspares.2 u channels)
    | deregistered ho => exact absurd ho hspares.1
    | spared ho live stays user channel =>
      -- the session is there before and after, with the same user
      have hstill : ∀ y, (run step init ops).redis.hgetall (run step init ops).now k = some y →
          ∃ x, (step (run step init ops) o).redis.hgetall (step (run step init ops) o).now k = some x ∧
            x.userId = y.userId := by
        intro y hy
        have hsome : ((step (run step init ops) o).redis.hgetall (step (run step init ops) o).now k).isSome := by
          by_cases ht : ∃ d, o = .tick d
          · obtain ⟨d, rfl⟩ := ht
            rw [hrefines'.live, Option.isSome_map]
            exact htick d rfl
          · rw [stays (fun d hd => ht ⟨d, hd⟩), hy, Option.isSome_some]
        obtain ⟨x, hx⟩ := Option.isSome_iff_exists.1 hsome
        obtain ⟨y', hy', hu, -⟩ := live x hx
        rw [hy] at hy'
        cases hy'
        exact ⟨x, hx, hu.symm⟩
      refine ⟨?_, ?_⟩
      · intro c u he
        rw [mem_queryByChannel] at he ⊢
        obtain ⟨y, hy, hyu⟩ := Option.map_eq_some_iff.1 he.2
        obtain ⟨x, hx, hxu⟩ := hstill y hy
        refine ⟨(channel c).2 he.1, ?_⟩
        rw [hx, Option.map_some, hxu, hyu]
      · intro u hk
        rw [mem_queryByUser] at hk ⊢
        obtain ⟨y, hy⟩ := Option.isSome_iff_exists.1 hk.2
        obtain ⟨x, hx, -⟩ := hstill y hy
        exact ⟨(user u).2 hk.1, by simp [hx]⟩

/-- alice's only session is in the answer for its channel, and stays there when bob registers and 29 minutes pass -/
example : (⟨1, "alice"⟩ : SessionEntry) ∈ queryByChannel (run step init
    [.register (some ⟨some 1, "alice", ["a"]⟩), .register (some ⟨some 2, "bob", ["a"]⟩), .tick (29 * 60 * 10 ^ 9)])
      "a" := by decide

end Concordia.Presence
