/-
The registry against the open sockets, over whole runs of the voice service.

- `Exact`: a user with open sockets on a channel is registered there with one of them, a user without is not registered,
  and no channel is kept empty.
- `EndsWell`: a handler that ends by a WebSocketDisconnect is the last of its user on the channel, and one that ends by
  another exception is not the registered one.
- `exact_iff`: the registry is exact in every state of a run exactly if the handlers of the run end well. `disconnect`
  removes by user id, and does not look at which socket it is that closes.
-/
import Concordia.Voice.System

namespace Concordia.Voice

open Concordia.Lib

structure Exact (s : St) : Prop where
  registered : ∀ c u, (∃ k, s.Open c u k) → ∃ k, s.active.peer c u = some k ∧ s.Open c u k
  absent : ∀ c u, (¬ ∃ k, s.Open c u k) → s.active.peer c u = none
  nonempty : s.active.NoEmpty
  /-- a message is refused only for a user without a socket -/
  refused : ∀ c u, s.active.sendToPeer c (.str u) = some none → ¬ ∃ k, s.Open c u k

/-- an operation at which a handler ends, if it does, as it should for the registry -/
def EndsWell (s : St) (o : Op) : Prop := ∀ t, s.turn o = some t →
  (t.after = .disconnected → ∀ k, s.Open t.channelId t.userId k → k = t.socket) ∧
    (t.after = .crashed → s.active.peer t.channelId t.userId ≠ some t.socket)

/-- who is registered decides all of `Exact` -/
theorem Exact.of_peer {s : St} (hsome : ∀ c u, (∃ k, s.Open c u k) → ∃ k, s.active.peer c u = some k ∧ s.Open c u k)
    (hnone : ∀ c u, (¬ ∃ k, s.Open c u k) → s.active.peer c u = none) (hne : s.active.NoEmpty) : Exact s := by
  refine ⟨hsome, hnone, hne, ?_⟩
  intro c u href hopen
  obtain ⟨k, hk, -⟩ := hsome c u hopen
  simp [Registry.sendToPeer, hashable, hk] at href

theorem Exact.congr {s s' : St} (h : Exact s) (hactive : s'.active = s.active) (hsockets : s'.sockets = s.sockets) :
    Exact s' := by
  have hopen : ∀ c u k, s'.Open c u k ↔ s.Open c u k := fun c u k => by unfold St.Open; rw [hsockets]
  refine Exact.of_peer ?_ ?_ (hactive ▸ h.nonempty)
  · intro c u
    simp only [hopen, hactive]
    exact h.registered c u
  · intro c u
    simp only [hopen, hactive]
    exact h.absent c u

theorem exact_start (now : ℕ) : Exact (start now) := by
  refine Exact.of_peer ?_ (fun _ _ _ => rfl) Registry.noEmpty_empty
  rintro c u ⟨k, hk⟩
  cases hk

/-! ## A socket more -/

theorem open_connect {env : Env} {s : St} {c u : String} {authorization token : Option String}
    (hu : env.signalUserId s.now authorization token = some u) {c' u' : String} {k : ℕ} :
    (connect env s c authorization token).Open c' u' k ↔ s.Open c' u' k ∨ (k = s.sockets.length ∧ c' = c ∧ u' = u) := by
  unfold connect St.Open
  rw [hu]
  simp only
  rcases Nat.lt_trichotomy k s.sockets.length with hk | rfl | hk
  · rw [List.getElem?_append_left hk]
    exact ⟨Or.inl, fun h => h.elim id fun h => absurd h.1 hk.ne⟩
  · rw [List.getElem?_concat_length, List.getElem?_eq_none le_rfl]
    simp only [Option.some.injEq, Socket.mk.injEq, and_true, reduceCtorEq, false_or, true_and]
    exact ⟨fun h => ⟨h.1.symm, h.2.symm⟩, fun h => ⟨h.1.symm, h.2.symm⟩⟩
  · rw [List.getElem?_eq_none (by simpa using hk), List.getElem?_eq_none hk.le]
    exact ⟨nofun, fun h => h.elim nofun fun h => absurd h.1 hk.ne'⟩

theorem exact_connect {env : Env} {s : St} (h : Exact s) (c : String) (authorization token : Option String) :
    Exact (connect env s c authorization token) := by
  cases hu : env.signalUserId s.now authorization token with
  | none =>
    rw [connect_refused hu]
    exact h
  | some u =>
    have hactive := connect_active hu c
    refine Exact.of_peer ?_ ?_ (hactive ▸ h.nonempty.connect c u _)
    · rintro c' u' ⟨k, hk⟩
      simp only [open_connect hu, hactive, Registry.peer_connect] at hk ⊢
      split_ifs with hcu
      · exact ⟨_, rfl, Or.inr ⟨rfl, hcu⟩⟩
      · obtain ⟨j, hj, hjopen⟩ := h.registered c' u' ⟨k, hk.resolve_right fun hnew => hcu hnew.2⟩
        exact ⟨j, hj, Or.inl hjopen⟩
    · intro c' u' hnone
      simp only [open_connect hu, hactive, Registry.peer_connect] at hnone ⊢
      rw [if_neg fun hcu => hnone ⟨_, Or.inr ⟨rfl, hcu⟩⟩]
      exact h.absent c' u' fun ⟨k, hk⟩ => hnone ⟨k, Or.inl hk⟩

/-! ## A socket less -/

theorem open_set {l : List Socket} {k j : ℕ} {c u c' u' : String} :
    (l.set k ⟨c, u, true⟩)[j]? = some ⟨c', u', false⟩ ↔ l[j]? = some ⟨c', u', false⟩ ∧ j ≠ k := by
  rw [List.getElem?_set]
  by_cases hjk : j = k
  · subst hjk
    simp
  · rw [if_neg fun h => hjk h.symm]
    exact ⟨fun h => ⟨h, hjk⟩, And.left⟩

/-- a handler that ends leaves its socket closed and all others as they were -/
theorem open_take {s : St} {t : Turn} (hend : t.after ≠ .listening) {c u : String} {k : ℕ} :
    (s.take t).Open c u k ↔ s.Open c u k ∧ k ≠ t.socket := by
  unfold St.take St.Open
  cases hafter : t.after with
  | listening => exact absurd hafter hend
  | disconnected => exact open_set
  | crashed => exact open_set

theorem open_unique {s : St} {c u c' u' : String} {k : ℕ} (h : s.Open c u k) (h' : s.Open c' u' k) : c = c' ∧ u = u' := by
  have heq := Option.some.inj (h.symm.trans h')
  cases heq
  exact ⟨rfl, rfl⟩

section Turn

variable {s : St} {t : Turn}

/-- other users' sockets and entries stay as they are -/
theorem registered_take (h : Exact s) (hopen : s.Open t.channelId t.userId t.socket) (hend : t.after ≠ .listening)
    {c u : String} (hcu : ¬ (c = t.channelId ∧ u = t.userId)) (hpeer : (s.take t).active.peer c u = s.active.peer c u) :
    ((∃ k, (s.take t).Open c u k) → ∃ k, (s.take t).active.peer c u = some k ∧ (s.take t).Open c u k) ∧
      ((¬ ∃ k, (s.take t).Open c u k) → (s.take t).active.peer c u = none) := by
  have hsame : ∀ k, (s.take t).Open c u k ↔ s.Open c u k := by
    intro k
    rw [open_take hend]
    refine ⟨And.left, fun hk => ⟨hk, ?_⟩⟩
    rintro rfl
    exact hcu (open_unique hk hopen)
  rw [hpeer]
  simp only [hsame]
  exact ⟨h.registered c u, h.absent c u⟩

/-- a clean end, exactly if no other socket of the user is open -/
theorem exact_take_disconnected (h : Exact s) (hopen : s.Open t.channelId t.userId t.socket)
    (hafter : t.after = .disconnected) :
    Exact (s.take t) ↔ ∀ k, s.Open t.channelId t.userId k → k = t.socket := by
  have hend : t.after ≠ .listening := by rw [hafter]; exact nofun
  have hactive : (s.take t).active = s.active.disconnect t.channelId t.userId := by
    unfold St.take
    rw [hafter]
    rfl
  have hpeer : ∀ c u, (s.take t).active.peer c u =
      if c = t.channelId ∧ u = t.userId then none else s.active.peer c u := by
    intro c u
    rw [hactive, Registry.peer_disconnect]
  refine ⟨?_, ?_⟩
  · intro h' k hk
    by_contra hne
    obtain ⟨j, hj, -⟩ := h'.registered t.channelId t.userId ⟨k, (open_take hend).2 ⟨hk, hne⟩⟩
    rw [hpeer, if_pos ⟨rfl, rfl⟩] at hj
    cases hj
  · intro hlast
    have hothers : ∀ {c u : String}, ¬ (c = t.channelId ∧ u = t.userId) → _ := fun {c u} hcu =>
      registered_take h hopen hend hcu ((hpeer c u).trans (if_neg hcu))
    refine Exact.of_peer ?_ ?_ (hactive ▸ h.nonempty.disconnect _ _)
    · intro c u
      by_cases hcu : c = t.channelId ∧ u = t.userId
      · rintro ⟨k, hk⟩
        obtain ⟨hk, hne⟩ := (open_take hend).1 hk
        obtain ⟨rfl, rfl⟩ := hcu
        exact absurd (hlast k hk) hne
      · exact (hothers hcu).1
    · intro c u
      by_cases hcu : c = t.channelId ∧ u = t.userId
      · exact fun _ => (hpeer c u).trans (if_pos hcu)
      · exact (hothers hcu).2

/-- an end that nobody cleans up after, exactly if another socket is the registered one -/
theorem exact_take_crashed (h : Exact s) (hopen : s.Open t.channelId t.userId t.socket) (hafter : t.after = .crashed) :
    Exact (s.take t) ↔ s.active.peer t.channelId t.userId ≠ some t.socket := by
  have hend : t.after ≠ .listening := by rw [hafter]; exact nofun
  have hactive : (s.take t).active = s.active := by
    unfold St.take
    rw [hafter]
    rfl
  refine ⟨?_, ?_⟩
  · intro h' hreg
    by_cases hother : ∃ k, (s.take t).Open t.channelId t.userId k
    · obtain ⟨k, hk, hkopen⟩ := h'.registered t.channelId t.userId hother
      rw [hactive, hreg] at hk
      exact ((open_take hend).1 hkopen).2 (Option.some.inj hk).symm
    · have hnone := h'.absent t.channelId t.userId hother
      rw [hactive, hreg] at hnone
      cases hnone
  · intro hreg
    have hothers : ∀ {c u : String}, ¬ (c = t.channelId ∧ u = t.userId) → _ := fun {c u} hcu =>
      registered_take h hopen hend hcu (by rw [hactive])
    -- the registered socket is another one, and stays open
    obtain ⟨k, hk, hkopen⟩ := h.registered t.channelId t.userId ⟨t.socket, hopen⟩
    have hkept : (s.take t).Open t.channelId t.userId k :=
      (open_take hend).2 ⟨hkopen, fun heq => hreg (heq ▸ hk)⟩
    refine Exact.of_peer ?_ ?_ (hactive ▸ h.nonempty)
    · intro c u
      by_cases hcu : c = t.channelId ∧ u = t.userId
      · obtain ⟨rfl, rfl⟩ := hcu
        exact fun _ => ⟨k, by rw [hactive]; exact hk, hkept⟩
      · exact (hothers hcu).1
    · intro c u
      by_cases hcu : c = t.channelId ∧ u = t.userId
      · obtain ⟨rfl, rfl⟩ := hcu
        exact fun hnone => absurd ⟨k, hkept⟩ hnone
      · exact (hothers hcu).2

end Turn

/-! ## Runs -/

theorem endsWell_of_turn {s : St} {o : Op} {t : Turn} (ht : s.turn o = some t) : EndsWell s o ↔
    (t.after = .disconnected → ∀ k, s.Open t.channelId t.userId k → k = t.socket) ∧
      (t.after = .crashed → s.active.peer t.channelId t.userId ≠ some t.socket) := by
  refine ⟨fun hall => hall t ht, ?_⟩
  intro hone t' ht'
  rw [ht] at ht'
  cases ht'
  exact hone

theorem exact_take {s : St} {o : Op} {t : Turn} (h : Exact s) (ht : s.turn o = some t) :
    Exact (s.take t) ↔ EndsWell s o := by
  rw [endsWell_of_turn ht]
  cases hafter : t.after with
  | listening =>
    have hsame : Exact (s.take t) := h.congr (by unfold St.take; rw [hafter]; rfl) (by unfold St.take; rw [hafter]; rfl)
    exact iff_of_true hsame ⟨nofun, nofun⟩
  | disconnected =>
    rw [exact_take_disconnected h (turn_open ht) hafter]
    exact ⟨fun hlast => ⟨fun _ => hlast, nofun⟩, fun hboth => hboth.1 rfl⟩
  | crashed =>
    rw [exact_take_crashed h (turn_open ht) hafter]
    exact ⟨fun hreg => ⟨nofun, fun _ => hreg⟩, fun hboth => hboth.2 rfl⟩

theorem exact_step {env : Env} {s : St} (h : Exact s) (o : Op) : Exact (step env s o) ↔ EndsWell s o := by
  cases ht : s.turn o with
  | some t =>
    rw [step_of_turn ht]
    exact exact_take h ht
  | none =>
    refine iff_of_true ?_ fun t ht' => absurd (ht.symm.trans ht') nofun
    cases o with
    | join c authorization allowed failing =>
      obtain ⟨hactive, hsockets⟩ := join_frame env s c authorization allowed failing
      exact h.congr hactive hsockets
    | leave c authorization failing =>
      obtain ⟨hactive, hsockets⟩ := leave_frame env s c authorization failing
      exact h.congr hactive hsockets
    | connect c authorization token => exact exact_connect h c authorization token
    | tick elapsed => exact h.congr rfl rfl
    | receive | hangup =>
      simp only [step, ht]
      exact h

/-- **The registry is exact** in every state of a run exactly if every handler of the run ends well. -/
theorem exact_iff (env : Env) (now : ℕ) (ops : List Op) :
    (∀ a, a <+: ops → Exact (run (step env) (start now) a)) ↔ Along (step env) EndsWell (start now) ops :=
  always_iff_along (I := fun _ => True) (P := Exact) (fun _ o _ h => exact_step h o) (fun _ _ _ _ _ => trivial) trivial
    (exact_start now) ops

/-- tokens that are the user's id -/
def readable : Env := ⟨some "secret", fun _ _ token => some (some token)⟩

/-- bob opens a second tab and closes the first: his open socket is not registered, and a message for him is refused -/
theorem second_tab_lost :
    let s := run (step readable) (start 0)
      [.connect "lounge" none (some "bob"), .connect "lounge" none (some "bob"), .hangup 0]
    s.Open "lounge" "bob" 1 ∧ s.active.sendToPeer "lounge" (.str "bob") = some none ∧ ¬ Exact s := by
  intro s
  have hopen : s.Open "lounge" "bob" 1 := by decide
  have href : s.active.sendToPeer "lounge" (.str "bob") = some none := by decide
  exact ⟨hopen, href, fun h => h.refused "lounge" "bob" href ⟨1, hopen⟩⟩

end Concordia.Voice
