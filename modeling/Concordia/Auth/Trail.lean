/-
What the auth service hands to its audit emitter, against what it has answered, over every run of requests, with any of
their repository calls, sends and commits failing.

- Only `logout` is `@Transactional`: its event is emitted before the commit, and a commit that fails takes the deletion of
  the tokens back but not the event.
- `Emits`: what a program that returns adds to the success events, and that one which throws adds none.
- `trail_exact_iff`: the success events are those of the successful answers, one each and in their order, exactly if every
  logout that has got to its commit has also got through it.
-/
import Concordia.Auth.History

namespace Concordia.Auth.Endpoints

open Concordia.Lib
open Concordia.Servers (Uuid)

/-! ## Runs -/

/-- an answer of success -/
inductive Success where
  | registered (response : RegisterResponse)
  | loggedIn (response : LoginResponse)
  | refreshed (response : LoginResponse)
  | loggedOut (userId : Uuid)
deriving DecidableEq, Repr

structure Trail where
  st : St
  answers : List Success

/-- a request, and which of its calls go through -/
inductive Attempt where
  | register (ok : RegisterCall → Bool) (send : Send) (request : RegisterRequest)
  | login (ok : LoginCall → Bool) (request : LoginRequest)
  | refresh (ok : RefreshCall → Bool) (token : Option String)
  | logout (ok commit : Bool) (authHeader : Option String)
  | tick (elapsed : ℕ)

/-- whom a logout names -/
def loggedOutAs (L : Library) (authHeader : Option String) (s : St) : List Success :=
  match extractUserId L authHeader s with
  | .ok userId _ => [.loggedOut userId]
  | .error _ _ => []

namespace Trail

def start (users : List User) (now drawn : ℕ) : Trail := ⟨(Endpoints.start users now drawn).st, []⟩

/-- the state that a program leaves, and the answer if it returns -/
def answer {α : Type} (y : Trail) (x : Svc α) (success : α → Success) : Trail :=
  match x y.st with
  | .ok response s' => ⟨s', y.answers ++ [success response]⟩
  | .error _ s' => ⟨s', y.answers⟩

def step (L : Library) (y : Trail) : Attempt → Trail
  | .register ok send request => y.answer (registerUser L ok send request) .registered
  | .login ok request => y.answer (login L ok request) .loggedIn
  | .refresh ok token => y.answer (Endpoints.refresh L ok token) .refreshed
  | .logout ok commit authHeader =>
    match Endpoints.logout L ok authHeader y.st with
    | .error _ s' => ⟨s', y.answers⟩
    | .ok _ s' =>
      if commit then ⟨s', y.answers ++ loggedOutAs L authHeader y.st⟩
      -- rolled back, the event is on its way
      else { y with st := { y.st with audit := s'.audit } }
  | .tick elapsed => { y with st := { y.st with now := y.st.now + elapsed } }

end Trail

/-- a logout gets to its commit, which fails -/
def Lost (L : Library) (y : Trail) (a : Attempt) : Prop :=
  ∃ ok authHeader s', a = .logout ok false authHeader ∧ logout L ok authHeader y.st = .ok () s'

/-- the event of an answer -/
def Success.event (L : Library) : Success → AuditEvent
  | .registered response =>
    ⟨"auth.register", [("user_id", L.uuidText response.userId)],
      [("type", "user"), ("id", L.uuidText response.userId)], "success", [("username", response.username)]⟩
  | .loggedIn response =>
    ⟨"auth.login.success", [("user_id", L.uuidText response.accessToken.subject)], [], "success", []⟩
  | .refreshed response =>
    ⟨"auth.token.refresh", [("user_id", L.uuidText response.accessToken.subject)], [], "success", []⟩
  | .loggedOut userId => ⟨"auth.logout", [("user_id", L.uuidText userId)], [], "success", []⟩

def St.successes (s : St) : List AuditEvent := s.audit.filter (·.outcome = "success")

/-! ## What a program emits -/

/-- if the program returns it has added the events to the success events, and none if it throws -/
def Emits {α : Type} (x : Svc α) (events : α → List AuditEvent) : Prop := ∀ s : St,
  match x s with
  | .ok a s' => s'.successes = s.successes ++ events a
  | .error _ s' => s'.successes = s.successes

/-- the program adds no success event, and what it returns satisfies `P` -/
def Silent {α : Type} (x : Svc α) (P : α → Prop) : Prop := ∀ s : St,
  match x s with
  | .ok a s' => P a ∧ s'.successes = s.successes
  | .error _ s' => s'.successes = s.successes

section Programs

variable {α β : Type} {P : α → Prop} {x : Svc α} {f : α → Svc β} {events : β → List AuditEvent}

theorem Silent.emits (hx : Silent x P) (hf : ∀ a, P a → Emits (f a) events) : Emits (x >>= f) events := by
  intro s
  have hfirst := hx s
  cases h : x s with
  | error e s' =>
    rw [h] at hfirst
    rw [bind_error h]
    exact hfirst
  | ok a s' =>
    rw [h] at hfirst
    rw [bind_ok h, ← hfirst.2]
    exact hf a hfirst.1 s'

theorem silent_pure {a : α} (h : P a) : Silent (pure a) P := fun _ => ⟨h, rfl⟩

theorem silent_throw (e : Thrown) : Silent (throw e : Svc α) P := fun _ => rfl

theorem emits_throw (e : Thrown) : Emits (throw e : Svc β) events := fun _ => rfl

theorem silent_query (ok : Bool) (g : St → α) : Silent (query ok g) fun _ => True := by
  intro s
  cases ok with
  | true => exact ⟨trivial, rfl⟩
  | false => exact rfl

theorem silent_update (ok : Bool) (g : St → St) (hg : ∀ s, (g s).audit = s.audit) :
    Silent (update ok g) fun _ => True := by
  intro s
  cases ok with
  | true => exact ⟨trivial, congrArg (List.filter _) (hg s)⟩
  | false => exact rfl

theorem successes_emit (s : St) (event : AuditEvent) : ({ s with audit := s.audit ++ [event] } : St).successes =
    s.successes ++ if event.outcome = "success" then [event] else [] := by
  rw [St.successes, St.successes, List.filter_append]
  by_cases h : event.outcome = "success"
  · simp [h]
  · simp [h]

/-- another outcome is not counted -/
theorem silent_emit {event : AuditEvent} (h : event.outcome ≠ "success") : Silent (emit event) fun _ => True := by
  intro s
  refine ⟨trivial, (successes_emit s event).trans ?_⟩
  rw [if_neg h, List.append_nil]

/-- the event, and the answer -/
theorem emits_last {event : AuditEvent} {b : β} (h : event.outcome = "success") (hb : events b = [event]) :
    Emits (emit event >>= fun _ => pure b) events := by
  intro s
  refine (successes_emit s event).trans ?_
  rw [if_pos h, hb]

theorem silent_mapOf (entries : List (String × Option String)) : Silent (mapOf entries) fun _ => True := by
  unfold mapOf
  split
  · exact silent_pure trivial
  · exact silent_throw _

end Programs

theorem emits_registerUser (L : Library) (ok : RegisterCall → Bool) (send : Send) (request : RegisterRequest) :
    Emits (registerUser L ok send request) fun response => [(Success.registered response).event L] := by
  unfold registerUser
  refine (silent_query _ _).emits fun emailTaken _ => ?_
  cases emailTaken with
  | true => exact fun _ => rfl
  | false =>
    refine (silent_query _ _).emits fun usernameTaken _ => ?_
    cases usernameTaken with
    | true => exact fun _ => rfl
    | false =>
      have hencoded : Silent (encodePassword L request.password) fun _ => True := by
        unfold encodePassword
        split
        · exact silent_pure trivial
        · exact silent_throw _
      have hsaved : ∀ passwordHash, Silent (saveUser (ok .save) request.username request.email passwordHash)
          fun _ => True := by
        intro passwordHash s
        unfold saveUser
        split_ifs
        · exact ⟨trivial, rfl⟩
        · exact rfl
      have hsent : ∀ event, Silent (sendUserRegistered send event) fun _ => True := by
        intro event
        cases send with
        | accepted => exact fun _ => ⟨trivial, rfl⟩
        | throws => exact silent_throw _
        | failsLater => exact silent_pure trivial
      refine hencoded.emits fun passwordHash _ => (hsaved passwordHash).emits fun user _ => ?_
      exact (hsent _).emits fun _ _ => emits_last rfl rfl

theorem silent_issueTokens (L : Library) (ok : Bool) (user : User) :
    Silent (issueTokens L ok user) fun response => response.accessToken.subject = user.id := by
  intro s
  cases ok with
  | true => exact ⟨rfl, rfl⟩
  | false => exact rfl

theorem emits_login (L : Library) (ok : LoginCall → Bool) (request : LoginRequest) :
    Emits (login L ok request) fun response => [(Success.loggedIn response).event L] := by
  have hrefused : ∀ (entries : List (String × Option String)) (actor : List (String × String)),
      Emits (do
        let metadata ← mapOf entries
        emit ⟨"auth.login.failure", actor, [], "failure", metadata⟩
        throw (.invalidCredentials "invalid credentials")) fun response => [(Success.loggedIn response).event L] :=
    fun entries actor => (silent_mapOf entries).emits fun _ _ => 
      (silent_emit (show "failure" ≠ "success" by decide)).emits fun _ _ => emits_throw _
  unfold login
  refine (silent_query _ _).emits fun found _ => ?_
  cases found with
  | none => exact hrefused _ _
  | some user =>
    have hmatched : Silent (matchesPassword L request.password user.passwordHash) fun _ => True := by
      unfold matchesPassword
      split
      · exact silent_pure trivial
      · exact silent_throw _
    refine hmatched.emits fun matched _ => ?_
    cases matched with
    | true => exact (silent_issueTokens L _ user).emits fun response h => emits_last rfl (by rw [Success.event, h])
    | false => exact hrefused _ _

theorem emits_refresh (L : Library) (ok : RefreshCall → Bool) (token : Option String) :
    Emits (refresh L ok token) fun response => [(Success.refreshed response).event L] := by
  have hhash : Silent (hashOf L token) fun _ => True := by
    unfold hashOf
    split
    · exact silent_pure trivial
    · exact silent_throw _
  have hdelete : ∀ old : RefreshToken, Silent (update (ok .delete) (·.delete old)) fun _ => True := fun old =>
    silent_update _ _ fun _ => rfl
  unfold refresh
  refine hhash.emits fun tokenHash _ => (silent_query _ _).emits fun found _ => ?_
  cases found with
  | none => exact emits_throw _
  | some old =>
    refine (silent_query _ _).emits fun expired _ => ?_
    cases expired with
    | true => exact (hdelete old).emits fun _ _ => emits_throw _
    | false =>
      refine (hdelete old).emits fun _ _ => (silent_query _ _).emits fun user _ => ?_
      cases user with
      | none => exact emits_throw _
      | some user => exact (silent_issueTokens L _ user).emits fun response h => emits_last rfl (by rw [Success.event, h])

/-- a logout that returns has named somebody -/
theorem logout_emits (L : Library) (ok : Bool) (authHeader : Option String) (s : St) :
    match logout L ok authHeader s with
    | .ok _ s' => ∃ userId, loggedOutAs L authHeader s = [.loggedOut userId] ∧
      s'.successes = s.successes ++ [(Success.loggedOut userId).event L]
    | .error _ s' => s'.successes = s.successes := by
  unfold logout loggedOutAs
  have hkeeps := extractUserId_keeps L authHeader s
  cases h : extractUserId L authHeader s with
  | error e s' =>
    rw [h] at hkeeps
    rw [bind_error h]
    exact congrArg St.successes hkeeps
  | ok userId s' =>
    rw [h] at hkeeps
    rw [bind_ok h, hkeeps]
    cases ok with
    | false => exact rfl
    | true => exact ⟨userId, rfl, successes_emit _ _⟩

/-! ## Runs -/

namespace Trail

/-- the events that an operation adds are those of the answers that it adds -/
def Told (L : Library) (y y' : Trail) : Prop := ∃ answers, y'.answers = y.answers ++ answers ∧
  y'.st.successes = y.st.successes ++ answers.map (Success.event L)

theorem told_answer {α : Type} {L : Library} {y : Trail} {x : Svc α} {success : α → Success}
    (h : Emits x fun a => [(success a).event L]) : Told L y (y.answer x success) := by
  have hemits := h y.st
  unfold Told answer
  cases hx : x y.st with
  | ok a s' =>
    rw [hx] at hemits
    exact ⟨[success a], rfl, hemits⟩
  | error e s' =>
    rw [hx] at hemits
    exact ⟨[], (List.append_nil _).symm, hemits.trans (List.append_nil _).symm⟩

theorem not_lost {L : Library} {y : Trail} {a : Attempt} (h : ∀ ok authHeader, a ≠ .logout ok false authHeader) :
    ¬ Lost L y a := fun ⟨ok, authHeader, _, heq, _⟩ => h ok authHeader heq

/-- a step tells what it has answered, or has emitted one event too many -/
theorem step_told (L : Library) (y : Trail) (a : Attempt) :
    (¬ Lost L y a ∧ Told L y (step L y a)) ∨
      (Lost L y a ∧ (step L y a).answers = y.answers ∧ ∃ event, (step L y a).st.successes = y.st.successes ++ [event]) := by
  cases a with
  | register ok send request =>
    exact .inl ⟨not_lost fun _ _ h => (by cases h), told_answer (emits_registerUser L ok send request)⟩
  | login ok request => exact .inl ⟨not_lost fun _ _ h => (by cases h), told_answer (emits_login L ok request)⟩
  | refresh ok token => exact .inl ⟨not_lost fun _ _ h => (by cases h), told_answer (emits_refresh L ok token)⟩
  | tick elapsed =>
    exact .inl ⟨not_lost fun _ _ h => (by cases h), [], (List.append_nil _).symm, (List.append_nil _).symm⟩
  | logout ok commit authHeader =>
    have hemits := logout_emits L ok authHeader y.st
    simp only [step]
    cases hx : Endpoints.logout L ok authHeader y.st with
    | error e s' =>
      rw [hx] at hemits
      refine .inl ⟨?_, [], (List.append_nil _).symm, hemits.trans (List.append_nil _).symm⟩
      rintro ⟨ok', authHeader', s'', ⟨⟩, hok⟩
      cases hx.symm.trans hok
    | ok a s' =>
      rw [hx] at hemits
      obtain ⟨userId, hnamed, hevents⟩ := hemits
      cases commit with
      | true =>
        refine .inl ⟨?_, [.loggedOut userId], ?_, hevents⟩
        · rintro ⟨ok', authHeader', s'', ⟨⟩, -⟩
        · simp [hnamed]
      | false => exact .inr ⟨⟨ok, authHeader, s', rfl, hx⟩, rfl, _, hevents⟩

/-- no answer without its event -/
theorem answers_le (L : Library) (users : List User) (now drawn : ℕ) (attempts : List Attempt) :
    (run (step L) (start users now drawn) attempts).answers.length ≤
      (run (step L) (start users now drawn) attempts).st.successes.length := by
  refine run_inv' (I := fun y : Trail => y.answers.length ≤ y.st.successes.length) ?_ (Nat.zero_le _) attempts
  intro y a h
  rcases step_told L y a with ⟨-, answers, hanswers, hevents⟩ | ⟨-, hanswers, event, hevents⟩
  · rw [hanswers, hevents, List.length_append, List.length_append, List.length_map]
    exact Nat.add_le_add_right h _
  · rw [hanswers, hevents, List.length_append]
    exact Nat.le_add_right_of_le h

end Trail

/-- **The trail is exact** if, and only if, no logout of the run was lost at its commit: after any run, whatever fails, the
success events are then those of the answers, in their order. -/
theorem trail_exact_iff (L : Library) (users : List User) (now drawn : ℕ) (attempts : List Attempt) :
    (run (Trail.step L) (Trail.start users now drawn) attempts).st.successes =
        (run (Trail.step L) (Trail.start users now drawn) attempts).answers.map (Success.event L) ↔
      Along (Trail.step L) (fun y a => ¬ Lost L y a) (Trail.start users now drawn) attempts := by
  induction attempts using List.reverseRecOn with
  | nil => exact iff_of_true rfl trivial
  | append_singleton attempts a ih =>
    have hle := Trail.answers_le L users now drawn attempts
    rw [along_append, ← ih, run_snoc]
    generalize run (Trail.step L) (Trail.start users now drawn) attempts = y at hle
    have hlast : Along (Trail.step L) (fun y a => ¬ Lost L y a) y [a] ↔ ¬ Lost L y a :=
      ⟨And.left, fun h => ⟨h, trivial⟩⟩
    rw [hlast]
    rcases Trail.step_told L y a with ⟨hkept, answers, hanswers, hevents⟩ | ⟨hlost, hanswers, event, hevents⟩
    · rw [hanswers, hevents, List.map_append, List.append_left_inj]
      exact (and_iff_left hkept).symm
    · refine iff_of_false (fun heq => ?_) fun h => h.2 hlost
      -- an event more than answers, and there were no fewer before
      have hlength := congrArg List.length heq
      rw [hanswers, hevents, List.length_append, List.length_map, List.length_singleton] at hlength
      omega

/-- alice logs in, and her logout is not committed -/
def uncommitted : Trail :=
  run (Trail.step readable) (Trail.start [alice] 0 1)
    [.login up ⟨some "alice@test.com", some "secret123"⟩,
      .logout true false (some "Bearer 00000000-0000-0000-0000-000000000000")]

-- the trail has her logged out, and her refresh token is still good
example : uncommitted.st.successes.map AuditEvent.eventType = ["auth.login.success", "auth.logout"] ∧
    uncommitted.answers.length = 1 ∧ uncommitted.st.refreshTokens.length = 1 := by
  decide

end Concordia.Auth.Endpoints
