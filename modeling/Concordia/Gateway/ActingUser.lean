/-
Whom the services act for, when the gateway has authenticated a request (`RequireAuth`): servers by `X-User-Id`, chat, tips
and voice by the Bearer token, voice's signaling by the Bearer token or the parameter `token`.

The gateway looks at the first parameter of that name and Starlette at the last. `httputil.ReverseProxy` leaves out the
headers that the request's `Connection` header names.

- `acting_user_iff`: a service that takes the request as authenticated acts for the user in `X-User-Id`, whom the gateway
  has rate limited and audited, unless it is signaling that is left without a Bearer header and the last `token` is valid
  for another user.
- `other_user`: a request with two valid tokens.
-/
import Concordia.Gateway.Forwarding
import Concordia.Chat.Create
import Concordia.Voice.System

namespace Concordia.Gateway.Forwarding

open Concordia.Lib
open Concordia.Servers (Uuid)
open Concordia.Chat (Backend authUser)

/-! ## Tokens -/

/-- the verifiers of the services, with one secret at one time -/
structure Verifiers where
  secret : String
  set : secret ≠ ""
  /-- the claim `sub` of a token -/
  subject : String → Option String
  /-- the tokens that `authmw.ValidateJWT` accepts -/
  gateway : String → Bool
  /-- the tokens that `authmw::validate_jwt` accepts -/
  chat : String → Bool
  /-- the tokens that `jose.jwt.decode` accepts -/
  python : String → Bool
  /-- a token that is accepted is written without blanks -/
  compact : ∀ t, gateway t = true → ' ' ∉ t.toList

namespace Verifiers

variable (v : Verifiers)

/-- the gateway's; a missing `sub` is "" in Go -/
def env (rateLimitEnabled : Bool) (incr : String → Option ℕ) : Env :=
  ⟨fun t => if v.gateway t then .ok ((v.subject t).getD "") else .error "invalid token", rateLimitEnabled, incr⟩

def backend (b : Backend) : Backend := { b with validateJwt := fun t => if v.chat t then v.subject t else none }

/-- `jwt.decode`: the claim `sub`, where it does not raise -/
def decode (t : String) : Option (Option String) := if v.python t then some (v.subject t) else none

def voiceEnv : Voice.Env := ⟨some v.secret, fun _ secret t => if secret = v.secret then v.decode t else none⟩

end Verifiers

/-! ## Forwarding -/

/-- `textproto.TrimString` -/
def trimString (s : List Char) : List Char := trim (· ∈ [' ', '\t', '\n', '\r']) s

/-- the names that the `Connection` header lists -/
def connectionTokens (h : Headers) : List String :=
  (h.values "Connection").flatMap fun v => ((v.toList.splitOn ',').map fun t => String.ofList (trimString t)).filter (· ≠ "")

def hopHeaders : List String :=
  ["Connection", "Proxy-Connection", "Keep-Alive", "Proxy-Authenticate", "Proxy-Authorization", "Te", "Trailer",
    "Transfer-Encoding", "Upgrade"]

def removeHopByHopHeaders (h : Headers) : Headers := (h.delAll (connectionTokens h)).delAll hopHeaders

/-- `httputil.ReverseProxy`, in what the services read of a request -/
def reverseProxy (r : HttpRequest) : HttpRequest := { r with headers := removeHopByHopHeaders r.headers }

/-! ## Services -/

inductive Service where
  | servers
  | chat
  | tips
  | voice
  | signaling
deriving DecidableEq, Repr

/-- the user that a service acts for: a text, or the UUID that chat has parsed -/
inductive Acting where
  | user (id : String)
  | uuid (u : Uuid)
deriving DecidableEq

def authorization (r : HttpRequest) : Option String := (r.headers.values "Authorization").head?

/-- Starlette's `query_params.get` -/
def lastToken (r : HttpRequest) : Option String := ((r.query.filter (·.1 = "token")).getLast?).map Prod.snd

/-- tips' `_get_user_id` -/
def tipsUserId (v : Verifiers) (authorization : Option String) : Option String := do
  let token ← Voice.bearer (authorization.getD "")
  let sub ← v.decode token
  sub.filter (· ≠ "")

/-- whom a service acts for, if it takes the request as authenticated -/
def actsFor (v : Verifiers) (b : Backend) (now : ℕ) (r : HttpRequest) : Service → Option Acting
  | .servers => (r.headers.values "X-User-Id").head?.map .user
  | .chat => (authUser (v.backend b) (authorization r)).map .uuid
  | .tips => (tipsUserId v (authorization r)).map .user
  | .voice => (v.voiceEnv.getUserId now (authorization r)).map .user
  | .signaling => (v.voiceEnv.signalUserId now (authorization r) (lastToken r)).map .user

/-- the user is the one with this id -/
def Acting.Is (b : Backend) (userId : String) : Acting → Prop
  | .user id => id = userId
  | .uuid u => b.parseUuid userId = some u

/-- a header that is not to be forwarded -/
def Named (h : Headers) (name : String) : Prop := ∃ t ∈ connectionTokens h, Headers.SameName t name

instance (h : Headers) (name : String) : Decidable (Named h name) := inferInstanceAs (Decidable (∃ t ∈ _, _))

/-- there is a Bearer header, and it is forwarded -/
def BearerArrives (r : HttpRequest) : Prop :=
  (bearer (r.headers.get "Authorization")).isSome ∧ ¬Named r.headers "Authorization"

instance (r : HttpRequest) : Decidable (BearerArrives r) := inferInstanceAs (Decidable (_ ∧ _))

/-- the last `token` is not valid, or holds the user of the token that the gateway has validated -/
def LastTokenAgrees (v : Verifiers) (r : HttpRequest) : Prop :=
  ∀ t ∈ lastToken r, t ≠ "" → v.python t = true → ∀ u ∈ v.subject t, u ≠ "" → v.subject (credential r) = some u

/-! ## What is forwarded -/

theorem serve_routed {env : Env} {r r' : HttpRequest} (h : (serve env r .all).2 = .routed r') :
    ∃ userId, env.validateJWT (credential r) = .ok userId ∧
      r' = { r with headers := r.headers.set "X-User-Id" userId } ∧ serve env r .all = limit env r' userId := by
  simp only [serve, requireAuth] at h ⊢
  split_ifs at h ⊢ with htoken
  cases hv : env.validateJWT (credential r) with
  | error reason =>
    rw [hv] at h
    cases h
  | ok userId =>
    rw [hv] at h
    have hr : r' = { r with headers := r.headers.set "X-User-Id" userId } := by
      simp only [limit] at h
      split_ifs at h with henabled
      · cases h
        rfl
      · cases hc : env.incr ("ratelimit:" ++ userId) with
        | none =>
          rw [hc] at h
          cases h
          rfl
        | some count =>
          rw [hc] at h
          simp only at h
          split_ifs at h
          cases h
          rfl
    exact ⟨userId, rfl, hr, by rw [hr]⟩

theorem values_reverseProxy (r : HttpRequest) {name : String} (hhop : ∀ n ∈ hopHeaders, ¬Headers.SameName n name) :
    (reverseProxy r).headers.values name = if Named r.headers name then [] else r.headers.values name := by
  rw [reverseProxy, removeHopByHopHeaders, Headers.values_delAll, if_neg (by simpa using hhop), Headers.values_delAll]
  rfl

/-- the request that the upstream of a user is sent -/
def forwarded (r : HttpRequest) (userId : String) : HttpRequest :=
  reverseProxy { r with headers := r.headers.set "X-User-Id" userId }

theorem named_set (h : Headers) (userId name : String) : Named (h.set "X-User-Id" userId) name ↔ Named h name := by
  have hne : ¬Headers.SameName "X-User-Id" "Connection" := by decide
  rw [Named, Named, connectionTokens, connectionTokens, Headers.values_set_of_ne hne]

theorem userId_forwarded {r : HttpRequest} {userId u : String}
    (h : ((forwarded r userId).headers.values "X-User-Id").head? = some u) : u = userId := by
  rw [forwarded, values_reverseProxy _ (by decide)] at h
  split_ifs at h with hnamed
  · cases h
  · rw [Headers.values_set_self] at h
    exact (Option.some.inj h).symm

theorem lastToken_forwarded (r : HttpRequest) (userId : String) : lastToken (forwarded r userId) = lastToken r := by
  simp only [lastToken, forwarded, reverseProxy]

theorem authorization_forwarded (r : HttpRequest) (userId : String) : authorization (forwarded r userId) =
    if Named r.headers "Authorization" then none else authorization r := by
  have hne : ¬Headers.SameName "X-User-Id" "Authorization" := by decide
  rw [authorization, forwarded, values_reverseProxy _ (by decide), apply_ite List.head?, Headers.values_set_of_ne hne]
  exact if_congr (named_set _ _ _) rfl rfl

/-- a header that is absent is like an empty one -/
theorem bind_bearer (authorization : Option String) : authorization.bind bearer = bearer (authorization.getD "") := by
  cases authorization with
  | none => decide
  | some value => rfl

/-- the token in the upstream's header -/
theorem bearer_forwarded (r : HttpRequest) (userId : String) : (authorization (forwarded r userId)).bind bearer =
    if Named r.headers "Authorization" then none else bearer (r.headers.get "Authorization") := by
  rw [authorization_forwarded]
  split_ifs
  · rfl
  · exact bind_bearer _

theorem bearer_arrives_iff (r : HttpRequest) (userId : String) :
    ((authorization (forwarded r userId)).bind bearer).isSome = true ↔ BearerArrives r := by
  rw [bearer_forwarded, BearerArrives]
  split_ifs with hnamed <;> simp [hnamed]

/-- it is the token that the gateway has validated -/
theorem credential_of_bearer (r : HttpRequest) (userId : String) {t : String}
    (h : (authorization (forwarded r userId)).bind bearer = some t) : credential r = t := by
  rw [bearer_forwarded] at h
  split_ifs at h
  rw [credential, h]
  rfl

/-! ## Whom each service acts for -/

section

variable {v : Verifiers} {b : Backend} {r : HttpRequest} {userId : String}

theorem authUser_holder {u : Uuid} (h : authUser (v.backend b) (authorization (forwarded r userId)) = some u) :
    ∃ sub, v.subject (credential r) = some sub ∧ b.parseUuid sub = some u := by
  obtain ⟨value, t, sub, hvalue, ht, hsub, huser⟩ := Chat.authUser_some h
  have hcred : credential r = t := credential_of_bearer r userId (by rw [hvalue]; exact ht)
  refine ⟨sub, ?_, huser⟩
  simp only [Verifiers.backend] at hsub
  split_ifs at hsub
  rwa [hcred]

theorem decode_eq {t : String} {sub : Option String} (h : v.decode t = some sub) : sub = v.subject t := by
  unfold Verifiers.decode at h
  split_ifs at h
  exact (Option.some.inj h).symm

theorem tipsUserId_holder {u : String} (h : tipsUserId v (authorization (forwarded r userId)) = some u) :
    v.subject (credential r) = some u := by
  unfold tipsUserId at h
  obtain ⟨t, ht, h⟩ := Option.bind_eq_some_iff.1 h
  obtain ⟨sub, hsub, h⟩ := Option.bind_eq_some_iff.1 h
  have hcred : credential r = t := credential_of_bearer r userId ((bind_bearer _).trans ht)
  rw [hcred, ← decode_eq hsub]
  exact (Option.filter_eq_some_iff.1 h).1

theorem getUserId_holder {now : ℕ} {u : String}
    (h : v.voiceEnv.getUserId now (authorization (forwarded r userId)) = some u) :
    v.subject (credential r) = some u := by
  unfold Voice.Env.getUserId at h
  obtain ⟨t, ht, h⟩ := Option.bind_eq_some_iff.1 h
  obtain ⟨-, -, h⟩ := Option.bind_eq_some_iff.1 h
  obtain ⟨sub, hsub, h⟩ := Option.bind_eq_some_iff.1 h
  have hcred : credential r = t := credential_of_bearer r userId ((bind_bearer _).trans ht)
  simp only [Verifiers.voiceEnv, Option.getD_some, if_true] at hsub
  rw [hcred, ← decode_eq hsub]
  exact (Option.filter_eq_some_iff.1 h).1

/-- signaling's user, from the token that it takes -/
theorem signalUserId_iff {now : ℕ} {auth last : Option String} {u : String} :
    v.voiceEnv.signalUserId now auth last = some u ↔
      ∃ t, ((auth.bind bearer).map Voice.firstWord).orElse (fun _ => last) = some t ∧ t ≠ "" ∧ v.python t = true ∧
        v.subject t = some u ∧ u ≠ "" := by
  unfold Voice.Env.signalUserId
  simp only [Option.bind_eq_bind, Option.bind_eq_some_iff, Verifiers.voiceEnv, Option.getD_some, if_true, Verifiers.decode,
    Option.filter_eq_some_iff]
  refine exists_congr fun t => and_congr_right fun _ => ?_
  by_cases ht : t = ""
  · simp [ht]
  · by_cases hp : v.python t = true <;> simp [ht, hp]

/-- signaling that is sent a Bearer header takes its token -/
theorem signalUserId_bearer {now : ℕ} {last : Option String} {t u : String} (hblank : ' ' ∉ t.toList)
    (ht : (authorization (forwarded r userId)).bind bearer = some t)
    (h : v.voiceEnv.signalUserId now (authorization (forwarded r userId)) last = some u) : v.subject t = some u := by
  obtain ⟨t', ht', -, -, hsub, -⟩ := signalUserId_iff.1 h
  have hword : Voice.firstWord t = t := by
    have htake : t.toList.takeWhile (· ≠ ' ') = t.toList :=
      List.takeWhile_eq_self_iff.2 fun c hc => decide_eq_true fun heq => hblank (heq ▸ hc)
    rw [Voice.firstWord, htake, String.ofList_toList]
  rw [ht, Option.map_some, hword] at ht'
  obtain rfl : t = t' := Option.some.inj ht'
  exact hsub

/-- an id that is not empty is the token's -/
theorem holder_of_id {u : String} (hid : userId = (v.subject (credential r)).getD "") (hne : u ≠ "") (hu : u = userId) :
    v.subject (credential r) = some u := by
  cases hsub : v.subject (credential r) with
  | none => exact absurd (by rw [hu, hid, hsub]; rfl) hne
  | some u' =>
    rw [hsub] at hid
    rw [hu, hid]
    rfl

/-! ## The theorem -/

/-- apart from signaling every service acts for the holder of the gateway's token -/
theorem others_agree (hid : userId = (v.subject (credential r)).getD "") {service : Service} (hne : service ≠ .signaling)
    (now : ℕ) : ∀ a ∈ actsFor v b now (forwarded r userId) service, a.Is b userId := by
  have hholder : ∀ {u}, v.subject (credential r) = some u → u = userId := by
    intro u hu
    rw [hid, hu]
    rfl
  intro a ha
  cases service with
  | signaling => exact absurd rfl hne
  | servers =>
    simp only [actsFor, Option.mem_map] at ha
    obtain ⟨u, hu, rfl⟩ := ha
    exact userId_forwarded hu
  | chat =>
    simp only [actsFor, Option.mem_map] at ha
    obtain ⟨u, hu, rfl⟩ := ha
    obtain ⟨sub, hsub, hparse⟩ := authUser_holder hu
    rw [Acting.Is, ← hholder hsub]
    exact hparse
  | tips =>
    simp only [actsFor, Option.mem_map] at ha
    obtain ⟨u, hu, rfl⟩ := ha
    exact hholder (tipsUserId_holder hu)
  | voice =>
    simp only [actsFor, Option.mem_map] at ha
    obtain ⟨u, hu, rfl⟩ := ha
    exact hholder (getUserId_holder hu)

theorem signaling_agrees_iff (hvalid : v.gateway (credential r) = true)
    (hid : userId = (v.subject (credential r)).getD "") :
    (∀ now, ∀ a ∈ actsFor v b now (forwarded r userId) .signaling, a.Is b userId) ↔
      BearerArrives r ∨ LastTokenAgrees v r := by
  have hholder : ∀ {u}, v.subject (credential r) = some u → u = userId := by
    intro u hu
    rw [hid, hu]
    rfl
  refine ⟨?_, ?_⟩
  · intro h
    refine or_iff_not_imp_left.2 fun hnone t ht htoken hp u hu hne => ?_
    -- without the header, the last parameter is taken
    have hbind : (authorization (forwarded r userId)).bind bearer = none := by
      rw [← Option.not_isSome_iff_eq_none, bearer_arrives_iff]
      exact hnone
    have hsignal : v.voiceEnv.signalUserId 0 (authorization (forwarded r userId)) (lastToken r) = some u :=
      signalUserId_iff.2 ⟨t, by rw [hbind]; exact ht, htoken, hp, hu, hne⟩
    have hu' : u = userId := h 0 (.user u) (by
      simp only [actsFor, Option.mem_map, lastToken_forwarded]
      exact ⟨u, hsignal, rfl⟩)
    exact holder_of_id hid hne hu'
  · intro h now a ha
    simp only [actsFor, Option.mem_map] at ha
    obtain ⟨u, hu, rfl⟩ := ha
    cases ht : (authorization (forwarded r userId)).bind bearer with
    | some t =>
      have hcred := credential_of_bearer r userId ht
      refine hholder ?_
      rw [hcred]
      exact signalUserId_bearer (v.compact t (hcred ▸ hvalid)) ht hu
    | none =>
      have hlast : LastTokenAgrees v r := by
        refine h.resolve_left fun hb => ?_
        rw [← bearer_arrives_iff r userId, ht] at hb
        cases hb
      obtain ⟨t, htake, htoken, hp, hsub, hne⟩ := signalUserId_iff.1 hu
      rw [ht, lastToken_forwarded] at htake
      exact hholder (hlast t htake htoken hp u hsub hne)

end

/-- a request that the gateway forwards carries one `X-User-Id`, that of the user who was rate limited; each service acts
for that user or for nobody, signaling iff it is sent the Bearer header or the last `token` is no other user's -/
theorem acting_user_iff (v : Verifiers) (b : Backend) (rateLimitEnabled : Bool) (incr : String → Option ℕ)
    (r r' : HttpRequest) (h : (serve (v.env rateLimitEnabled incr) r .all).2 = .routed r') :
    ∃ userId, r'.headers.values "X-User-Id" = [userId] ∧
      serve (v.env rateLimitEnabled incr) r .all = limit (v.env rateLimitEnabled incr) r' userId ∧
      ∀ service, (∀ now, ∀ a ∈ actsFor v b now (reverseProxy r') service, a.Is b userId) ↔
        (service = .signaling → BearerArrives r ∨ LastTokenAgrees v r) := by
  obtain ⟨userId, hjwt, rfl, hlimit⟩ := serve_routed h
  simp only [Verifiers.env] at hjwt
  split_ifs at hjwt with hvalid
  have hid : userId = (v.subject (credential r)).getD "" := (Except.ok.inj hjwt).symm
  refine ⟨userId, Headers.values_set_self, hlimit, fun service => ?_⟩
  by_cases hs : service = .signaling
  · subst hs
    exact (signaling_agrees_iff hvalid hid).trans ⟨fun h _ => h, fun h => h rfl⟩
  · exact iff_of_true (fun now => others_agree hid hs now) fun h => absurd h hs

/-- alice and bob, each with a token that is valid everywhere -/
def aliceAndBob : Verifiers where
  secret := "secret"
  set := by decide
  subject t := if t = "a.a.a" then some "alice" else if t = "b.b.b" then some "bob" else none
  gateway t := t = "a.a.a" || t = "b.b.b"
  chat t := t = "a.a.a" || t = "b.b.b"
  python t := t = "a.a.a" || t = "b.b.b"
  compact t h := by
    simp only [Bool.or_eq_true, decide_eq_true_eq] at h
    rcases h with rfl | rfl <;> decide

/-- a backend of chat that is never asked -/
def noBackend : Backend :=
  ⟨fun _ => none, fun _ => none, fun _ _ => .error .syntaxError, fun _ => none, fun _ => none, false, 0, 0⟩

/-- alice's header and bob's parameter: signaling acts for alice -/
theorem acting_user_header : ∃ a, actsFor aliceAndBob noBackend 0 (reverseProxy ⟨"/voice/c/signal",
      Headers.set [("Authorization", "Bearer a.a.a")] "X-User-Id" "alice", [("token", "b.b.b")], "172.18.0.2:51000"⟩)
      .signaling = some a ∧ a.Is noBackend "alice" := by
  obtain ⟨userId, hid, -, hall⟩ := acting_user_iff aliceAndBob noBackend false (fun _ => none)
    ⟨"/voice/c/signal", [("Authorization", "Bearer a.a.a")], [("token", "b.b.b")], "172.18.0.2:51000"⟩ _ rfl
  have halice : ["alice"] = [userId] := Headers.values_set_self.symm.trans hid
  obtain rfl : "alice" = userId := (List.cons.inj halice).1
  have hacts : actsFor aliceAndBob noBackend 0 (reverseProxy ⟨"/voice/c/signal",
      Headers.set [("Authorization", "Bearer a.a.a")] "X-User-Id" "alice", [("token", "b.b.b")], "172.18.0.2:51000"⟩)
      .signaling = some (.user "alice") := by decide
  exact ⟨_, hacts, (hall .signaling).2 (fun _ => .inl (by decide)) 0 _ hacts⟩

/-- "?token=a.a.a&token=b.b.b": the gateway has authenticated alice, and signaling acts for bob -/
theorem other_user : ∃ r', (serve (aliceAndBob.env false fun _ => none)
      ⟨"/voice/c/signal", [], [("token", "a.a.a"), ("token", "b.b.b")], "172.18.0.2:51000"⟩ .all).2 = .routed r' ∧
    r'.headers.values "X-User-Id" = ["alice"] ∧
    actsFor aliceAndBob noBackend 0 (reverseProxy r') .signaling = some (.user "bob") :=
  ⟨_, rfl, by decide, by decide⟩

end Concordia.Gateway.Forwarding
