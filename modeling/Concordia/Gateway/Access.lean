/-
What a request without a valid JWT gets from the gateway (`buildMux` in `services/gateway/server.go`, the middleware, and
`PushHandler` in `ws/handler.go`), when it comes through the reverse proxy's `location /api/`
(`services/reverse-proxy/nginx-tls.conf`).

`serve` answers one request: CORS, then the route's handler, with the effects that can be seen from outside the gateway.
`RequireAuth` asks `validateJWT`; the rate limiter's counter, the open sockets of every replica and whether Redis takes a
publish are the environment's. Response headers and the log change nothing here.

- `access_controlled_iff`: such a request gets no further than a public route iff it is neither `POST /internal/push` nor
  a GET or HEAD below `/debug/pprof/`.
- `outsider_pushes`: anyone can write an event to a socket with `POST /api/internal/push`.
-/
import Concordia.Lib.ServeMux

namespace Concordia.Gateway

open Concordia.Lib.ServeMux

/-! ## Requests -/

/-- the body of `POST /internal/push` -/
structure PushRequest where
  sessionIds : List String
  /-- `none`: absent -/
  event : Option String
deriving DecidableEq, Repr

structure Request where
  method : String
  /-- the escaped path -/
  path : List Char
  /-- the header, "" when absent -/
  authorization : String
  /-- the query parameter, "" when absent -/
  token : String
  /-- the body as `PushHandler` reads it; `none`: not JSON of that shape -/
  body : Option PushRequest
deriving DecidableEq, Repr

/-- `location /api/` with `proxy_pass http://gateway/` -/
def forward (r : Request) : Option Request :=
  if "/api/".toList <+: r.path then some { r with path := '/' :: r.path.drop 5 } else none

inductive Upstream where
  | auth
  | servers
  | chat
  | voice
  | tips
  | presence
deriving DecidableEq, Repr

inductive Effect where
  | audit (eventType : String)
  | contact (upstream : Upstream)
  /-- an event written to a WebSocket -/
  | write (connId event : String)
  /-- an event published to the other replicas -/
  | publish
  /-- a profile of the running process is made -/
  | disclose (profile : String)
deriving DecidableEq, Repr

inductive AuthEndpoint where
  | register
  | login
  | refresh
deriving DecidableEq, Repr

inductive Answer where
  | preflight
  | redirect
  | methodNotAllowed
  | notFound
  | unauthorized
  | health
  /-- auth's own answer -/
  | auth (endpoint : AuthEndpoint)
  | upgraded
  | rateLimited
  /-- an upstream's answer, through `router` -/
  | routed (upstream : Upstream)
  | noRoute
  | pushError (status : ℕ) (error : String)
  | pushAccepted
  | pushed (delivered missing : ℕ)
  | profile
deriving DecidableEq, Repr

structure Env where
  /-- the user id in a valid token -/
  validateJWT : String → Option String
  /-- the user has used up the minute's requests -/
  limited : String → Bool
  backplane : Bool
  /-- Redis takes a publish -/
  redisUp : Bool
  /-- the sockets this replica holds -/
  conns : List String
  /-- the sockets each replica holds, this one included -/
  replicas : List (List String)

/-! ## Handlers -/

/-- `router`: chat's paths go before the other channel paths -/
def isChatPath (path : List Char) : Bool :=
  "/channels/".toList.isPrefixOf path &&
    match (path.drop 10).dropWhile (· ≠ '/') with
    | [] => false
    | _ :: sub => "messages".toList.isPrefixOf sub || "attachments".toList.isPrefixOf sub

def router (path : List Char) : Option Upstream :=
  if "/auth".toList.isPrefixOf path then some .auth
  else if "/users".toList.isPrefixOf path then some .auth
  else if isChatPath path then some .chat
  else if "/servers".toList.isPrefixOf path || "/channels".toList.isPrefixOf path then some .servers
  else if "/voice".toList.isPrefixOf path then some .voice
  else if "/tips".toList.isPrefixOf path then some .tips
  else if "/presence".toList.isPrefixOf path then some .presence
  else none

/-- the token after "Bearer " -/
def bearer (authorization : String) : Option String :=
  if "Bearer ".toList.isPrefixOf authorization.toList then some (String.ofList (authorization.toList.drop 7)) else none

/-- the query parameter is looked at when the header is no Bearer header -/
def tokenOf (r : Request) : String := (bearer r.authorization).getD r.token

def requireAuth (env : Env) (r : Request) (next : String → Answer × List Effect) : Answer × List Effect :=
  if tokenOf r = "" then (.unauthorized, [])
  else match env.validateJWT (tokenOf r) with
    | none => (.unauthorized, [.audit "gateway.jwt.failure"])
    | some userId => next userId

/-- `rl.Limit(router)` -/
def limitedRouter (env : Env) (r : Request) (userId : String) : Answer × List Effect :=
  if env.limited userId then (.rateLimited, [.audit "gateway.ratelimit.breach"])
  else match router (unescape r.path) with
    | some u => (.routed u, [.contact u])
    | none => (.noRoute, [])

/-- the sessions of a push that a replica holds -/
def deliverLocal (conns : List String) (sessionIds : List String) (event : String) : List Effect :=
  (sessionIds.filter (· ∈ conns)).map (.write · event)

def pushHandler (env : Env) (r : Request) : Answer × List Effect :=
  match r.body with
  | none => (.pushError 400 "invalid json", [])
  | some ⟨_, none⟩ => (.pushError 400 "event required", [])
  | some ⟨sessionIds, some event⟩ =>
    if env.backplane then
      if env.redisUp then
        (.pushAccepted, .publish :: env.replicas.flatMap fun conns => deliverLocal conns sessionIds event)
      else (.pushError 502 "backplane unavailable", [])
    else
      let writes := deliverLocal env.conns sessionIds event
      (.pushed writes.length (sessionIds.length - writes.length), writes)

/-- what `net/http/pprof` registers on `http.DefaultServeMux`, each for GET; the handlers are named after their profile -/
def pprofPatterns : List (Pattern String) :=
  [⟨some "GET", ["debug", "pprof"], true, "index"⟩, ⟨some "GET", ["debug", "pprof", "cmdline"], false, "cmdline"⟩,
    ⟨some "GET", ["debug", "pprof", "profile"], false, "profile"⟩,
    ⟨some "GET", ["debug", "pprof", "symbol"], false, "symbol"⟩,
    ⟨some "GET", ["debug", "pprof", "trace"], false, "trace"⟩]

def defaultServeMux (r : Request) : Answer × List Effect :=
  match find pprofPatterns r.method r.path with
  | .handler name => (.profile, [.disclose name])
  | .redirect => (.redirect, [])
  | .methodNotAllowed => (.methodNotAllowed, [])
  | .notFound => (.notFound, [])

/-! ## The gateway -/

inductive Handler where
  | health
  | auth (endpoint : AuthEndpoint)
  | ws
  | push
  | all
  | pprof
deriving DecidableEq, Repr

/-- `buildMux` -/
def patterns : List (Pattern Handler) :=
  [⟨some "GET", ["health"], false, .health⟩, ⟨some "POST", ["auth", "register"], false, .auth .register⟩,
    ⟨some "POST", ["auth", "login"], false, .auth .login⟩, ⟨some "POST", ["auth", "refresh"], false, .auth .refresh⟩,
    ⟨some "GET", ["ws"], false, .ws⟩, ⟨some "POST", ["internal", "push"], false, .push⟩, ⟨none, [], true, .all⟩,
    ⟨none, ["debug", "pprof"], true, .pprof⟩]

def handle (env : Env) (r : Request) : Handler → Answer × List Effect
  | .health => (.health, [])
  | .auth endpoint => (.auth endpoint, [.contact .auth])
  | .ws => requireAuth env r fun _ => (.upgraded, [.contact .presence])
  | .push => pushHandler env r
  | .all => requireAuth env r (limitedRouter env r)
  | .pprof => defaultServeMux r

/-- `middleware.CORS`, then the mux -/
def serve (env : Env) (r : Request) : Answer × List Effect :=
  if r.method = "OPTIONS" then (.preflight, [])
  else match find patterns r.method r.path with
    | .handler h => handle env r h
    | .redirect => (.redirect, [])
    | .methodNotAllowed => (.methodNotAllowed, [])
    | .notFound => (.notFound, [])

/-! ## Access control -/

/-- neither the header nor the parameter holds a token that is valid -/
def NoValidJWT (env : Env) (r : Request) : Prop :=
  ∀ t ∈ (bearer r.authorization).toList ++ [r.token], t ≠ "" → env.validateJWT t = none

instance (env : Env) (r : Request) : Decidable (NoValidJWT env r) := inferInstanceAs (Decidable (∀ t ∈ _, _))

/-- the answer is a refusal or comes from a public route, and nothing has happened but an audit event or a request to
auth -/
structure Controlled (out : Answer × List Effect) : Prop where
  answer : out.1 ∈ [Answer.unauthorized, .redirect, .methodNotAllowed, .preflight, .health, .auth .register,
    .auth .login, .auth .refresh]
  effects : ∀ e ∈ out.2, e = .audit "gateway.jwt.failure" ∨ (e = .contact .auth ∧ ∃ endpoint, out.1 = .auth endpoint)

/-- `POST /internal/push` -/
def IsPush (r : Request) : Prop :=
  r.method = "POST" ∧ cleanPath r.path = r.path ∧ segments r.path = ["internal", "push"]

/-- GET or HEAD of a path below `/debug/pprof/` -/
def IsProfile (r : Request) : Prop :=
  (r.method = "GET" ∨ r.method = "HEAD") ∧ cleanPath r.path = r.path ∧
    ["debug", "pprof"] <+: segments r.path ∧ segments r.path ≠ ["debug", "pprof"]

instance (r : Request) : Decidable (IsPush r) := inferInstanceAs (Decidable (_ ∧ _))

instance (r : Request) : Decidable (IsProfile r) := inferInstanceAs (Decidable (_ ∧ _))

/-! ## Which requests reach which route -/

theorem no_slash_literal : ∀ p ∈ patterns, "/" ∉ p.segments := by decide

theorem push_pattern : ∀ p ∈ patterns, p.handler = .push → p = ⟨some "POST", ["internal", "push"], false, .push⟩ := by
  decide

theorem pprof_pattern : ∀ p ∈ patterns, p.handler = .pprof → p = ⟨none, ["debug", "pprof"], true, .pprof⟩ := by decide

/-- the paths that a redirect for a missing slash answers -/
theorem subtree_literals : ∀ p ∈ patterns, p.subtree = true → p.segments = [] ∨ p.segments = ["debug", "pprof"] := by
  decide

theorem no_slashRedirect {r : Request} (hhead : r.path.head? = some '/') (hnil : segments r.path ≠ [])
    (hroot : segments r.path ≠ ["debug", "pprof"]) : slashRedirect patterns r.method r.path = false := by
  cases hr : slashRedirect patterns r.method r.path with
  | false => rfl
  | true =>
    obtain ⟨p, hp, hsub, hsegs⟩ := slashRedirect_pattern hhead no_slash_literal hr
    rcases subtree_literals p hp hsub with h | h
    · exact absurd (hsegs.trans h) hnil
    · exact absurd (hsegs.trans h) hroot

theorem push_found {r : Request} (hhead : r.path.head? = some '/') :
    find patterns r.method r.path = .handler .push ↔ IsPush r := by
  rw [find_handler]
  refine ⟨?_, ?_⟩
  · intro h
    obtain ⟨hclean, -, p, hp, hh⟩ := h
    obtain ⟨hmem, hm, hmethod⟩ := matchMethod_mem hp
    rw [push_pattern p hmem hh] at hm hmethod
    have hpost : r.method = "POST" := by simpa [eq_comm] using hmethod
    refine ⟨hpost, hclean.resolve_left (by rw [hpost]; decide), ?_⟩
    simpa [Matches, Covers] using hm
  · intro h
    obtain ⟨hpost, hclean, hsegs⟩ := h
    refine ⟨.inr hclean, no_slashRedirect hhead (by rw [hsegs]; decide) (by rw [hsegs]; decide), ?_⟩
    rw [hpost, hsegs]
    exact ⟨_, rfl, rfl⟩

/-- below `/debug/pprof/` only the two subtrees match -/
theorem matches_below {path : List String} (hbelow : ["debug", "pprof"] <+: path) (p : Pattern Handler)
    (hp : p ∈ patterns) (hm : Matches p path) : p.method = none := by
  obtain ⟨rest, rfl⟩ := hbelow
  simp only [patterns, List.mem_cons, List.not_mem_nil, or_false] at hp
  rcases hp with rfl | rfl | rfl | rfl | rfl | rfl | rfl | rfl <;> simp_all [Matches, Covers]

theorem pprof_found {r : Request} (hhead : r.path.head? = some '/') :
    find patterns r.method r.path = .handler .pprof ↔
      Clean r.method r.path ∧ ["debug", "pprof"] <+: segments r.path ∧ segments r.path ≠ ["debug", "pprof"] := by
  rw [find_handler]
  refine ⟨?_, ?_⟩
  · intro h
    obtain ⟨hclean, -, p, hp, hh⟩ := h
    obtain ⟨hmem, hm, -⟩ := matchMethod_mem hp
    rw [pprof_pattern p hmem hh] at hm
    obtain ⟨rest, hrest, hsegs⟩ := (show ∃ rest, rest ≠ [] ∧ segments r.path = ["debug", "pprof"] ++ rest from hm)
    refine ⟨hclean, ⟨rest, hsegs.symm⟩, ?_⟩
    rw [hsegs]
    simpa using hrest
  · intro h
    obtain ⟨hclean, hbelow, hne⟩ := h
    have hnil : segments r.path ≠ [] := by
      intro hn
      rw [hn] at hbelow
      exact absurd hbelow (by decide)
    refine ⟨hclean, no_slashRedirect hhead hnil hne, ?_⟩
    rw [matchMethod_any (fun p hp hmethod hm => hmethod (matches_below hbelow p hp hm))]
    -- of the two subtrees, the one with more literals wins
    have hpprof : Matches (⟨none, ["debug", "pprof"], true, .pprof⟩ : Pattern Handler) (segments r.path) := by
      obtain ⟨rest, hrest⟩ := hbelow
      refine ⟨rest, ?_, hrest.symm⟩
      rintro rfl
      exact hne hrest.symm
    cases hm : matchPath (forMethod patterns none) (segments r.path) with
    | none => exact absurd hpprof (matchPath_none.1 hm _ (by decide))
    | some q =>
      obtain ⟨hmem, -, hbest⟩ := matchPath_some hm
      have hlong := hbest _ (by decide) hpprof
      have hq : ∀ q ∈ forMethod patterns none, 2 ≤ q.segments.length → q.handler = .pprof := by decide
      exact ⟨q, rfl, hq q hmem hlong⟩

/-- a path below the slash is always matched -/
theorem not_unmatched {r : Request} (hhead : r.path.head? = some '/') :
    find patterns r.method r.path ≠ .methodNotAllowed ∧ find patterns r.method r.path ≠ .notFound := by
  by_cases hc : Clean r.method r.path
  · rw [find_clean hc]
    cases hm : matchMethod patterns r.method (segments r.path) with
    | some p => split_ifs <;> simp
    | none =>
      exfalso
      unfold matchMethod at hm
      obtain ⟨-, hm⟩ := Option.or_eq_none_iff.1 hm
      obtain ⟨-, hm⟩ := Option.or_eq_none_iff.1 hm
      apply matchPath_none.1 hm ⟨none, [], true, .all⟩ (by decide)
      refine ⟨segments r.path, ?_, rfl⟩
      intro hnil
      obtain ⟨rest, hpath⟩ : ∃ rest, r.path = '/' :: rest := by
        cases hp : r.path with
        | nil => rw [hp] at hhead; cases hhead
        | cons c cs => rw [hp] at hhead; exact ⟨cs, by simpa using hhead⟩
      have hlen := segments_length rest
      rw [← hpath, hnil, hpath] at hlen
      simp at hlen
  · rw [find_unclean hc]
    simp

/-- below `/debug/pprof/` the default mux answers every GET and HEAD with a profile and refuses other methods -/
theorem defaultServeMux_below {r : Request} (hhead : r.path.head? = some '/') (hclean : Clean r.method r.path)
    (hbelow : ["debug", "pprof"] <+: segments r.path) (hne : segments r.path ≠ ["debug", "pprof"]) :
    if r.method = "GET" ∨ r.method = "HEAD" then (defaultServeMux r).1 = .profile
    else defaultServeMux r = (.methodNotAllowed, []) := by
  have hslash : slashRedirect pprofPatterns r.method r.path = false := by
    cases hr : slashRedirect pprofPatterns r.method r.path with
    | false => rfl
    | true =>
      obtain ⟨p, hp, hsub, hsegs⟩ := slashRedirect_pattern hhead (by decide) hr
      have hroot : ∀ p ∈ pprofPatterns, p.subtree = true → p.segments = ["debug", "pprof"] := by decide
      exact absurd (hsegs.trans (hroot p hp hsub)) hne
  -- the index matches, so GET has a match
  have hget : ∃ q, matchPath (forMethod pprofPatterns (some "GET")) (segments r.path) = some q := by
    cases hm : matchPath (forMethod pprofPatterns (some "GET")) (segments r.path) with
    | some q => exact ⟨q, rfl⟩
    | none =>
      obtain ⟨rest, hrest⟩ := hbelow
      refine absurd ⟨rest, ?_, hrest.symm⟩ (matchPath_none.1 hm ⟨some "GET", ["debug", "pprof"], true, "index"⟩ (by decide))
      rintro rfl
      exact hne hrest.symm
  obtain ⟨q, hq⟩ := hget
  have hempty : ∀ m, m ≠ some "GET" → matchPath (forMethod pprofPatterns m) (segments r.path) = none := by
    intro m hm
    rw [matchPath_none]
    intro p hp
    obtain ⟨hmem, hpm⟩ := mem_forMethod.1 hp
    have hall : ∀ p ∈ pprofPatterns, p.method = some "GET" := by decide
    exact absurd (hpm.symm.trans (hall p hmem)) hm
  have hother : otherMethods pprofPatterns r.path = true := by
    unfold otherMethods
    rw [List.any_eq_true]
    exact ⟨⟨some "GET", ["debug", "pprof"], true, "index"⟩, by decide, by simp [hq]⟩
  unfold defaultServeMux
  rw [find_clean hclean, hslash, if_neg Bool.false_ne_true]
  by_cases hm : r.method = "GET" ∨ r.method = "HEAD"
  · have hfound : matchMethod pprofPatterns r.method (segments r.path) = some q := by
      rcases hm with hm | hm
      · simp [matchMethod, hm, hq]
      · simp [matchMethod, hm, hempty (some "HEAD") (by decide), hq]
    rw [if_pos hm, hfound]
  · obtain ⟨hget, hhead'⟩ := not_or.1 hm
    have hfound : matchMethod pprofPatterns r.method (segments r.path) = none := by
      simp [matchMethod, hhead', hempty (some r.method) (by simpa using hget), hempty none (by simp)]
    rw [if_neg hm, hfound, hother]
    rfl

/-! ## Without a token -/

theorem tokenOf_refused {env : Env} {r : Request} (h : NoValidJWT env r) :
    tokenOf r = "" ∨ env.validateJWT (tokenOf r) = none := by
  by_cases ht : tokenOf r = ""
  · exact .inl ht
  · refine .inr (h _ ?_ ht)
    unfold tokenOf
    cases bearer r.authorization <;> simp

/-- `RequireAuth` answers such a request itself -/
theorem requireAuth_controlled {env : Env} {r : Request} (h : NoValidJWT env r)
    (next : String → Answer × List Effect) : Controlled (requireAuth env r next) := by
  unfold requireAuth
  rcases tokenOf_refused h with ht | ht
  · rw [if_pos ht]
    exact ⟨by simp, by simp⟩
  · split_ifs
    · exact ⟨by simp, by simp⟩
    · rw [ht]
      exact ⟨by simp, by simp⟩

theorem pushHandler_uncontrolled (env : Env) (r : Request) : ¬ Controlled (pushHandler env r) := by
  intro h
  have hanswer := h.answer
  unfold pushHandler at hanswer
  cases hb : r.body with
  | none => simp [hb] at hanswer
  | some body =>
    obtain ⟨sessionIds, _ | event⟩ := body
    · simp [hb] at hanswer
    · rw [hb] at hanswer
      dsimp only at hanswer
      split_ifs at hanswer <;> simp at hanswer

theorem serve_found {env : Env} {r : Request} {h : Handler} (ho : r.method ≠ "OPTIONS")
    (hf : find patterns r.method r.path = .handler h) : serve env r = handle env r h := by
  unfold serve
  rw [if_neg ho, hf]

/-- **Who gets in without a token.** A request that comes through the proxy without a valid JWT gets no further than a
refusal or a public route iff it is neither `POST /internal/push` nor a GET or HEAD below `/debug/pprof/`. -/
theorem access_controlled_iff (env : Env) (x r : Request) (hx : forward x = some r) (hjwt : NoValidJWT env r) :
    Controlled (serve env r) ↔ ¬ IsPush r ∧ ¬ IsProfile r := by
  have hhead : r.path.head? = some '/' := by
    unfold forward at hx
    split_ifs at hx
    cases hx
    rfl
  by_cases ho : r.method = "OPTIONS"
  · have hserve : serve env r = (.preflight, []) := if_pos ho
    have hpush : ¬ IsPush r := fun h => absurd (h.1.symm.trans ho) (by decide)
    have hprofile : ¬ IsProfile r := by
      intro h
      rcases h.1 with hm | hm <;> exact absurd (hm.symm.trans ho) (by decide)
    rw [hserve]
    exact ⟨fun _ => ⟨hpush, hprofile⟩, fun _ => ⟨by simp, by simp⟩⟩
  · have hpush := push_found hhead
    have hpprof := pprof_found hhead
    cases hf : find patterns r.method r.path with
    | methodNotAllowed => exact absurd hf (not_unmatched hhead).1
    | notFound => exact absurd hf (not_unmatched hhead).2
    | redirect =>
      rw [hf] at hpush hpprof
      have hserve : serve env r = (.redirect, []) := by
        unfold serve
        rw [if_neg ho, hf]
      rw [hserve]
      refine ⟨fun _ => ⟨fun h => by simpa using hpush.2 h, fun h => ?_⟩, fun _ => ⟨by simp, by simp⟩⟩
      simpa using hpprof.2 ⟨.inr h.2.1, h.2.2⟩
    | handler h =>
      rw [serve_found ho hf]
      rw [hf] at hpush hpprof
      -- of the six routes only the last two let the request through
      have hsafe : h ≠ .push → h ≠ .pprof → ¬ IsPush r ∧ ¬ IsProfile r := by
        intro h1 h2
        refine ⟨fun hp => h1 (by simpa using hpush.2 hp), fun hp => h2 ?_⟩
        simpa using hpprof.2 ⟨.inr hp.2.1, hp.2.2⟩
      cases h with
      | health => exact ⟨fun _ => hsafe (by simp) (by simp), fun _ => ⟨by simp [handle], by simp [handle]⟩⟩
      | auth endpoint =>
        refine ⟨fun _ => hsafe (by simp) (by simp), fun _ => ⟨?_, by simp [handle]⟩⟩
        cases endpoint <;> simp [handle]
      | ws => exact ⟨fun _ => hsafe (by simp) (by simp), fun _ => requireAuth_controlled hjwt _⟩
      | push =>
        refine ⟨fun hc => absurd hc (pushHandler_uncontrolled env r), fun hc => absurd (hpush.1 rfl) hc.1⟩
      | all => exact ⟨fun _ => hsafe (by simp) (by simp), fun _ => requireAuth_controlled hjwt _⟩
      | pprof =>
        obtain ⟨hclean, hbelow, hne⟩ := hpprof.1 rfl
        have hnotPush : ¬ IsPush r := fun hp => by simpa using hpush.2 hp
        have hanswer := defaultServeMux_below hhead hclean hbelow hne
        by_cases hm : r.method = "GET" ∨ r.method = "HEAD"
        · rw [if_pos hm] at hanswer
          have hprofile : IsProfile r := by
            refine ⟨hm, hclean.resolve_left ?_, hbelow, hne⟩
            rcases hm with hm | hm <;> rw [hm] <;> decide
          refine ⟨?_, fun hc => absurd hprofile hc.2⟩
          intro hc
          have := hc.answer
          simp [handle, hanswer] at this
        · rw [if_neg hm] at hanswer
          refine ⟨fun _ => ⟨hnotPush, fun hp => hm hp.1⟩, ?_⟩
          intro _
          show Controlled (defaultServeMux r)
          rw [hanswer]
          exact ⟨by simp, by simp⟩

/-- a gateway that holds alice's socket -/
def oneSocket : Env where
  validateJWT _ := none
  limited _ := false
  backplane := false
  redisUp := true
  conns := ["gateway-1"]
  replicas := [["gateway-1"]]

/-- a request without any token -/
def anonymous (method path : String) (body : Option PushRequest) : Request := ⟨method, path.toList, "", "", body⟩

/-- a request for the list of servers is refused -/
theorem servers_refused : Controlled (serve oneSocket (anonymous "GET" "/servers" none)) :=
  (access_controlled_iff oneSocket (anonymous "GET" "/api/servers" none) _ (by decide) (by decide)).2
    ⟨by decide, by decide⟩

/-- the push of an outsider -/
def forged : Request := anonymous "POST" "/api/internal/push" (some ⟨["gateway-1"], some "forged"⟩)

/-- the event of the forged push is written to alice's socket -/
theorem outsider_pushes : ∃ r, forward forged = some r ∧ NoValidJWT oneSocket r ∧
    Effect.write "gateway-1" "forged" ∈ (serve oneSocket r).2 ∧ ¬ Controlled (serve oneSocket r) := by
  refine ⟨anonymous "POST" "/internal/push" (some ⟨["gateway-1"], some "forged"⟩), by decide, by decide, by decide, ?_⟩
  intro h
  exact absurd h.answer (by decide)

end Concordia.Gateway
