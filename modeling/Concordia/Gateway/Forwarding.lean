/-
How a request gets through the reverse proxy and the gateway to an upstream: `location /api/` in
`services/reverse-proxy/nginx-tls.conf`, then `RequireAuth`, `Limit` and `clientIP` in `services/gateway/middleware`.

`serve` gives the audit events that are emitted and what becomes of the request. `ValidateJWT` and Redis' answers to INCR
are the environment's; the limiter's expiries are in `Concordia.Gateway.RateLimit`, the routes in
`Concordia.Gateway.Access`.
-/
import Concordia.Lib.Headers
import Concordia.Lib.Dict
import Concordia.Audit.Event
import Concordia.Gateway.Access

namespace Concordia.Gateway.Forwarding

open Concordia.Lib

/-- what a server has read of a request -/
structure HttpRequest where
  path : String
  headers : Headers
  /-- the query's parameters in their order -/
  query : List (String × String)
  /-- the other end of the connection -/
  remoteAddr : String
deriving DecidableEq, Repr

/-- `unicode.IsSpace` -/
def isSpace (c : Char) : Bool :=
  c ∈ ['\t', '\n', '\x0b', '\x0c', '\r', ' ', '\x85', '\xa0', '\u1680', '\u2000', '\u2001', '\u2002', '\u2003', '\u2004',
    '\u2005', '\u2006', '\u2007', '\u2008', '\u2009', '\u200a', '\u2028', '\u2029', '\u202f', '\u205f', '\u3000']

/-! ## Reverse proxy -/

/-- `$remote_addr`: an address has no comma and no blank -/
structure Peer where
  addr : String
  nonempty : addr ≠ ""
  plain : ∀ c ∈ addr.toList, isSpace c = false ∧ c ≠ ','

/-- `$proxy_add_x_forwarded_for`: what the client has sent, then the peer -/
def proxyAddXForwardedFor (peer : Peer) (h : Headers) : String :=
  String.ofList ((h.values "X-Forwarded-For").flatMap (fun v => v.toList ++ [',', ' ']) ++ peer.addr.toList)

/-- `location /api/`; `proxyAddr` is the proxy's end of its connection to the gateway -/
def locationApi (peer : Peer) (proxyAddr : String) (r : HttpRequest) : HttpRequest :=
  { r with
    path := String.ofList (r.path.toList.drop 4)
    headers := ((r.headers.set "X-Real-IP" peer.addr).set "X-Forwarded-For" (proxyAddXForwardedFor peer r.headers)).set
      "X-Forwarded-Proto" "https"
    remoteAddr := proxyAddr }

/-! ## The client's address -/

/-- `net.SplitHostPort`'s host -/
def splitHostPort (hostport : List Char) : Option (List Char) :=
  match hostport with
  | '[' :: rest =>
    let host := rest.takeWhile (· ≠ ']')
    match rest.dropWhile (· ≠ ']') with
    | ']' :: ':' :: port => if '[' ∈ host ∨ ':' ∈ port ∨ '[' ∈ port ∨ ']' ∈ port then none else some host
    | _ => none
  | _ =>
    let host := hostport.takeWhile (· ≠ ':')
    match hostport.dropWhile (· ≠ ':') with
    | ':' :: port => if ':' ∈ port ∨ '[' ∈ host ++ port ∨ ']' ∈ host ++ port then none else some host
    | _ => none

def clientIP (r : HttpRequest) : String :=
  let xff := r.headers.get "X-Forwarded-For"
  let xr := r.headers.get "X-Real-IP"
  if xff ≠ "" then String.ofList (entry isSpace xff.toList)
  else if xr ≠ "" then xr
  else ((splitHostPort r.remoteAddr.toList).map String.ofList).getD r.remoteAddr

/-! ## Middleware -/

/-- what `auditEmitter.Emit` is given; the outcome is always "failure" -/
inductive AuditEvent where
  | jwtFailure (actor : Audit.Actor) (reason path : String)
  | rateLimitBreach (actor : Audit.Actor) (count limit : ℕ) (path : String)
deriving DecidableEq

def AuditEvent.eventType : AuditEvent → String
  | .jwtFailure .. => "gateway.jwt.failure"
  | .rateLimitBreach .. => "gateway.ratelimit.breach"

def AuditEvent.actor : AuditEvent → Audit.Actor
  | .jwtFailure actor .. => actor
  | .rateLimitBreach actor .. => actor

inductive Outcome where
  | unauthorized
  | rateLimited
  /-- `router` is given this request -/
  | routed (r : HttpRequest)
  /-- `GET /ws` -/
  | upgraded (userId : String)
deriving DecidableEq

structure Env where
  /-- the user id in a valid token, or the error -/
  validateJWT : String → Except String String
  rateLimitEnabled : Bool
  /-- what INCR of a key answers; `none`: an error -/
  incr : String → Option ℕ

/-- `URL.Query().Get`: the first value -/
def queryGet (query : List (String × String)) (name : String) : String := (getItem name query).getD ""

/-- the token that `RequireAuth` validates -/
def credential (r : HttpRequest) : String :=
  (bearer (r.headers.get "Authorization")).getD (queryGet r.query "token")

def requireAuth (env : Env) (next : HttpRequest → String → List AuditEvent × Outcome) (r : HttpRequest) :
    List AuditEvent × Outcome :=
  if credential r = "" then ([], .unauthorized)
  else match env.validateJWT (credential r) with
    | .error reason =>
      ([.jwtFailure ⟨"", clientIP r, r.headers.get "User-Agent"⟩ reason r.path], .unauthorized)
    | .ok userId => next { r with headers := r.headers.set "X-User-Id" userId } userId

def rateLimit : ℕ := 100

def limit (env : Env) (r : HttpRequest) (userId : String) : List AuditEvent × Outcome :=
  if env.rateLimitEnabled = false then ([], .routed r)
  else match env.incr ("ratelimit:" ++ userId) with
    | none => ([], .routed r)
    | some count =>
      if rateLimit < count then
        ([.rateLimitBreach ⟨userId, clientIP r, r.headers.get "User-Agent"⟩ count rateLimit r.path], .rateLimited)
      else ([], .routed r)

/-- the two routes of `buildMux` behind `RequireAuth` -/
inductive Route where
  | ws
  | all
deriving DecidableEq, Repr

def serve (env : Env) (r : HttpRequest) : Route → List AuditEvent × Outcome
  | .ws => requireAuth env (fun _ userId => ([], .upgraded userId)) r
  | .all => requireAuth env (limit env) r

/-! ## What a request passes with -/

/-- `X-User-Id` is none of the headers that the address is read from -/
theorem clientIP_set_userId (r : HttpRequest) (userId : String) :
    clientIP { r with headers := r.headers.set "X-User-Id" userId } = clientIP r := by
  have hxff : ¬Headers.SameName "X-User-Id" "X-Forwarded-For" := by decide
  have hxr : ¬Headers.SameName "X-User-Id" "X-Real-IP" := by decide
  simp only [clientIP, Headers.get_set_of_ne hxff, Headers.get_set_of_ne hxr]

/-- every audit event names the client's address -/
theorem serve_ip (env : Env) (r : HttpRequest) (route : Route) :
    ∀ e ∈ (serve env r route).1, e.actor.ip = clientIP r := by
  have hauth : ∀ next, (∀ userId, ∀ e ∈ (next { r with headers := r.headers.set "X-User-Id" userId } userId).1,
      e.actor.ip = clientIP r) → ∀ e ∈ (requireAuth env next r).1, e.actor.ip = clientIP r := by
    intro next hnext e he
    unfold requireAuth at he
    split_ifs at he with htoken
    · cases he
    · cases hv : env.validateJWT (credential r) with
      | error reason =>
        rw [hv] at he
        obtain rfl := List.mem_singleton.1 he
        rfl
      | ok userId =>
        rw [hv] at he
        exact hnext userId e he
  cases route with
  | ws => exact hauth _ fun userId e he => by cases he
  | all =>
    refine hauth _ fun userId e he => ?_
    rw [← clientIP_set_userId r userId]
    unfold limit at he
    split_ifs at he with henabled
    · cases he
    · cases hc : env.incr ("ratelimit:" ++ userId) with
      | none => simp [hc] at he
      | some count =>
        rw [hc] at he
        simp only at he
        split_ifs at he with hlimit
        · obtain rfl := List.mem_singleton.1 he
          rfl
        · cases he

end Concordia.Gateway.Forwarding
