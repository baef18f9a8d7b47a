/-
The address in the gateway's audit events (`clientIP` in `services/gateway/middleware/audit.go`), for a request that comes
through the reverse proxy.

The proxy appends the peer to the `X-Forwarded-For` that the client has sent; `clientIP` takes the first entry of that
header, which is the client's.

- `client_address_iff`: the address is the peer's, and that of the peer's other requests, iff the client has sent no
  `X-Forwarded-For` or one that begins with the peer's own address.
- `spoofed`: a client names an address of its choice.
-/
import Concordia.Gateway.Forwarding

namespace Concordia.Gateway.Forwarding

open Concordia.Lib

/-- `clientIP` returns the peer, and so does every audit event -/
def Unspoofed (peer : Peer) (r : HttpRequest) : Prop :=
  ∀ proxyAddr, clientIP (locationApi peer proxyAddr r) = peer.addr ∧
    ∀ env route, ∀ e ∈ (serve env (locationApi peer proxyAddr r) route).1, e.actor.ip = peer.addr

/-- two requests from a peer have the same address, in every audit event too -/
def SameAddress (peer : Peer) (r r' : HttpRequest) : Prop :=
  ∀ proxyAddr, clientIP (locationApi peer proxyAddr r) = clientIP (locationApi peer proxyAddr r') ∧
    ∀ env route, ∀ e ∈ (serve env (locationApi peer proxyAddr r) route).1,
      ∀ e' ∈ (serve env (locationApi peer proxyAddr r') route).1, e.actor.ip = e'.actor.ip

/-- the value has the peer's address before its first comma, blanks aside -/
def Begins (peer : Peer) (v : String) : Prop :=
  ∃ pre post rest, v.toList = pre ++ peer.addr.toList ++ post ++ rest ∧ (∀ c ∈ pre, isSpace c = true) ∧
    (∀ c ∈ post, isSpace c = true) ∧ (rest = [] ∨ ∃ r, rest = ',' :: r)

/-- the client has sent no `X-Forwarded-For`, or first one that begins with its own address -/
def OwnAddress (peer : Peer) (r : HttpRequest) : Prop :=
  ∀ v ∈ (r.headers.values "X-Forwarded-For").head?, Begins peer v

/-! ## What the gateway reads -/

theorem Peer.toList_ne_nil (peer : Peer) : peer.addr.toList ≠ [] :=
  fun h => peer.nonempty (String.toList_eq_nil_iff.1 h)

theorem forwardedFor (peer : Peer) (proxyAddr : String) (r : HttpRequest) :
    (locationApi peer proxyAddr r).headers.get "X-Forwarded-For" = proxyAddXForwardedFor peer r.headers := by
  have hne : ¬Headers.SameName "X-Forwarded-Proto" "X-Forwarded-For" := by decide
  rw [locationApi, Headers.get_set_of_ne hne, Headers.get_set_self]

/-- the proxy always sends the header, so nothing else is looked at -/
theorem clientIP_locationApi (peer : Peer) (proxyAddr : String) (r : HttpRequest) :
    clientIP (locationApi peer proxyAddr r) =
      String.ofList (entry isSpace (proxyAddXForwardedFor peer r.headers).toList) := by
  have hne : proxyAddXForwardedFor peer r.headers ≠ "" := by
    rw [proxyAddXForwardedFor, Ne, String.ofList_eq_empty_iff, List.append_eq_nil_iff]
    exact fun h => peer.toList_ne_nil h.2
  simp only [clientIP, forwardedFor, ne_eq, hne, not_false_eq_true, if_true]

/-- the first entry is the client's, where there is one -/
theorem takeWhile_forwardedFor (peer : Peer) (h : Headers) :
    (proxyAddXForwardedFor peer h).toList.takeWhile (· ≠ ',') =
      (((h.values "X-Forwarded-For").head?).getD peer.addr).toList.takeWhile (· ≠ ',') := by
  rw [proxyAddXForwardedFor, String.toList_ofList]
  cases h.values "X-Forwarded-For" with
  | nil => rfl
  | cons v vs =>
    rw [List.flatMap_cons, List.append_assoc, List.append_assoc, List.takeWhile_append]
    split_ifs with hall
    · have htake : v.toList.takeWhile (fun x => decide (x ≠ ',')) = v.toList :=
        (List.takeWhile_prefix _).eq_of_length hall
      simpa using htake.symm
    · rfl

/-- the address is the peer's exactly where the client's first header begins with it -/
theorem clientIP_eq_peer_iff (peer : Peer) (proxyAddr : String) (r : HttpRequest) :
    clientIP (locationApi peer proxyAddr r) = peer.addr ↔ OwnAddress peer r := by
  have hcomma : isSpace ',' = false := by decide
  have hentry : ∀ v : String, entry isSpace v.toList = peer.addr.toList ↔ Begins peer v := fun v =>
    entry_eq_iff hcomma peer.toList_ne_nil peer.plain
  have hpeer : Begins peer peer.addr := ⟨[], [], [], by simp, by simp, by simp, .inl rfl⟩
  rw [clientIP_locationApi, ← String.toList_inj, String.toList_ofList, entry, takeWhile_forwardedFor, ← entry, hentry]
  unfold OwnAddress
  cases (r.headers.values "X-Forwarded-For").head? with
  | none => simp [hpeer]
  | some v => simp

/-! ## The theorem -/

theorem unspoofed_iff (peer : Peer) (r : HttpRequest) : Unspoofed peer r ↔ OwnAddress peer r := by
  refine ⟨?_, ?_⟩
  · intro h
    exact (clientIP_eq_peer_iff peer "" r).1 (h "").1
  · intro h proxyAddr
    have hip := (clientIP_eq_peer_iff peer proxyAddr r).2 h
    exact ⟨hip, fun env route e he => (serve_ip env _ route e he).trans hip⟩

/-- a request without headers -/
def bare (r : HttpRequest) : HttpRequest := { r with headers := [] }

theorem sameAddress_iff (peer : Peer) (r : HttpRequest) :
    (∀ headers, OwnAddress peer { r with headers := headers } → SameAddress peer r { r with headers := headers }) ↔
      OwnAddress peer r := by
  refine ⟨?_, ?_⟩
  · intro h
    have hown : OwnAddress peer (bare r) := fun v hv => by cases hv
    have hbare := (clientIP_eq_peer_iff peer "" (bare r)).2 hown
    exact (clientIP_eq_peer_iff peer "" r).1 (((h [] hown) "").1.trans hbare)
  · intro h headers h' proxyAddr
    have hip := (clientIP_eq_peer_iff peer proxyAddr r).2 h
    have hip' := (clientIP_eq_peer_iff peer proxyAddr _).2 h'
    refine ⟨hip.trans hip'.symm, fun env route e he e' he' => ?_⟩
    rw [serve_ip env _ route e he, serve_ip env _ route e' he', hip, hip']

/-- a request is audited under the peer's address, and like the peer's other requests, iff its first `X-Forwarded-For`,
where it has one, begins with that address -/
theorem client_address_iff (peer : Peer) (r : HttpRequest) :
    (Unspoofed peer r ↔ OwnAddress peer r) ∧
      ((∀ headers, OwnAddress peer { r with headers := headers } → SameAddress peer r { r with headers := headers }) ↔
        OwnAddress peer r) :=
  ⟨unspoofed_iff peer r, sameAddress_iff peer r⟩

/-- behind 203.0.113.7, a client that sends "X-Forwarded-For: 198.51.100.1" is audited as 198.51.100.1 -/
theorem spoofed :
    ∃ peer : Peer, peer.addr = "203.0.113.7" ∧
      ¬Unspoofed peer ⟨"/api/servers", [("X-Forwarded-For", "198.51.100.1")], [("token", "forged")], "203.0.113.7:40000"⟩ ∧
      (serve ⟨fun _ => .error "invalid token", true, fun _ => some 1⟩ (locationApi peer "172.18.0.2:51000"
        ⟨"/api/servers", [("X-Forwarded-For", "198.51.100.1")], [("token", "forged")], "203.0.113.7:40000"⟩) .all).1.map
          (fun e => e.actor.ip) = ["198.51.100.1"] := by
  refine ⟨⟨"203.0.113.7", by decide, List.forall_iff_forall_mem.1 (by decide)⟩, rfl, ?_, by decide +kernel⟩
  intro h
  exact absurd (h "").1 (by decide +kernel)

end Concordia.Gateway.Forwarding
