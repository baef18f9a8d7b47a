/-
The forensic API of the audit service (services/audit/server.go, `query` of store.go).

The routes are those of `http.ServeMux`. Whether a token is accepted, and what it claims, is a parameter; so is the text of
a JSON value that is no string. The table is what the query reads, none if it fails.

- `limitOf_spec`: which texts are taken as a limit.
- `rows_log`: the rows that a run of payloads adds are those of the events that it stores, in that order.
- `forensic`: after any payloads, an admin is shown exactly the newest of the stored events that match, newest first, and
  anybody else none.
- `confined`: on every route, nothing of the log is shown without an admin token.
-/
import Concordia.Lib.Headers
import Concordia.Lib.Dict
import Concordia.Lib.ServeMux
import Concordia.Lib.Strconv
import Concordia.Lib.Url
import Concordia.Audit.RoundTrip

namespace Concordia.Audit

open Lib Lib.HashChain
open Lib.ServeMux (Pattern find)
open Lib.Strconv (atoi PositiveInt)

/-! ## The query -/

/-- `value->>key`; `text` prints a value that is no string -/
def arrowText (text : Json ℚ → String) (value : Json ℚ) (key : String) : Option String :=
  match value with
  | .obj ms => match getItem key ms with
    | some (.str s) => some s
    | some .null => none
    | some v => some (text v)
    | none => none
  | _ => none

/-- the WHERE clause of `query` -/
def selects (text : Json ℚ → String) (eventType userId : String) (r : Row) : Bool :=
  (eventType = "" || r.eventType = eventType) && (userId = "" || arrowText text r.actor.value "user_id" = some userId)

/-- `query`: ORDER BY seq DESC LIMIT, of a table in `seq` order -/
def query (text : Json ℚ → String) (rows : List Row) (eventType userId : String) (limit : ℕ) : List StoredEvent :=
  ((rows.filter (selects text eventType userId)).reverse.take limit).map scanRow

/-! ## The server -/

structure Request where
  method : String
  path : List Char
  headers : Headers
  /-- the query's parameters in their order -/
  query : List (String × String)

/-- `URL.Query().Get` -/
def Request.queryGet (r : Request) (name : String) : String := (getItem name r.query).getD ""

structure Config where
  jwtSecret : String
  /-- the claim `admin` of a token that `jwt.ParseWithClaims` accepts with an HMAC key -/
  parseWithClaims : String → String → Option Bool
  text : Json ℚ → String

/-- `strings.TrimPrefix` -/
def trimPrefix (s pre : List Char) : List Char := if pre <+: s then s.drop pre.length else s

def isAdmin (cfg : Config) (r : Request) : Bool :=
  let header := r.headers.get "Authorization"
  let raw := String.ofList (trimPrefix header.toList "Bearer ".toList)
  if raw = "" ∨ raw = header then false
  else if cfg.jwtSecret = "" then false
  else (cfg.parseWithClaims cfg.jwtSecret raw).getD false

inductive Response where
  | health
  | forbidden
  | events (count : ℕ) (events : List StoredEvent)
  | verified (status : ℕ) (result : VerifyResult)
  | error (status : ℕ) (message : String)
  | redirect
  | methodNotAllowed
  | notFound

/-- the limit of `handleEvents` -/
def limitOf (v : String) : ℕ :=
  if v = "" then 100
  else match atoi (Url.octets v.toList) with
    | some n => if 0 < n ∧ n ≤ 1000 then n.toInt.toNat else 100
    | none => 100

def handleEvents (cfg : Config) (rows : Option (List Row)) (r : Request) : Response :=
  match rows.map fun rows => query cfg.text rows (r.queryGet "event_type") (r.queryGet "user_id")
      (limitOf (r.queryGet "limit")) with
  | some events => .events events.length events
  | none => .error 500 "query failed"

def handleVerify (sum : List Char → String) (rows : Option (List Row)) : Response :=
  match rows.map (verify sum) with
  | some res => .verified (if res.ok then 200 else 409) res
  | none => .error 500 "verify failed"

def requireAdmin (cfg : Config) (r : Request) (next : Response) : Response :=
  if isAdmin cfg r then next else .forbidden

inductive Handler where
  | health
  | events
  | verify
deriving DecidableEq, Repr

/-- `newServer` -/
def routes : List (Pattern Handler) :=
  [⟨some "GET", ["health"], false, .health⟩, ⟨some "GET", ["audit", "events"], false, .events⟩,
    ⟨some "GET", ["audit", "verify"], false, .verify⟩]

def serve (sum : List Char → String) (cfg : Config) (rows : Option (List Row)) (r : Request) : Response :=
  match find routes r.method r.path with
  | .handler .health => .health
  | .handler .events => requireAdmin cfg r (handleEvents cfg rows r)
  | .handler .verify => requireAdmin cfg r (handleVerify sum rows)
  | .redirect => .redirect
  | .methodNotAllowed => .methodNotAllowed
  | .notFound => .notFound

/-- the answer shows something of the log -/
def Response.Discloses : Response → Prop
  | .events .. => True
  | .verified .. => True
  | _ => False

/-- nothing of the log is shown without an admin token -/
theorem confined (sum : List Char → String) (cfg : Config) (rows : Option (List Row)) (r : Request)
    (h : (serve sum cfg rows r).Discloses) : isAdmin cfg r = true := by
  by_contra hno
  have hforbidden : ∀ next, requireAdmin cfg r next = .forbidden := fun next => if_neg hno
  unfold serve at h
  split at h
  · exact h
  · rw [hforbidden] at h
    exact h
  · rw [hforbidden] at h
    exact h
  · exact h
  · exact h
  · exact h

/-! ## The limit -/

/-- the limit that a parameter asks for: a numeral from 1 to 1000, and 100 for every other text -/
def AsksFor (v : String) (limit : ℕ) : Prop :=
  (PositiveInt (Url.octets v.toList) limit ∧ limit ≤ 1000) ∨
    ((∀ n ≤ 1000, ¬ PositiveInt (Url.octets v.toList) n) ∧ limit = 100)

theorem positiveInt_nil (n : ℕ) : ¬ PositiveInt [] n := by
  intro h
  obtain ⟨ds, hs, -, hvalue, hpos, -⟩ := h
  rcases hs with rfl | hs
  · rw [Strconv.value_nil] at hvalue
    omega
  · cases hs

theorem limitOf_spec (v : String) : AsksFor v (limitOf v) := by
  rw [limitOf]
  split_ifs with hempty
  · right
    rw [hempty]
    exact ⟨fun n _ => positiveInt_nil n, rfl⟩
  cases hread : atoi (Url.octets v.toList) with
  | none =>
    right
    refine ⟨?_, rfl⟩
    intro n _ hn
    rw [hn.atoi_eq] at hread
    cases hread
  | some i =>
    dsimp only
    split_ifs with hrange
    · have hle : i.toInt ≤ 1000 := Int64.le_iff_toInt_le.1 hrange.2
      exact .inl ⟨Strconv.positiveInt_of_atoi hread hrange.1, by omega⟩
    · right
      refine ⟨?_, rfl⟩
      intro n hle hn
      obtain ⟨_, -, -, -, hpos, hlt⟩ := id hn
      have hi : Int64.ofNat n = i := Option.some.inj (hn.atoi_eq.symm.trans hread)
      have hint : (Int64.ofNat n).toInt = n := Int64.toInt_ofNat_of_lt hlt
      have hzero : (0 : Int64).toInt = 0 := rfl
      have hmax : (1000 : Int64).toInt = 1000 := rfl
      apply hrange
      rw [← hi]
      refine ⟨Int64.lt_iff_toInt_lt.2 ?_, Int64.le_iff_toInt_le.2 ?_⟩
      · rw [hint, hzero]
        exact_mod_cast hpos
      · rw [hint, hmax]
        exact_mod_cast hle

/-! ## A stored row through the WHERE clause -/

/-- what the filters of a query say of an event -/
def Event.matches (eventType userId : String) (ev : Event) : Bool :=
  (eventType = "" || ev.eventType = eventType) && (userId = "" || ev.actor.userId = userId)

/-- a field of a stored struct as text: NULL if it was left out -/
theorem arrowText_jsonbFields (text : Json ℚ → String) {fs : List (String × String)} (hnodup : (fs.map Prod.fst).Nodup)
    {f : String × String} (hf : f ∈ fs) :
    arrowText text (jsonbFields fs).value f.1 = if f.2 = "" then none else some f.2 := by
  have hsub := omitEmpty_keys ℚ fs
  let members : Dict String (Json ℚ) := ⟨jsonbMembers (omitEmpty ℚ fs),
    List.pairwise_map.2 ((jsonbMembers_ascends _).imp fun h => ne_of_lt h)⟩
  have hget : arrowText text (jsonbFields fs).value f.1 = match members.get f.1 with
    | some (.str s) => some s
    | some .null => none
    | some v => some (text v)
    | none => none := rfl
  rw [hget]
  split_ifs with hempty
  · -- only a field of the same name, so this one, could be among the members
    have hnone : members.get f.1 = none := by
      rw [Dict.get_eq_none]
      intro v hv
      obtain ⟨g, hg, hgf⟩ := List.mem_map.1 ((mem_jsonbMembers (hsub.nodup hnodup)).1 hv)
      have hname : g = f := List.inj_on_of_nodup_map hnodup (List.mem_of_mem_filter hg) hf (Prod.mk.inj hgf).1
      have hne := List.of_mem_filter hg
      rw [hname, hempty] at hne
      simp at hne
    rw [hnone]
  · have hmem : (f.1, Json.str f.2) ∈ members.items :=
      (mem_jsonbMembers (hsub.nodup hnodup)).2 (List.mem_map.2 ⟨f, by simp [hf, hempty], rfl⟩)
    rw [Dict.mem_items.1 hmem]

/-- the filters say of a row what they say of the event it was inserted for -/
theorem selects_row (text : Json ℚ → String) (eventType userId : String) (sum : List Char → String) (seq : ℕ) (id : Uuid)
    (ev : Event) (prev : String) :
    selects text eventType userId (row sum seq id ev prev) = ev.matches eventType userId := by
  have hactor : arrowText text (row sum seq id ev prev).actor.value "user_id" =
      if ev.actor.userId = "" then none else some ev.actor.userId :=
    arrowText_jsonbFields text (f := ("user_id", ev.actor.userId)) (by simp [Actor.fields]) (by simp [Actor.fields])
  have htype : (row sum seq id ev prev).eventType = ev.eventType := rfl
  rw [selects, hactor, htype, Event.matches]
  congr 1
  by_cases hall : userId = ""
  · simp [hall]
  · by_cases hnone : ev.actor.userId = ""
    · simp [hall, hnone, Ne.symm hall]
    · simp [hall, hnone]

/-! ## What a run stores -/

section

variable {π : Type*} (sum : List Char → String) (unmarshal : π → Option Event)

/-- the events that a run stores, in that order, and the ids they are stored under -/
def log : Store → List (π × Answer) → List (Event × Uuid)
  | _, [] => []
  | s, op :: ops => (stored unmarshal s op).toList ++ log (consume sum unmarshal s op) ops

/-- a row that an event was inserted as -/
def IsRow (e : Event × Uuid) (r : Row) : Prop := ∃ seq prev, r = row sum seq e.2 e.1 prev

/-- the rows that a run adds are those of the events that it stores -/
theorem rows_log (s : Store) (ops : List (π × Answer)) :
    ∃ added, (run (consume sum unmarshal) s ops).rows = s.rows ++ added ∧
      List.Forall₂ (IsRow sum) (log sum unmarshal s ops) added := by
  induction ops generalizing s with
  | nil => exact ⟨[], by simp, .nil⟩
  | cons op ops ih =>
    obtain ⟨added, hrows, hadded⟩ := ih (consume sum unmarshal s op)
    rcases consume_cases sum unmarshal s op with ⟨hnone, hsame, -⟩ | ⟨ev, id, seq, hsome, hone, -⟩
    · refine ⟨added, ?_, ?_⟩
      · rw [run_cons, hrows, hsame]
      · rw [log, hnone]
        exact hadded
    · refine ⟨row sum seq id ev s.lastHash :: added, ?_, ?_⟩
      · rw [run_cons, hrows, hone, List.append_assoc, List.singleton_append]
      · rw [log, hsome]
        exact .cons ⟨seq, s.lastHash, rfl⟩ hadded

/-- the rows are numbered upwards -/
structure Numbered (s : Store) : Prop where
  ascends : s.rows.Pairwise fun a b => a.seq < b.seq
  below : ∀ r ∈ s.rows, r.seq < s.nextSeq

theorem Numbered.consume {s : Store} (h : Numbered s) (op : π × Answer) : Numbered (consume sum unmarshal s op) := by
  have hskip : ∀ {n}, ∀ r ∈ s.rows, r.seq < s.nextSeq + n := by
    intro n r hr
    exact Nat.lt_add_right n (h.below r hr)
  unfold Audit.consume
  split
  · exact h
  · split
    · unfold append
      dsimp only
      split
      · refine ⟨List.pairwise_append.2 ⟨h.ascends, List.pairwise_singleton _ _, ?_⟩, ?_⟩
        · intro a ha b hb
          rw [List.mem_singleton.1 hb]
          exact hskip a ha
        · intro r hr
          rcases List.mem_append.1 hr with hr | hr
          · exact (hskip r hr).trans (Nat.lt_succ_self _)
          · rw [List.mem_singleton.1 hr]
            exact Nat.lt_succ_self _
      · exact ⟨h.ascends, fun r hr => hskip r hr⟩
    · exact h

theorem numbered_run (ops : List (π × Answer)) : Numbered (run (Audit.consume sum unmarshal) Store.empty ops) :=
  run_inv' (fun _ op hs => hs.consume sum unmarshal op) ⟨.nil, by simp [Store.empty]⟩ ops

/-! ## What an admin is shown -/

/-- an event is shown as it was stored -/
def Shown (e : Event × Uuid) (se : StoredEvent) : Prop := e.1.Reads se.event e.2

/-- **Forensics.** After any payloads and any answers of the database, `GET /audit/events` shows an admin exactly the newest
of the stored events that match the filters, as many as asked for, newest first, and shows anybody else none. -/
theorem forensic (cfg : Config) (ops : List (π × Answer)) (r : Request)
    (hroute : find routes r.method r.path = .handler .events) :
    let answer := serve sum cfg (some (run (Audit.consume sum unmarshal) Store.empty ops).rows) r
    (isAdmin cfg r = false ∧ answer = .forbidden) ∨
      (isAdmin cfg r = true ∧ ∃ limit found, AsksFor (r.queryGet "limit") limit ∧ answer = .events found.length found ∧
        List.Forall₂ Shown (((log sum unmarshal Store.empty ops).filter fun e =>
          e.1.matches (r.queryGet "event_type") (r.queryGet "user_id")).reverse.take limit) found ∧
        found.Pairwise fun a b => b.seq < a.seq) := by
  intro answer
  have hserve : answer = requireAdmin cfg r
      (handleEvents cfg (some (run (Audit.consume sum unmarshal) Store.empty ops).rows) r) := by
    simp only [answer, serve, hroute]
  cases hadmin : isAdmin cfg r with
  | false =>
    left
    refine ⟨rfl, hserve.trans ?_⟩
    rw [requireAdmin, hadmin]
    rfl
  | true =>
    right
    obtain ⟨added, hrows, hadded⟩ := rows_log sum unmarshal Store.empty ops
    have hnumbered := (numbered_run sum unmarshal ops).ascends
    rw [show Store.empty.rows = [] from rfl, List.nil_append] at hrows
    rw [hrows] at hserve hnumbered
    refine ⟨rfl, limitOf (r.queryGet "limit"), query cfg.text added (r.queryGet "event_type") (r.queryGet "user_id")
      (limitOf (r.queryGet "limit")), limitOf_spec _, ?_, ?_, ?_⟩
    · rw [hserve, requireAdmin, hadmin]
      rfl
    · have hfilter := List.rel_filter (R := IsRow sum)
        (p := fun e => e.1.matches (r.queryGet "event_type") (r.queryGet "user_id"))
        (q := selects cfg.text (r.queryGet "event_type") (r.queryGet "user_id")) ?_ hadded
      · have htake := List.forall₂_take (limitOf (r.queryGet "limit")) (List.rel_reverse hfilter)
        rw [query, List.forall₂_map_right_iff]
        refine htake.imp ?_
        rintro ⟨ev, id⟩ x ⟨seq, prev, rfl⟩
        exact scanRow_row sum seq id ev prev
      · rintro ⟨ev, id⟩ x ⟨seq, prev, rfl⟩
        dsimp only
        rw [selects_row]
    · rw [query, List.pairwise_map]
      exact ((List.pairwise_reverse.2 (hnumbered.sublist List.filter_sublist)).sublist (List.take_sublist _ _))

end

/-- an admin asks for what alice has done -/
def askAlice : Request where
  method := "GET"
  path := "/audit/events".toList
  headers := [("Authorization", "Bearer admin")]
  query := [("user_id", "alice"), ("limit", "10")]

/-- one token that is an admin's -/
def oneAdmin : Config where
  jwtSecret := "secret"
  parseWithClaims := fun _ token => if token = "admin" then some true else none
  text := fun _ => ""

theorem log_login : log tagged some Store.empty [(login, ⟨true, 0⟩)] = [(login, loginId)] := by
  have hvalid : validEvent login = true := by decide
  simp [log, stored, hvalid, insertable, Option.filter, Store.empty, loginId_eq]

theorem alice_shown :
    ∃ se, serve tagged oneAdmin (some (run (consume tagged some) Store.empty [(login, ⟨true, 0⟩)]).rows) askAlice =
      .events 1 [se] ∧ login.Reads se.event loginId := by
  have hadmin : isAdmin oneAdmin askAlice = true := by decide
  have hten : PositiveInt (Url.octets "10".toList) 10 :=
    ⟨_, .inl rfl, List.forall_iff_forall_mem.1 (by decide), by decide, by decide, by decide⟩
  rcases forensic tagged some oneAdmin [(login, ⟨true, 0⟩)] askAlice (by decide) with
    ⟨hno, -⟩ | ⟨-, limit, found, hasks, hserve, hshown, -⟩
  · rw [hadmin] at hno
    cases hno
  · obtain rfl : limit = 10 := by
      rcases hasks with ⟨hpos, -⟩ | ⟨hnone, -⟩
      · exact hpos.unique hten
      · exact absurd hten (hnone 10 (by decide))
    have hmatches : login.matches (askAlice.queryGet "event_type") (askAlice.queryGet "user_id") = true := by decide
    rw [log_login, List.filter_singleton, hmatches] at hshown
    obtain ⟨se, rest, hse, hrest, rfl⟩ := List.forall₂_cons_left_iff.1 hshown
    obtain rfl := List.forall₂_nil_left_iff.1 hrest
    exact ⟨se, hserve, hse⟩

end Concordia.Audit
