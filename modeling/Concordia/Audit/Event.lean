/-
Audit events (contracts/lib/go/audit/audit.go) and the hash that chains them (services/audit/store.go `hashInput`,
`computeHash`).

A `map[string]any` is a JSON object whose keys ascend, the order in which `json.Marshal` writes it. The digest
(hexadecimal SHA-256) is a parameter.

- `hashInput_inj`: what is hashed determines the event, up to an absent or an empty metadata map, and the previous hash.
- `computeHash_inj`: without collisions, so does the hash.
-/
import Mathlib.Tactic
import Concordia.Lib.Json
import Concordia.Lib.Float64

namespace Concordia.Audit

open Lib

/-- `audit.Actor` -/
structure Actor where
  userId : String
  ip : String
  userAgent : String
deriving DecidableEq

/-- `audit.Resource` -/
structure Resource where
  type : String
  id : String
deriving DecidableEq

/-- a `map[string]any` -/
structure Metadata where
  members : List (String × Json Float64)
  canonical : (Json.obj members).Canonical

/-- `audit.Event` -/
structure Event where
  eventId : String
  eventType : String
  timestamp : String
  actor : Actor
  resource : Option Resource
  outcome : String
  metadata : Option Metadata

/-- `validEvent` of consumer.go -/
def validEvent (ev : Event) : Bool := ev.eventId != "" && ev.eventType != "" && ev.timestamp != "" && ev.outcome != ""

/-! ## What is hashed -/

/-- string fields marked `omitempty` -/
def omitEmpty (ν : Type*) (fields : List (String × String)) : List (String × Json ν) :=
  (fields.filter (·.2 ≠ "")).map fun f => (f.1, .str f.2)

def Actor.fields (a : Actor) : List (String × String) :=
  [("user_id", a.userId), ("ip", a.ip), ("user_agent", a.userAgent)]

def Resource.fields (r : Resource) : List (String × String) := [("type", r.type), ("id", r.id)]

/-- the entries of the metadata map; a nil map has none -/
def Event.entries (ev : Event) : List (String × Json Float64) := (ev.metadata.map Metadata.members).getD []

def resourceField (r : Option Resource) : List (String × Json Float64) :=
  match r with
  | some r => [("resource", .obj (omitEmpty Float64 r.fields))]
  | none => []

/-- a map of no entries is left out, nil or not -/
def metadataField (entries : List (String × Json Float64)) : List (String × Json Float64) :=
  if entries = [] then [] else [("metadata", .obj entries)]

/-- `hashInput`, its fields in the order of their declaration -/
def hashInput (ev : Event) (prevHash : String) : Json Float64 :=
  .obj ([("event_id", .str ev.eventId), ("event_type", .str ev.eventType), ("timestamp", .str ev.timestamp),
    ("actor", .obj (omitEmpty Float64 ev.actor.fields))] ++ resourceField ev.resource ++ [("outcome", .str ev.outcome)] ++
    metadataField ev.entries ++ [("prev_hash", .str prevHash)])

/-- `computeHash`; `sum` is the hexadecimal digest of a text -/
def computeHash (sum : List Char → String) (ev : Event) (prevHash : String) : String :=
  sum ((hashInput ev prevHash).encode Float64.formatFloat)

/-- the same event, up to an absent or an empty metadata map -/
structure Event.Same (a b : Event) : Prop where
  eventId : a.eventId = b.eventId
  eventType : a.eventType = b.eventType
  timestamp : a.timestamp = b.timestamp
  actor : a.actor = b.actor
  resource : a.resource = b.resource
  outcome : a.outcome = b.outcome
  entries : a.entries = b.entries

/-! ## It determines the event -/

/-- the keys that are left are keys of the struct, in its order -/
theorem omitEmpty_keys (ν : Type*) (fs : List (String × String)) :
    ((omitEmpty ν fs).map Prod.fst).Sublist (fs.map Prod.fst) := by
  have hkeys : (omitEmpty ν fs).map Prod.fst = (fs.filter (·.2 ≠ "")).map Prod.fst := by
    rw [omitEmpty, List.map_map]
    rfl
  rw [hkeys]
  exact List.filter_sublist.map _

theorem omitEmpty_inj {ν : Type*} {fs gs : List (String × String)} (hkeys : fs.map Prod.fst = gs.map Prod.fst)
    (hnodup : (fs.map Prod.fst).Nodup) (h : omitEmpty ν fs = omitEmpty ν gs) : fs = gs := by
  induction fs generalizing gs with
  | nil =>
    cases gs with
    | nil => rfl
    | cons g gs => simp at hkeys
  | cons f fs ih =>
    cases gs with
    | nil => simp at hkeys
    | cons g gs =>
      obtain ⟨k, v⟩ := f
      obtain ⟨l, w⟩ := g
      simp only [List.map_cons, List.cons.injEq, List.nodup_cons] at hkeys hnodup
      obtain ⟨rfl, hkeys⟩ := hkeys
      -- a field left out on one side only would show the key further on
      have hmem : ∀ (hs : List (String × String)) (x : String × Json ν), x ∈ omitEmpty ν hs → x.1 ∈ hs.map Prod.fst :=
        fun hs x hx => (omitEmpty_keys ν hs).subset (List.mem_map_of_mem hx)
      by_cases hv : v = ""
      · by_cases hw : w = ""
        · have htail : omitEmpty ν fs = omitEmpty ν gs := by simpa [omitEmpty, hv, hw] using h
          rw [hv, hw, ih hkeys hnodup.2 htail]
        · have hk := hmem fs (k, .str w) (by
            have : omitEmpty ν fs = (k, .str w) :: omitEmpty ν gs := by simpa [omitEmpty, hv, hw] using h
            simp [this])
          exact absurd hk hnodup.1
      · by_cases hw : w = ""
        · have hk := hmem gs (k, .str v) (by
            have : (k, .str v) :: omitEmpty ν fs = omitEmpty ν gs := by simpa [omitEmpty, hv, hw] using h
            simp [← this])
          exact absurd (hkeys ▸ hk) hnodup.1
        · have hcons : v = w ∧ omitEmpty ν fs = omitEmpty ν gs := by simpa [omitEmpty, hv, hw] using h
          rw [hcons.1, ih hkeys hnodup.2 hcons.2]

theorem actor_inj {ν : Type*} {a b : Actor} (h : omitEmpty ν a.fields = omitEmpty ν b.fields) : a = b := by
  have hnodup : (a.fields.map Prod.fst).Nodup := by simp [Actor.fields]
  have hkeys : a.fields.map Prod.fst = b.fields.map Prod.fst := rfl
  have hfields := omitEmpty_inj hkeys hnodup h
  obtain ⟨u, i, g⟩ := a
  obtain ⟨u', i', g'⟩ := b
  simpa [Actor.fields] using hfields

theorem resource_inj {ν : Type*} {a b : Resource} (h : omitEmpty ν a.fields = omitEmpty ν b.fields) : a = b := by
  have hnodup : (a.fields.map Prod.fst).Nodup := by simp [Resource.fields]
  have hkeys : a.fields.map Prod.fst = b.fields.map Prod.fst := rfl
  have hfields := omitEmpty_inj hkeys hnodup h
  obtain ⟨t, i⟩ := a
  obtain ⟨t', i'⟩ := b
  simpa [Resource.fields] using hfields

theorem resourceField_inj {r s : Option Resource} {x y : String × Json Float64} {xs ys : List (String × Json Float64)}
    (hx : x.1 = "outcome") (hy : y.1 = "outcome") (h : resourceField r ++ x :: xs = resourceField s ++ y :: ys) :
    r = s ∧ x = y ∧ xs = ys := by
  cases r with
  | none =>
    cases s with
    | none => simpa [resourceField] using h
    | some s =>
      have hkey := congrArg (List.map Prod.fst) h
      simp [resourceField, hx] at hkey
  | some r =>
    cases s with
    | none =>
      have hkey := congrArg (List.map Prod.fst) h
      simp [resourceField, hy] at hkey
    | some s =>
      simp only [resourceField, List.cons_append, List.nil_append, List.cons.injEq, Prod.mk.injEq, Json.obj.injEq,
        true_and] at h
      exact ⟨congrArg some (resource_inj h.1), h.2⟩

theorem metadataField_inj {m n : List (String × Json Float64)} {p q : String}
    (h : metadataField m ++ [("prev_hash", Json.str p)] = metadataField n ++ [("prev_hash", Json.str q)]) :
    m = n ∧ p = q := by
  unfold metadataField at h
  split_ifs at h with hm hn hn
  · rw [hm, hn]
    simpa using h
  · simp at h
  · simp at h
  · simpa using h

/-- what is hashed determines the event and the previous hash -/
theorem hashInput_inj {a b : Event} {p q : String} (h : hashInput a p = hashInput b q) : a.Same b ∧ p = q := by
  simp only [hashInput, Json.obj.injEq, List.append_assoc, List.cons_append, List.nil_append, List.cons.injEq,
    Prod.mk.injEq, Json.str.injEq, true_and] at h
  obtain ⟨hid, htype, htime, hactor, hrest⟩ := h
  obtain ⟨hresource, houtcome, hrest⟩ := resourceField_inj rfl rfl hrest
  obtain ⟨hentries, hprev⟩ := metadataField_inj hrest
  have houtcome : a.outcome = b.outcome := by simpa using houtcome
  exact ⟨⟨hid, htype, htime, actor_inj hactor, hresource, houtcome, hentries⟩, hprev⟩

theorem Event.Same.hashInput_eq {a b : Event} (h : a.Same b) (p : String) : hashInput a p = hashInput b p := by
  unfold hashInput
  rw [h.eventId, h.eventType, h.timestamp, h.actor, h.resource, h.outcome, h.entries]

theorem Event.Same.computeHash_eq {a b : Event} (h : a.Same b) (sum : List Char → String) (p : String) :
    computeHash sum a p = computeHash sum b p := by
  rw [computeHash, computeHash, h.hashInput_eq]

/-- **The hash determines the event** and the previous hash, if the digest has no collisions. -/
theorem computeHash_inj {sum : List Char → String} (hsum : Function.Injective sum) {a b : Event} {p q : String}
    (h : computeHash sum a p = computeHash sum b q) : a.Same b ∧ p = q :=
  hashInput_inj (Json.encode_injective Float64.formatFloat_numText (hsum h))

end Concordia.Audit
