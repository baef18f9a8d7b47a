/-
The columns of the audit table (infra/audit-db/init.sh) and how values pass through them.

A UUID column keeps the sixteen bytes and is read back in canonical lower case. A JSONB column keeps the value, its
numbers as exact decimals; reading it is what `json.Unmarshal` does with a struct of strings or a `map[string]any`.

- `uuidOut_inj`: different UUIDs are read back differently.
- `unmarshalActor_jsonb`, `unmarshalResource_jsonb`: structs are read back as they were stored.
- `unmarshalMap_jsonbMap`: a map is read back with its numbers less the sign of zero.
-/
import Mathlib.Tactic
import Mathlib.Data.List.Sort
import Mathlib.Data.String.Basic
import Concordia.Lib.Rows
import Concordia.Audit.Event

namespace Concordia.Audit

open Lib

/-! ## Columns -/

/-- a UUID column -/
structure Uuid where
  bytes : List (Fin 256)
  length : bytes.length = 16
deriving DecidableEq

def hexValue (c : Char) : Option ℕ :=
  if '0' ≤ c ∧ c ≤ '9' then some (c.toNat - 48)
  else if 'a' ≤ c ∧ c ≤ 'f' then some (c.toNat - 87)
  else if 'A' ≤ c ∧ c ≤ 'F' then some (c.toNat - 55)
  else none

def skipHyphen : List Char → List Char
  | '-' :: cs => cs
  | cs => cs

/-- `n` bytes from byte `i` on; a hyphen may follow every second byte but the last -/
def readBytes : ℕ → ℕ → List Char → Option (List (Fin 256) × List Char)
  | 0, _, cs => some ([], cs)
  | n + 1, i, a :: b :: cs => do
    let hi ← hexValue a
    let lo ← hexValue b
    let (bytes, rest) ← readBytes n (i + 1) (if i % 2 = 1 ∧ i < 15 then skipHyphen cs else cs)
    return (Fin.ofNat 256 (16 * hi + lo) :: bytes, rest)
  | _ + 1, _, _ => none

/-- PostgreSQL's `uuid_in`: braces around it are allowed -/
def uuidIn (s : String) : Option Uuid :=
  let (braces, cs) := match s.toList with
    | '{' :: cs => (true, cs)
    | cs => (false, cs)
  match readBytes 16 0 cs with
  | some (bytes, rest) =>
    if h : bytes.length = 16 ∧ rest = (if braces then ['}'] else []) then some ⟨bytes, h.1⟩ else none
  | none => none

def writeBytes : ℕ → List (Fin 256) → List Char
  | _, [] => []
  | i, b :: bs => (if i ∈ [4, 6, 8, 10] then ['-'] else []) ++
      [Json.hexChar (b.val / 16), Json.hexChar (b.val % 16)] ++ writeBytes (i + 1) bs

/-- `uuid_out` -/
def uuidOut (u : Uuid) : String := String.ofList (writeBytes 0 u.bytes)

/-- a JSONB column -/
structure Jsonb where
  value : Json ℚ
  canonical : value.Canonical

/-- the members of an object, in whatever order its text has them; of two with the same key the later one counts -/
def jsonbMembers (ms : List (String × Json ℚ)) : List (String × Json ℚ) :=
  ms.foldl (fun acc m => putRow (· < ·) Prod.fst m acc) []

theorem jsonbMembers_snoc (ms : List (String × Json ℚ)) (m : String × Json ℚ) :
    jsonbMembers (ms ++ [m]) = putRow (· < ·) Prod.fst m (jsonbMembers ms) := by
  simp only [jsonbMembers, List.foldl_append, List.foldl_cons, List.foldl_nil]

theorem jsonbMembers_ascends (ms : List (String × Json ℚ)) : (jsonbMembers ms).Pairwise fun a b => a.1 < b.1 := by
  induction ms using List.reverseRecOn with
  | nil => exact .nil
  | append_singleton ms m ih =>
    rw [jsonbMembers_snoc]
    refine putRow_ordered (r := fun a b : String => a < b) (k := Prod.fst) ?_ ?_ ih
    · exact fun _ _ _ => lt_trans
    · exact fun _ _ hlt hne => lt_of_le_of_ne (not_lt.1 hlt) (Ne.symm hne)

theorem canonical_strings {ms : List (String × Json ℚ)} (h : ∀ m ∈ ms, ∃ s, m.2 = .str s) :
    Json.CanonicalMembers ms := by
  induction ms with
  | nil => simp [Json.CanonicalMembers]
  | cons m ms ih =>
    obtain ⟨k, v⟩ := m
    obtain ⟨s, rfl⟩ := h (k, v) (by simp)
    simp only [Json.CanonicalMembers, Json.Canonical, true_and]
    exact ih fun m hm => h m (by simp [hm])

theorem jsonbMembers_mem {ms : List (String × Json ℚ)} {x : String × Json ℚ} (h : x ∈ jsonbMembers ms) : x ∈ ms := by
  induction ms using List.reverseRecOn with
  | nil => exact h
  | append_singleton ms m ih =>
    rw [jsonbMembers_snoc] at h
    rcases mem_of_mem_putRow _ _ h with rfl | h
    · simp
    · simp [ih h]

theorem omitEmpty_str {ν : Type*} {fs : List (String × String)} {x : String × Json ν} (h : x ∈ omitEmpty ν fs) :
    ∃ s, x.2 = .str s := by
  obtain ⟨f, -, rfl⟩ := List.mem_map.1 h
  exact ⟨f.2, rfl⟩

/-- a struct of string fields as a column -/
def jsonbFields (fields : List (String × String)) : Jsonb where
  value := .obj (jsonbMembers (omitEmpty ℚ fields))
  canonical := by
    simp only [Json.Canonical]
    exact ⟨List.pairwise_map.2 (jsonbMembers_ascends _), canonical_strings fun m hm => omitEmpty_str (jsonbMembers_mem hm)⟩

/-- a map as a column, its numbers as exact decimals -/
def jsonbMap (m : Metadata) : Jsonb where
  value := Json.map Float64.decimal (.obj m.members)
  canonical := Json.canonical_subst (fun n => by simp [Json.Canonical]) _ m.canonical

/-! ## Reading a column into a Go value -/

/-- the order in which a JSONB object is printed: shorter keys first -/
def printOrder (ms : List (String × Json ℚ)) : List (String × Json ℚ) :=
  ms.insertionSort fun a b => a.1.utf8ByteSize < b.1.utf8ByteSize ∨ a.1.utf8ByteSize = b.1.utf8ByteSize ∧ a.1 ≤ b.1

/-- a letter up to case, as `encoding/json` compares keys with field names -/
def foldChar (c : Char) : Char := if c = 'ſ' then 'S' else if c = '\u212a' then 'K' else c.toUpper

/-- a key names the field that it equals, or else the one that it equals up to case -/
def fieldOf (fields : List String) (key : String) : Option String :=
  if key ∈ fields then some key
  else fields.find? fun f => f.toList.map foldChar = key.toList.map foldChar

/-- one member into a struct of string fields; the flag says that every value so far had the right type -/
def setField (fields : List String) (acc : (String → String) × Bool) (m : String × Json ℚ) : (String → String) × Bool :=
  match fieldOf fields m.1 with
  | none => acc
  | some f => match m.2 with
    | .str s => (Function.update acc.1 f s, acc.2)
    | .null => acc
    | _ => (acc.1, false)

/-- `json.Unmarshal` into a struct of string fields -/
def unmarshalFields (fields : List String) (v : Json ℚ) : (String → String) × Bool :=
  match v with
  | .obj ms => (printOrder ms).foldl (setField fields) (fun _ => "", true)
  | .null => (fun _ => "", true)
  | _ => (fun _ => "", false)

/-- an error is ignored, what was read until then stays -/
def unmarshalActor (v : Jsonb) : Actor :=
  let (get, _) := unmarshalFields ["user_id", "ip", "user_agent"] v.value
  ⟨get "user_id", get "ip", get "user_agent"⟩

/-- none after an error -/
def unmarshalResource (v : Jsonb) : Option Resource :=
  let (get, ok) := unmarshalFields ["type", "id"] v.value
  if ok then some ⟨get "type", get "id"⟩ else none

/-- a number into an `any`; one that is out of range stays nil -/
def unmarshalNumber (q : ℚ) : Json Float64 := match Float64.ofRat q with
  | some f => .num f
  | none => .null

theorem unmarshalNumber_canonical (q : ℚ) : (unmarshalNumber q).Canonical := by
  unfold unmarshalNumber
  split <;> simp [Json.Canonical]

/-- `json.Unmarshal` into a `map[string]any`; nil unless the value is an object -/
def unmarshalMap (v : Jsonb) : Option Metadata :=
  match h : v.value with
  | .obj ms => some ⟨Json.substMembers unmarshalNumber ms, by
      have hv := Json.canonical_subst unmarshalNumber_canonical _ (h ▸ v.canonical)
      simpa only [Json.subst] using hv⟩
  | _ => none

/-! ## Through the columns -/

theorem mem_jsonbMembers {ms : List (String × Json ℚ)} (hnodup : (ms.map Prod.fst).Nodup) {x : String × Json ℚ} :
    x ∈ jsonbMembers ms ↔ x ∈ ms := by
  induction ms using List.reverseRecOn generalizing x with
  | nil => exact Iff.rfl
  | append_singleton ms m ih =>
    rw [List.map_append, List.map_singleton, List.nodup_append] at hnodup
    have hk : m.1 ∉ (jsonbMembers ms).map Prod.fst := by
      intro h
      obtain ⟨y, hy, hym⟩ := List.mem_map.1 h
      exact hnodup.2.2 y.1 (List.mem_map_of_mem (jsonbMembers_mem hy)) m.1 (by simp) hym
    rw [jsonbMembers_snoc, mem_putRow _ _ hk, ih hnodup.1, mem_snoc, or_comm]

/-- members that name fields, each once, fill those fields -/
theorem setField_foldl (fields : List String) {ms : List (String × Json ℚ)} (hkeys : ∀ m ∈ ms, m.1 ∈ fields)
    (hstr : ∀ m ∈ ms, ∃ s, m.2 = .str s) (hnodup : (ms.map Prod.fst).Nodup) (acc : (String → String) × Bool) :
    (ms.foldl (setField fields) acc).2 = acc.2 ∧
      (∀ k s, (k, .str s) ∈ ms → (ms.foldl (setField fields) acc).1 k = s) ∧
      ∀ k ∉ ms.map Prod.fst, (ms.foldl (setField fields) acc).1 k = acc.1 k := by
  induction ms generalizing acc with
  | nil => simp
  | cons m ms ih =>
    obtain ⟨k, v⟩ := m
    obtain ⟨s, rfl⟩ := hstr (k, v) (by simp)
    have hk : k ∈ fields := hkeys (k, .str s) (by simp)
    have hset : setField fields acc (k, .str s) = (Function.update acc.1 k s, acc.2) := by
      simp [setField, fieldOf, hk]
    simp only [List.map_cons, List.nodup_cons] at hnodup
    obtain ⟨hok, hmem, hrest⟩ := ih (fun m hm => hkeys m (by simp [hm])) (fun m hm => hstr m (by simp [hm])) hnodup.2
      (setField fields acc (k, .str s))
    rw [List.foldl_cons]
    refine ⟨?_, ?_, ?_⟩
    · rw [hok, hset]
    · intro l t hl
      rcases List.mem_cons.1 hl with hl | hl
      · obtain ⟨rfl, ht⟩ := Prod.mk.inj hl
        rw [hrest l hnodup.1, hset, Json.str.inj ht]
        simp
      · exact hmem l t hl
    · intro l hl
      simp only [List.map_cons, List.mem_cons, not_or] at hl
      rw [hrest l hl.2, hset]
      simp [hl.1]

/-- a struct of string fields is read back as it was stored -/
theorem unmarshalFields_jsonb {fs : List (String × String)} (hnodup : (fs.map Prod.fst).Nodup) :
    (unmarshalFields (fs.map Prod.fst) (jsonbFields fs).value).2 = true ∧
      ∀ f ∈ fs, (unmarshalFields (fs.map Prod.fst) (jsonbFields fs).value).1 f.1 = f.2 := by
  have hsub := omitEmpty_keys ℚ fs
  have hperm : (printOrder (jsonbMembers (omitEmpty ℚ fs))).Perm (jsonbMembers (omitEmpty ℚ fs)) :=
    List.perm_insertionSort _ _
  have hmem : ∀ x, x ∈ printOrder (jsonbMembers (omitEmpty ℚ fs)) ↔ x ∈ omitEmpty ℚ fs := fun x =>
    hperm.mem_iff.trans (mem_jsonbMembers (hsub.nodup hnodup))
  have hascend : ((printOrder (jsonbMembers (omitEmpty ℚ fs))).map Prod.fst).Nodup :=
    (hperm.map Prod.fst).nodup_iff.2 (List.pairwise_map.2 ((jsonbMembers_ascends _).imp fun h => ne_of_lt h))
  obtain ⟨hok, hget, hunset⟩ := setField_foldl (fs.map Prod.fst)
    (fun m hm => hsub.subset (List.mem_map_of_mem ((hmem m).1 hm))) (fun m hm => omitEmpty_str ((hmem m).1 hm)) hascend
    (fun _ => "", true)
  refine ⟨hok, ?_⟩
  intro f hf
  by_cases hempty : f.2 = ""
  · rw [hempty]
    apply hunset f.1
    intro hin
    -- only a field of the same name, so this one, could have set it
    obtain ⟨y, hy, hyf⟩ := List.mem_map.1 hin
    obtain ⟨g, hg, rfl⟩ := List.mem_map.1 ((hmem y).1 hy)
    have hgf : g = f := List.inj_on_of_nodup_map hnodup (List.mem_of_mem_filter hg) hf hyf
    have hne := List.of_mem_filter hg
    rw [hgf, hempty] at hne
    simp at hne
  · refine hget f.1 f.2 ((hmem _).2 (List.mem_map.2 ⟨f, ?_, rfl⟩))
    simp [hf, hempty]

theorem hexPair_inj {a b : Fin 256} (hhi : Json.hexChar (a.val / 16) = Json.hexChar (b.val / 16))
    (hlo : Json.hexChar (a.val % 16) = Json.hexChar (b.val % 16)) : a = b := by
  have hi := congrArg Json.unhex hhi
  have lo := congrArg Json.unhex hlo
  rw [Json.unhex_hexChar _ (by omega), Json.unhex_hexChar _ (by omega)] at hi lo
  exact Fin.ext (by omega)

theorem writeBytes_inj {i : ℕ} {bs cs : List (Fin 256)} (hlen : bs.length = cs.length)
    (h : writeBytes i bs = writeBytes i cs) : bs = cs := by
  induction bs generalizing i cs with
  | nil => exact (List.length_eq_zero_iff.1 hlen.symm).symm
  | cons b bs ih =>
    cases cs with
    | nil => simp at hlen
    | cons c cs =>
      simp only [writeBytes, List.append_assoc, List.append_cancel_left_eq, List.cons_append, List.nil_append,
        List.cons.injEq] at h
      rw [hexPair_inj h.1 h.2.1, ih (by simpa using hlen) h.2.2]

/-- different UUIDs are read back differently -/
theorem uuidOut_inj {u v : Uuid} (h : uuidOut u = uuidOut v) : u = v := by
  have hlist := congrArg String.toList h
  simp only [uuidOut, String.toList_ofList] at hlist
  obtain ⟨bs, hbs⟩ := u
  obtain ⟨cs, hcs⟩ := v
  obtain rfl := writeBytes_inj (hbs.trans hcs.symm) hlist
  rfl

theorem unmarshalActor_jsonb (a : Actor) : unmarshalActor (jsonbFields a.fields) = a := by
  have hnodup : (a.fields.map Prod.fst).Nodup := by simp [Actor.fields]
  obtain ⟨-, hget⟩ := unmarshalFields_jsonb hnodup
  obtain ⟨u, i, g⟩ := a
  exact congr (congr (congrArg Actor.mk (hget ("user_id", u) (by simp [Actor.fields])))
    (hget ("ip", i) (by simp [Actor.fields]))) (hget ("user_agent", g) (by simp [Actor.fields]))

theorem unmarshalResource_jsonb (r : Resource) : unmarshalResource (jsonbFields r.fields) = some r := by
  have hnodup : (r.fields.map Prod.fst).Nodup := by simp [Resource.fields]
  obtain ⟨hok, hget⟩ := unmarshalFields_jsonb hnodup
  obtain ⟨t, i⟩ := r
  unfold unmarshalResource
  refine (if_pos hok).trans (congrArg some ?_)
  exact congr (congrArg Resource.mk (hget ("type", t) (by simp [Resource.fields])))
    (hget ("id", i) (by simp [Resource.fields]))

/-- the metadata entries that are read back -/
theorem unmarshalMap_obj {v : Jsonb} {ms : List (String × Json ℚ)} (h : v.value = .obj ms) :
    (unmarshalMap v).map Metadata.members = some (Json.substMembers unmarshalNumber ms) := by
  unfold unmarshalMap
  split
  · next ns hns =>
    rw [h] at hns
    rw [Json.obj.inj hns]
    rfl
  · next hns => exact absurd h (hns ms)

theorem unmarshalNumber_decimal (f : Float64) : unmarshalNumber f.decimal = .num f.unsigned := by
  rw [unmarshalNumber, Float64.ofRat_decimal]

/-- the numbers of a stored map lose the sign of zero -/
theorem unmarshalMap_jsonbMap (m : Metadata) : ((unmarshalMap (jsonbMap m)).map Metadata.members).map Json.obj =
    some (Json.map Float64.unsigned (.obj m.members)) := by
  have hvalue : (jsonbMap m).value = .obj (Json.substMembers (fun n => .num (Float64.decimal n)) m.members) := by
    simp only [jsonbMap, Json.map, Json.subst]
  have hread := Json.subst_map unmarshalNumber_decimal (.obj m.members)
  rw [unmarshalMap_obj hvalue, Option.map_some, ← hread]
  simp only [Json.map, Json.subst]

end Concordia.Audit
