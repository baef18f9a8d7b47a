/-
The ids of emitted audit events (contracts/lib/go/audit/audit.go `NewUUID`, `Emit`) and the log made of them.

- `uuidIn_uuidOut`: the canonical text of a UUID is read as that UUID.
- `newUUID_random`, `stamp_version`: an id made of random bytes is the canonical text of a UUID of version 4.
- `newUUID_fallback`, `newUUID_late`: the id made of the time, when there are no random bytes, is the text of a UUID up to
  the time `16 ^ 12`, in nanoseconds, which is in January 1970, and never after.
- `emitted_kept`: of each payload, whether and under which id its event is stored, and when the log of emitted events
  verifies.
-/
import Concordia.Audit.RoundTrip

namespace Concordia.Audit

open Lib Lib.HashChain

/-! ## Model -/

/-- `hex.EncodeToString` -/
def encodeToString (bytes : List UInt8) : List Char :=
  bytes.flatMap fun b => [Json.hexChar (b.toNat / 16), Json.hexChar (b.toNat % 16)]

/-- the bytes with the version and the variant in them -/
def stamp (b : Fin 16 → UInt8) : Fin 16 → UInt8 :=
  let b := Function.update b 6 ((b 6 &&& 0x0f) ||| 0x40)
  Function.update b 8 ((b 8 &&& 0x3f) ||| 0x80)

/-- `%012x` -/
def hex12 (n : ℕ) : List Char := List.leftpad 12 '0' (Nat.toDigits 16 n)

/-- `NewUUID`; `rand` is what `rand.Read` fills the array with, none if it fails -/
def newUUID (rand : Option (Fin 16 → UInt8)) (unixNano : ℕ) : String :=
  match rand with
  | none => String.ofList ("00000000-0000-4000-8000-".toList ++ hex12 unixNano)
  | some b =>
    let slice (is : List (Fin 16)) := encodeToString (is.map (stamp b))
    String.ofList (slice [0, 1, 2, 3] ++ '-' :: slice [4, 5] ++ '-' :: slice [6, 7] ++ '-' :: slice [8, 9] ++
      '-' :: slice [10, 11, 12, 13, 14, 15])

/-- what a call of `NewUUID` meets -/
structure Draw where
  rand : Option (Fin 16 → UInt8)
  unixNano : ℕ

def Draw.id (d : Draw) : String := newUUID d.rand d.unixNano

/-- there are random bytes, or it is early in January 1970 -/
def Draw.InTime (d : Draw) : Prop := d.rand = none → d.unixNano < 16 ^ 12

/-! ## Digits -/

theorem hexValue_hexChar : ∀ d < 16, hexValue (Json.hexChar d) = some d := by decide

theorem hexChar_ne_hyphen : ∀ d < 16, Json.hexChar d ≠ '-' := by decide

theorem hexChar_digitChar : ∀ d < 16, Nat.digitChar d = Json.hexChar d := by decide

/-- a hexadecimal digit in lower case -/
def LowerHex (c : Char) : Prop := ∃ d < 16, c = Json.hexChar d

theorem LowerHex.ne_hyphen {c : Char} (h : LowerHex c) : c ≠ '-' := by
  obtain ⟨d, hd, rfl⟩ := h
  exact hexChar_ne_hyphen d hd

/-- the two digits of a byte -/
def pair (b : Fin 256) : List Char := [Json.hexChar (b.val / 16), Json.hexChar (b.val % 16)]

theorem lowerHex_pair (b : Fin 256) : ∀ c ∈ pair b, LowerHex c := by
  have hlt := b.isLt
  intro c hc
  rcases List.mem_pair.1 hc with rfl | rfl
  · exact ⟨_, by omega, rfl⟩
  · exact ⟨_, by omega, rfl⟩

theorem skipHyphen_of_head {cs : List Char} (h : ∀ c ∈ cs.head?, c ≠ '-') : skipHyphen cs = cs := by
  cases cs with
  | nil => rfl
  | cons c cs =>
    have hc : c ≠ '-' := h c rfl
    unfold skipHyphen
    split
    · next heq => exact absurd (List.cons.inj heq).1 hc
    · rfl

/-- one byte read -/
theorem readBytes_pair (n i : ℕ) (b : Fin 256) (cs : List Char) :
    readBytes (n + 1) i (pair b ++ cs) =
      (readBytes n (i + 1) (if i % 2 = 1 ∧ i < 15 then skipHyphen cs else cs)).map fun p => (b :: p.1, p.2) := by
  have hlt := b.isLt
  have hbyte : Fin.ofNat 256 (16 * (b.val / 16) + b.val % 16) = b := by
    apply Fin.ext
    rw [Fin.val_ofNat]
    omega
  simp only [pair, List.cons_append, List.nil_append, readBytes, hexValue_hexChar _ (show b.val / 16 < 16 by omega),
    hexValue_hexChar _ (show b.val % 16 < 16 by omega), Option.bind_eq_bind, Option.bind_some, hbyte]
  cases readBytes n (i + 1) (if i % 2 = 1 ∧ i < 15 then skipHyphen cs else cs) <;> rfl

/-! ## The canonical text -/

/-- what is left of the text of the bytes from `i` on, the hyphen before it being skipped -/
def body (i : ℕ) : List (Fin 256) → List Char
  | [] => []
  | b :: bs => pair b ++ writeBytes (i + 1) bs

theorem head_pair_append {b : Fin 256} {cs : List Char} : ∀ c ∈ (pair b ++ cs).head?, c ≠ '-' := by
  intro c hc
  exact (lowerHex_pair b c (by simpa [pair] using Or.inl hc.symm)).ne_hyphen

/-- the hyphen is skipped wherever one is written -/
theorem skip_writeBytes (i : ℕ) (bs : List (Fin 256)) :
    (if i % 2 = 1 ∧ i < 15 then skipHyphen (writeBytes (i + 1) bs) else writeBytes (i + 1) bs) = body (i + 1) bs := by
  cases bs with
  | nil => simp [writeBytes, body, skipHyphen]
  | cons b bs =>
    by_cases hhyphen : i + 1 ∈ [4, 6, 8, 10]
    · have hodd : i % 2 = 1 ∧ i < 15 := by
        simp only [List.mem_cons, List.not_mem_nil, or_false] at hhyphen
        omega
      rw [if_pos hodd, writeBytes, if_pos hhyphen]
      rfl
    · have hplain : writeBytes (i + 1) (b :: bs) = body (i + 1) (b :: bs) := by
        rw [writeBytes, if_neg hhyphen]
        rfl
      have hskip : skipHyphen (body (i + 1) (b :: bs)) = body (i + 1) (b :: bs) := skipHyphen_of_head head_pair_append
      rw [hplain, hskip, ite_self]

theorem readBytes_body (i : ℕ) (bs : List (Fin 256)) : readBytes bs.length i (body i bs) = some (bs, []) := by
  induction bs generalizing i with
  | nil => rfl
  | cons b bs ih => rw [List.length_cons, body, readBytes_pair, skip_writeBytes, ih, Option.map_some]

/-- a text without braces is the text of the bytes that are read if nothing is left over -/
theorem uuidIn_of_read {s : String} (hbrace : ∀ cs, s.toList ≠ '{' :: cs) {bs : List (Fin 256)} {rest : List Char}
    (hlen : bs.length = 16) (hread : readBytes 16 0 s.toList = some (bs, rest)) :
    uuidIn s = if rest = [] then some ⟨bs, hlen⟩ else none := by
  unfold uuidIn
  split
  next braces cs heq =>
    obtain ⟨rfl, rfl⟩ : braces = false ∧ cs = s.toList := by
      split at heq
      · next cs' hcs => exact absurd hcs (hbrace cs')
      · next hcs =>
        obtain ⟨h1, h2⟩ := Prod.mk.inj heq
        exact ⟨h1.symm, h2.symm⟩
    rw [hread]
    by_cases hrest : rest = []
    · simp [hlen, hrest]
    · simp [hlen, hrest]

theorem body_head (i : ℕ) (bs : List (Fin 256)) : ∀ cs, body i bs ≠ '{' :: cs := by
  intro cs h
  cases bs with
  | nil => cases h
  | cons b bs =>
    have hbrace : ∀ d < 16, Json.hexChar d ≠ '{' := by decide
    have hlt := b.isLt
    exact hbrace (b.val / 16) (by omega) (List.cons.inj h).1

/-- **The canonical text** of a UUID is read as that UUID. -/
theorem uuidIn_uuidOut (u : Uuid) : uuidIn (uuidOut u) = some u := by
  obtain ⟨bs, hlen⟩ := u
  have htext : (uuidOut ⟨bs, hlen⟩).toList = body 0 bs := by
    rw [uuidOut, String.toList_ofList]
    cases bs <;> rfl
  have hread : readBytes 16 0 (uuidOut ⟨bs, hlen⟩).toList = some (bs, []) := by
    rw [htext, ← hlen]
    exact readBytes_body 0 bs
  rw [uuidIn_of_read (by rw [htext]; exact body_head 0 bs) hlen hread, if_pos rfl]

/-! ## Ids made of random bytes -/

/-- the bytes of an id that `NewUUID` makes of random ones -/
def stamped (b : Fin 16 → UInt8) : Uuid where
  bytes := [0, 1, 2, 3, 4, 5, 6, 7, 8, 9, 10, 11, 12, 13, 14, 15].map fun i => ⟨(stamp b i).toNat, (stamp b i).toNat_lt⟩
  length := by simp

theorem slices_text (f : Fin 16 → UInt8) :
    encodeToString ([0, 1, 2, 3].map f) ++ '-' :: encodeToString ([4, 5].map f) ++ '-' :: encodeToString ([6, 7].map f) ++
        '-' :: encodeToString ([8, 9].map f) ++ '-' :: encodeToString ([10, 11, 12, 13, 14, 15].map f) =
      writeBytes 0 ([0, 1, 2, 3, 4, 5, 6, 7, 8, 9, 10, 11, 12, 13, 14, 15].map fun i => ⟨(f i).toNat, (f i).toNat_lt⟩) := by
  simp [encodeToString, writeBytes]

/-- the slices with hyphens between them are the canonical text -/
theorem newUUID_random (b : Fin 16 → UInt8) (unixNano : ℕ) : newUUID (some b) unixNano = uuidOut (stamped b) :=
  congrArg String.ofList (slices_text (stamp b))

/-- the high digit of the seventh byte is the version, the high bits of the ninth the variant -/
theorem stamp_version (b : Fin 16 → UInt8) : (stamp b 6).toNat / 16 = 4 ∧ (stamp b 8).toNat / 64 = 2 := by
  have hversion : ∀ n < 256, ((n &&& 15) ||| 64) / 16 = 4 := by decide +kernel
  have hvariant : ∀ n < 256, ((n &&& 63) ||| 128) / 64 = 2 := by decide +kernel
  have hne : (6 : Fin 16) ≠ 8 := by decide
  rw [stamp, Function.update_of_ne hne, Function.update_self, Function.update_self]
  rw [Function.update_of_ne hne.symm, UInt8.toNat_or, UInt8.toNat_and, UInt8.toNat_or, UInt8.toNat_and]
  exact ⟨hversion _ (b 6).toNat_lt, hvariant _ (b 8).toNat_lt⟩

/-! ## Ids made of the time -/

theorem lowerHex_toDigits (n : ℕ) : ∀ c ∈ Nat.toDigits 16 n, LowerHex c := by
  induction n using Nat.strongRecOn with
  | ind n ih =>
    intro c hc
    rw [Nat.toDigits_eq_if (by decide)] at hc
    split_ifs at hc with hlt
    · exact ⟨n, hlt, (List.mem_singleton.1 hc).trans (hexChar_digitChar n hlt)⟩
    · rcases List.mem_append.1 hc with hc | hc
      · exact ih (n / 16) (by omega) c hc
      · have hmod : n % 16 < 16 := Nat.mod_lt n (by decide)
        exact ⟨n % 16, hmod, (List.mem_singleton.1 hc).trans (hexChar_digitChar _ hmod)⟩

theorem lowerHex_hex12 (n : ℕ) : ∀ c ∈ hex12 n, LowerHex c := by
  intro c hc
  rw [hex12, List.leftpad] at hc
  rcases List.mem_append.1 hc with hc | hc
  · exact ⟨0, by decide, List.eq_of_mem_replicate hc⟩
  · exact lowerHex_toDigits n c hc

/-- digits are read two by two -/
theorem readBytes_digits (n i : ℕ) {ds : List Char} (hds : ∀ c ∈ ds, LowerHex c) (hlen : 2 * n ≤ ds.length) :
    ∃ bs : List (Fin 256), bs.length = n ∧ bs.flatMap pair = ds.take (2 * n) ∧
      readBytes n i ds = some (bs, ds.drop (2 * n)) := by
  induction n generalizing i ds with
  | zero => exact ⟨[], rfl, by simp, rfl⟩
  | succ n ih =>
    obtain ⟨c, d, ds, rfl⟩ : ∃ c d es, ds = c :: d :: es := by
      match ds, hlen with
      | c :: d :: es, _ => exact ⟨c, d, es, rfl⟩
    obtain ⟨x, hx, rfl⟩ := hds c (by simp)
    obtain ⟨y, hy, rfl⟩ := hds d (by simp)
    have hrest : ∀ c ∈ ds, LowerHex c := fun c hc => hds c (by simp [hc])
    obtain ⟨bs, hbs, htext, hread⟩ := ih (i + 1) hrest (by simp at hlen; omega)
    let b : Fin 256 := ⟨16 * x + y, by omega⟩
    have hpair : pair b = [Json.hexChar x, Json.hexChar y] := by
      rw [pair, show b.val / 16 = x by simp only [b]; omega, show b.val % 16 = y by simp only [b]; omega]
    have hskip : skipHyphen ds = ds := by
      refine skipHyphen_of_head fun c hc => (hrest c ?_).ne_hyphen
      exact List.mem_of_mem_head? hc
    have hone := readBytes_pair n i b ds
    rw [hskip, ite_self, hread, hpair] at hone
    refine ⟨b :: bs, by rw [List.length_cons, hbs], ?_, hone⟩
    rw [List.flatMap_cons, hpair, htext]
    rfl

/-- the ten bytes in front of the time -/
def frontBytes : List (Fin 256) := ([0, 0, 0, 0, 0, 0, 64, 0, 128, 0] : List UInt8).map UInt8.toFin

theorem readBytes_frontBytes (ds : List Char) :
    readBytes 16 0 ("00000000-0000-4000-8000-".toList ++ ds) =
      (readBytes 6 10 ds).map fun p => (frontBytes ++ p.1, p.2) := by
  cases hread : readBytes 6 10 ds with
  | none => simp [readBytes, hexValue, skipHyphen, hread]
  | some p => simp [readBytes, hexValue, skipHyphen, hread, frontBytes]

theorem length_hex12 (n : ℕ) : (hex12 n).length = 12 ↔ n < 16 ^ 12 := by
  rw [hex12, List.length_leftpad, ← Nat.length_toDigits_le_iff (b := 16) (by decide) (by decide)]
  exact max_eq_left_iff

theorem newUUID_none (unixNano : ℕ) :
    newUUID none unixNano = String.ofList ("00000000-0000-4000-8000-".toList ++ hex12 unixNano) := rfl

theorem writeBytes_frontBytes (b1 b2 b3 b4 b5 b6 : Fin 256) :
    writeBytes 0 (frontBytes ++ [b1, b2, b3, b4, b5, b6]) =
      "00000000-0000-4000-8000-".toList ++ [b1, b2, b3, b4, b5, b6].flatMap pair := rfl

theorem newUUID_read (unixNano : ℕ) : ∃ u : Uuid,
    (hex12 unixNano).take 12 = (u.bytes.drop 10).flatMap pair ∧ u.bytes.take 10 = frontBytes ∧
      uuidIn (newUUID none unixNano) = if (hex12 unixNano).drop 12 = [] then some u else none := by
  have hle : 2 * 6 ≤ (hex12 unixNano).length := by
    rw [hex12, List.length_leftpad]
    exact le_max_left _ _
  obtain ⟨bs, hlen, htext, hread⟩ := readBytes_digits 6 10 (lowerHex_hex12 unixNano) hle
  have hlist : (newUUID none unixNano).toList = "00000000-0000-4000-8000-".toList ++ hex12 unixNano := String.toList_ofList
  have hbrace : ∀ cs, (newUUID none unixNano).toList ≠ '{' :: cs := by
    intro cs h
    rw [hlist] at h
    cases (List.cons.inj h).1
  have hbytes : (frontBytes ++ bs).length = 16 := by rw [List.length_append, hlen]; rfl
  have hall : readBytes 16 0 (newUUID none unixNano).toList = some (frontBytes ++ bs, (hex12 unixNano).drop 12) := by
    rw [hlist, readBytes_frontBytes, hread]
    rfl
  exact ⟨⟨frontBytes ++ bs, hbytes⟩, htext.symm, rfl, uuidIn_of_read hbrace hbytes hall⟩

/-- **The id made of the time** is the canonical text of a UUID up to the time `16 ^ 12`. -/
theorem newUUID_fallback {unixNano : ℕ} (h : unixNano < 16 ^ 12) :
    ∃ u, uuidIn (newUUID none unixNano) = some u ∧ uuidOut u = newUUID none unixNano := by
  have htwelve := (length_hex12 unixNano).2 h
  obtain ⟨⟨bs, hlen⟩, htext, hfront, hin⟩ := newUUID_read unixNano
  rw [if_pos (List.drop_eq_nil_of_le htwelve.le)] at hin
  refine ⟨_, hin, ?_⟩
  rw [List.take_of_length_le htwelve.le] at htext
  dsimp only at htext hfront
  obtain ⟨b1, b2, b3, b4, b5, b6, hsix⟩ : ∃ b1 b2 b3 b4 b5 b6, bs.drop 10 = [b1, b2, b3, b4, b5, b6] := by
    have hdrop : (bs.drop 10).length = 6 := by rw [List.length_drop, hlen]
    match bs.drop 10, hdrop with
    | [b1, b2, b3, b4, b5, b6], _ => exact ⟨b1, b2, b3, b4, b5, b6, rfl⟩
  have hsplit : bs = frontBytes ++ [b1, b2, b3, b4, b5, b6] := by rw [← hfront, ← hsix, List.take_append_drop]
  rw [newUUID_none, htext, hsix, ← writeBytes_frontBytes, ← hsplit]
  rfl

theorem newUUID_late {unixNano : ℕ} (h : ¬ unixNano < 16 ^ 12) : uuidIn (newUUID none unixNano) = none := by
  obtain ⟨u, -, -, hin⟩ := newUUID_read unixNano
  rw [hin, if_neg]
  intro hdrop
  have hshort := List.drop_eq_nil_iff.1 hdrop
  apply h
  rw [← length_hex12]
  refine le_antisymm hshort ?_
  rw [hex12, List.length_leftpad]
  exact le_max_left _ _

/-! ## A log of emitted events -/

/-- the ids that are read as UUIDs -/
theorem uuidIn_id {d : Draw} (h : d.InTime) : ∃ u, uuidIn d.id = some u ∧ uuidOut u = d.id := by
  obtain ⟨rand, unixNano⟩ := d
  cases rand with
  | some b => exact ⟨stamped b, by rw [Draw.id, newUUID_random, uuidIn_uuidOut], (newUUID_random b unixNano).symm⟩
  | none => exact newUUID_fallback (h rfl)

theorem uuidIn_id_late {d : Draw} (h : ¬ d.InTime) : uuidIn d.id = none := by
  obtain ⟨rand, unixNano⟩ := d
  cases rand with
  | some b => exact absurd (fun hnone => by cases hnone) h
  | none => exact newUUID_late fun htime => h fun _ => htime

theorem uuidOut_injective : Function.Injective uuidOut := by
  intro u v h
  have hread := uuidIn_uuidOut u
  rw [h, uuidIn_uuidOut] at hread
  exact (Option.some.inj hread).symm

/-- an id that was made in time is stored as it is, unless it is there already -/
theorem insertable_iff {rows : List Row} {ev : Event} {d : Draw} (hid : ev.eventId = d.id) (u : Uuid) :
    insertable rows ev = some u ↔ d.InTime ∧ uuidOut u = d.id ∧ ∀ r ∈ rows, uuidOut r.eventId ≠ d.id := by
  unfold insertable
  rw [hid, Option.filter_eq_some_iff]
  by_cases htime : d.InTime
  · obtain ⟨v, hin, hout⟩ := uuidIn_id htime
    have hsame : some v = some u ↔ uuidOut u = d.id := by
      rw [← hout, Option.some.injEq]
      exact ⟨fun h => h ▸ rfl, fun h => (uuidOut_injective h).symm⟩
    have hnew : (u ∉ rows.map Row.eventId) ↔ ∀ r ∈ rows, uuidOut r.eventId ≠ uuidOut u := by
      simp [uuidOut_injective.eq_iff]
    rw [hin, hsame, decide_eq_true_iff, hnew]
    refine ⟨fun ⟨hu, hrows⟩ => ⟨htime, hu, hu ▸ hrows⟩, fun ⟨_, hu, hrows⟩ => ⟨hu, hu.symm ▸ hrows⟩⟩
  · rw [uuidIn_id_late htime]
    exact ⟨fun ⟨h, _⟩ => (by cases h), fun ⟨h, _⟩ => absurd h htime⟩

section

variable {sum : List Char → String} (hsum : Function.Injective sum) {π : Type*} (unmarshal : π → Option Event)

/-- a payload with the draw of the id of its event, and the answer of the database -/
structure Emission (π : Type*) where
  draw : Draw
  payload : π
  answer : Answer

def Emission.op (e : Emission π) : π × Answer := (e.payload, e.answer)

/-- the payload, if it decodes, has the event with the id that was drawn -/
def Emission.Made (e : Emission π) : Prop := ∀ ev, unmarshal e.payload = some ev → ev.eventId = e.draw.id

/-- the event gets past the decoder and the check, and the database is there to take it -/
def Emission.Taken (e : Emission π) : Prop := (∃ ev, unmarshal e.payload = some ev ∧ validEvent ev = true) ∧ e.answer.accepted = true

theorem stored_iff {s : Store} {e : Emission π} (hmade : e.Made unmarshal) {ev : Event} {u : Uuid} :
    stored unmarshal s e.op = some (ev, u) ↔ unmarshal e.payload = some ev ∧ validEvent ev = true ∧ e.answer.accepted = true ∧
      e.draw.InTime ∧ uuidOut u = e.draw.id ∧ ∀ r ∈ s.rows, uuidOut r.eventId ≠ e.draw.id := by
  have hop : unmarshal e.op.1 = unmarshal e.payload := rfl
  unfold stored
  rw [hop]
  cases hdecode : unmarshal e.payload with
  | none => simp
  | some x =>
    dsimp only
    by_cases htaken : validEvent x = true ∧ e.op.2.accepted = true
    · rw [if_pos htaken, Option.map_eq_some_iff]
      refine ⟨?_, ?_⟩
      · rintro ⟨v, hv, heq⟩
        obtain ⟨rfl, rfl⟩ := Prod.mk.inj heq
        exact ⟨rfl, htaken.1, htaken.2, (insertable_iff (hmade x hdecode) v).1 hv⟩
      · rintro ⟨hx, -, -, hid⟩
        obtain rfl := Option.some.inj hx
        exact ⟨u, (insertable_iff (hmade x hdecode) u).2 hid, rfl⟩
    · rw [if_neg htaken]
      refine ⟨fun h => (by cases h), ?_⟩
      rintro ⟨hx, hvalid, haccepted, -⟩
      obtain rfl := Option.some.inj hx
      exact absurd ⟨hvalid, haccepted⟩ htaken

/-- a payload stores its event under the id that was drawn, or nothing -/
theorem consume_emission (s : Store) {e : Emission π} (hmade : e.Made unmarshal) :
    (e.Taken unmarshal ∧ e.draw.InTime ∧ (∀ r ∈ s.rows, uuidOut r.eventId ≠ e.draw.id) →
      ∃ r, (consume sum unmarshal s e.op).rows = s.rows ++ [r] ∧ uuidOut r.eventId = e.draw.id) ∧
    (¬ (e.Taken unmarshal ∧ e.draw.InTime ∧ ∀ r ∈ s.rows, uuidOut r.eventId ≠ e.draw.id) →
      (consume sum unmarshal s e.op).rows = s.rows) := by
  rcases consume_cases sum unmarshal s e.op with ⟨hnone, hsame, -⟩ | ⟨ev, u, seq, hsome, hone, -⟩
  · refine ⟨?_, fun _ => hsame⟩
    rintro ⟨⟨⟨ev, hdecode, hvalid⟩, haccepted⟩, htime, hnew⟩
    obtain ⟨u, -, hout⟩ := uuidIn_id htime
    rw [(stored_iff unmarshal hmade).2 ⟨hdecode, hvalid, haccepted, htime, hout, hnew⟩] at hnone
    cases hnone
  · obtain ⟨hdecode, hvalid, haccepted, htime, hout, hnew⟩ := (stored_iff unmarshal hmade).1 hsome
    refine ⟨fun _ => ⟨_, hone, hout⟩, fun hnot => ?_⟩
    exact absurd ⟨⟨⟨ev, hdecode, hvalid⟩, haccepted⟩, htime, hnew⟩ hnot

include hsum

/-- **Emitted events.** Whatever the database answers, a payload adds to the log the event with the id that was drawn for
it, exactly if it is decoded and valid, the database takes it, no row has that id, and the id was made of random bytes or of
a time before `16 ^ 12` nanoseconds of 1970; and the log verifies exactly if no event that was added has the number −0 in
its metadata. -/
theorem emitted_kept (emissions : List (Emission π)) (hmade : ∀ e ∈ emissions, e.Made unmarshal) :
    let after (l : List (Emission π)) := (run (consume sum unmarshal) Store.empty (l.map Emission.op)).rows
    (∀ a e b, emissions = a ++ e :: b →
      (e.Taken unmarshal ∧ e.draw.InTime ∧ (∀ r ∈ after a, uuidOut r.eventId ≠ e.draw.id) →
        ∃ r, after (a ++ [e]) = after a ++ [r] ∧ uuidOut r.eventId = e.draw.id) ∧
      (¬ (e.Taken unmarshal ∧ e.draw.InTime ∧ ∀ r ∈ after a, uuidOut r.eventId ≠ e.draw.id) →
        after (a ++ [e]) = after a)) ∧
    (verify sum (after emissions) = ⟨true, (after emissions).length, 0, ""⟩ ↔
      ∀ a e b, emissions = a ++ e :: b → after (a ++ [e]) ≠ after a → ∀ ev, unmarshal e.payload = some ev →
        Json.All (fun f => f.isNegZero = false) (.obj ev.entries)) := by
  intro after
  have hsnoc : ∀ a e, after (a ++ [e]) = (consume sum unmarshal (run (consume sum unmarshal) Store.empty (a.map Emission.op)) e.op).rows := by
    intro a e
    simp only [after, List.map_append, List.map_singleton, run_snoc]
  refine ⟨?_, ?_⟩
  · intro a e b hab
    rw [hsnoc]
    exact consume_emission unmarshal _ (hmade e (by rw [hab]; simp))
  · rw [verified_iff hsum unmarshal, along_iff_split]
    refine ⟨?_, ?_⟩
    · intro h a e b hab hadded ev hdecode
      have hmem : e.Made unmarshal := hmade e (by rw [hab]; simp)
      have hops : emissions.map Emission.op = a.map Emission.op ++ e.op :: b.map Emission.op := by rw [hab]; simp
      rcases consume_cases sum unmarshal (run (consume sum unmarshal) Store.empty (a.map Emission.op)) e.op with
        ⟨-, hsame, -⟩ | ⟨x, u, seq, hsome, -, -⟩
      · exact absurd ((hsnoc a e).trans hsame) hadded
      · obtain ⟨hx, -⟩ := (stored_iff unmarshal hmem).1 hsome
        rw [hdecode] at hx
        obtain rfl := Option.some.inj hx
        exact (h _ _ _ hops ev u hsome).2
    · intro h l op m hlm ev u hsome
      obtain ⟨a, c, hac, rfl, hc⟩ := List.map_eq_append_iff.1 hlm
      obtain ⟨e, b, rfl, rfl, rfl⟩ := List.map_eq_cons_iff.1 hc
      obtain ⟨hdecode, -, -, -, hout, -⟩ := (stored_iff unmarshal (hmade e (by rw [hac]; simp))).1 hsome
      refine ⟨hout.trans (hmade e (by rw [hac]; simp) ev hdecode).symm, h a e b hac ?_ ev hdecode⟩
      rw [hsnoc]
      rcases consume_cases sum unmarshal (run (consume sum unmarshal) Store.empty (a.map Emission.op)) e.op with
        ⟨hnone, -, -⟩ | ⟨x, v, seq, -, hone, -⟩
      · rw [hnone] at hsome
        cases hsome
      · rw [hone]
        simp [after]

end

/-- the login with the id that it is emitted with -/
def emitLogin (draw : Draw) : Emission Event := ⟨draw, { login with eventId := draw.id }, ⟨true, 0⟩⟩

/-- two events, the second emitted without random bytes in 2023 -/
def emittedLogins : List (Emission Event) :=
  [emitLogin ⟨some fun _ => 7, 0⟩, emitLogin ⟨none, 1700000000000000000⟩]

theorem emitLogin_taken (draw : Draw) : (emitLogin draw).Made some ∧ (validEvent { login with eventId := draw.id } = true →
    (emitLogin draw).Taken some) :=
  ⟨fun _ hev => Option.some.inj hev ▸ rfl, fun hvalid => ⟨⟨_, rfl, hvalid⟩, rfl⟩⟩

theorem emittedLogins_kept :
    let after (l : List (Emission Event)) := (run (consume tagged some) Store.empty (l.map Emission.op)).rows
    (∃ r, after (emittedLogins.take 1) = [r] ∧ uuidOut r.eventId = newUUID (some fun _ => 7) 0) ∧
      after emittedLogins = after (emittedLogins.take 1) ∧
      verify tagged (after emittedLogins) = ⟨true, (after emittedLogins).length, 0, ""⟩ := by
  have hmade : ∀ e ∈ emittedLogins, e.Made some := by
    intro e he
    rcases List.mem_pair.1 he with rfl | rfl
    · exact (emitLogin_taken _).1
    · exact (emitLogin_taken _).1
  obtain ⟨heach, hverified⟩ := emitted_kept tagged_injective some emittedLogins hmade
  refine ⟨?_, ?_, hverified.2 ?_⟩
  · refine (heach [] _ _ rfl).1 ⟨(emitLogin_taken _).2 (by decide), fun hnone => (by cases hnone), ?_⟩
    intro r hr
    cases hr
  · refine (heach (emittedLogins.take 1) _ _ rfl).2 ?_
    rintro ⟨-, htime, -⟩
    exact absurd (htime rfl) (by decide)
  · intro a e b hab _ ev hev
    have he : e ∈ emittedLogins := by rw [hab]; simp
    have hzero : ∀ draw : Draw,
        Json.All (fun f => f.isNegZero = false) (.obj ({ login with eventId := draw.id } : Event).entries) :=
      fun _ => login_unaltered.2
    rcases List.mem_pair.1 he with rfl | rfl
    · exact Option.some.inj hev ▸ hzero _
    · exact Option.some.inj hev ▸ hzero _

end Concordia.Audit
