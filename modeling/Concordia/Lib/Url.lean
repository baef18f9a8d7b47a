/-
What a URL addresses: the query and the fragment are dropped, the dot segments of the path are resolved, and its
percent-encoded octets are decoded.

- `octets`: the octets of a text in UTF-8; `octets_inj`.
- `decode_encode`: percent-encoding and its inverse.
- `address`: the octets of the path that a URL addresses.
- `address_eq_iff`: a path that was put into a URL as it is, is what the URL addresses exactly if no character of it means
  anything else (`Literal`). Each of the three operations that changes the path shortens it.
-/
import Mathlib.Tactic
import Mathlib.Data.List.TakeWhile

namespace Concordia.Lib.Url

/-! ## Octets -/

/-- the octets of a text in UTF-8 -/
def octets (cs : List Char) : List UInt8 := cs.flatMap String.utf8EncodeChar

@[simp] theorem octets_nil : octets [] = [] := rfl

@[simp] theorem octets_cons (c : Char) (cs : List Char) : octets (c :: cs) = String.utf8EncodeChar c ++ octets cs := rfl

@[simp] theorem octets_append (cs ds : List Char) : octets (cs ++ ds) = octets cs ++ octets ds := List.flatMap_append

theorem octets_inj {cs ds : List Char} (h : octets cs = octets ds) : cs = ds := by
  have hbytes : (String.ofList cs).toByteArray = (String.ofList ds).toByteArray := congrArg List.toByteArray h
  exact String.ofList_injective (String.toByteArray_inj.1 hbytes)

theorem octets_length_cons (c : Char) (cs : List Char) : (octets cs).length < (octets (c :: cs)).length := by
  have := Char.utf8Size_pos c
  simp only [octets_cons, List.length_append, String.length_utf8EncodeChar]
  omega

/-- a beginning with as many octets is the whole -/
theorem eq_of_begins {cs ds : List Char} (hbegins : cs <+: ds) (h : (octets ds).length ≤ (octets cs).length) : cs = ds := by
  obtain ⟨rest, rfl⟩ := hbegins
  cases rest with
  | nil => exact (List.append_nil cs).symm
  | cons c rest =>
    have := octets_length_cons c rest
    simp only [octets_append, List.length_append] at h
    omega

/-! ## Percent-encoding -/

def hexValue (c : Char) : Option ℕ :=
  if '0' ≤ c ∧ c ≤ '9' then some (c.toNat - 48)
  else if 'A' ≤ c ∧ c ≤ 'F' then some (c.toNat - 55)
  else if 'a' ≤ c ∧ c ≤ 'f' then some (c.toNat - 87)
  else none

/-- the octet that a percent sign and two hexadecimal digits stand for -/
def escape : List Char → Option UInt8
  | c :: x :: y :: _ =>
    if c = '%' then do
      let high ← hexValue x
      let low ← hexValue y
      return UInt8.ofNat (16 * high + low)
    else none
  | _ => none

def decode : List Char → List UInt8
  | [] => []
  | c :: cs =>
    match escape (c :: cs) with
    | some octet => octet :: decode (cs.drop 2)
    | none => String.utf8EncodeChar c ++ decode cs
termination_by cs => cs.length
decreasing_by
  · rw [List.length_drop, List.length_cons]
    omega
  · rw [List.length_cons]
    omega

/-- nothing in the text is percent-encoded -/
def Unescaped (cs : List Char) : Prop := ∀ t ∈ cs.tails, escape t = none

instance (cs : List Char) : Decidable (Unescaped cs) := inferInstanceAs (Decidable (∀ t ∈ cs.tails, escape t = none))

theorem escape_some {cs : List Char} {octet : UInt8} (h : escape cs = some octet) :
    ∃ x y rest, cs = '%' :: x :: y :: rest := by
  unfold escape at h
  split at h
  · next c x y rest =>
    split_ifs at h with hc
    exact ⟨x, y, rest, by rw [hc]⟩
  · cases h

theorem decode_of_unescaped {cs : List Char} (h : Unescaped cs) : decode cs = octets cs := by
  induction cs with
  | nil => rw [decode, octets_nil]
  | cons c cs ih =>
    have hhead : escape (c :: cs) = none := h _ (by simp)
    have htail : Unescaped cs := fun t ht => h t (by simp [List.tails, ht])
    rw [decode, hhead, octets_cons]
    simp only
    rw [ih htail]

theorem decode_cons {c : Char} (hc : c ≠ '%') (cs : List Char) : decode (c :: cs) = String.utf8EncodeChar c ++ decode cs := by
  have hnone : escape (c :: cs) = none := by
    cases hescape : escape (c :: cs) with
    | none => rfl
    | some octet =>
      obtain ⟨x, y, rest, heq⟩ := escape_some hescape
      exact absurd (List.cons.inj heq).1 hc
  rw [decode, hnone]

/-- decoding goes on after a text without percent signs -/
theorem decode_append {cs : List Char} (h : '%' ∉ cs) (ds : List Char) : decode (cs ++ ds) = octets cs ++ decode ds := by
  induction cs with
  | nil => rfl
  | cons c cs ih =>
    obtain ⟨hc, hcs⟩ := not_or.1 (mt List.mem_cons.2 h)
    rw [List.cons_append, decode_cons (Ne.symm hc), ih hcs, octets_cons, List.append_assoc]

/-- decoding goes on at a character that is no digit -/
theorem decode_append_cons {x : Char} (hx : hexValue x = none) (cs ds : List Char) :
    decode (cs ++ x :: ds) = decode cs ++ decode (x :: ds) := by
  fun_induction decode cs with
  | case1 => rfl
  | case2 c cs octet hescape ih =>
    obtain ⟨y, z, rest, heq⟩ := escape_some hescape
    obtain ⟨rfl, rfl⟩ := List.cons.inj heq
    have hsame : escape ('%' :: y :: z :: rest ++ x :: ds) = some octet := hescape
    rw [List.cons_append, decode]
    rw [List.cons_append] at hsame
    rw [hsame]
    simpa using ih
  | case3 c cs hescape ih =>
    have hsame : escape (c :: cs ++ x :: ds) = none := by
      match cs, hescape with
      | [], _ => cases ds <;> simp [escape, hx]
      | [y], _ => simp [escape, hx]
      | y :: z :: rest, h => exact h
    rw [List.cons_append, decode]
    rw [List.cons_append] at hsame
    rw [hsame]
    simp [ih]

theorem length_decode (cs : List Char) : (decode cs).length ≤ (octets cs).length := by
  fun_induction decode cs with
  | case1 => exact le_rfl
  | case2 c cs octet h ih =>
    obtain ⟨x, y, rest, heq⟩ := escape_some h
    obtain ⟨rfl, rfl⟩ := List.cons.inj heq
    have hx := octets_length_cons x (y :: rest)
    have hy := octets_length_cons y rest
    have hc := octets_length_cons '%' (x :: y :: rest)
    simp only [List.drop_succ_cons, List.drop_zero] at ih
    rw [List.length_cons, List.drop_succ_cons, List.drop_succ_cons, List.drop_zero]
    omega
  | case3 c cs h ih =>
    rw [octets_cons, List.length_append, List.length_append]
    omega

/-- decoding shortens what is percent-encoded -/
theorem unescaped_of_length {cs : List Char} (h : (octets cs).length ≤ (decode cs).length) : Unescaped cs := by
  fun_induction decode cs with
  | case1 => simp [Unescaped, escape]
  | case2 c cs octet hescape ih =>
    obtain ⟨x, y, rest, heq⟩ := escape_some hescape
    obtain ⟨rfl, rfl⟩ := List.cons.inj heq
    have hx := octets_length_cons x (y :: rest)
    have hy := octets_length_cons y rest
    have hc := octets_length_cons '%' (x :: y :: rest)
    have hrest := length_decode rest
    rw [List.length_cons, List.drop_succ_cons, List.drop_succ_cons, List.drop_zero] at h
    omega
  | case3 c cs hescape ih =>
    rw [octets_cons, List.length_append, List.length_append] at h
    intro t ht
    rcases List.mem_cons.1 ht with rfl | ht
    · exact hescape
    · exact ih (by omega) t ht

def upperDigit (n : ℕ) : Char := Char.ofNat (if n < 10 then 48 + n else 55 + n)

/-- the octets that are kept stand for themselves, the others are percent-encoded -/
def encode (kept : UInt8 → Bool) (bs : List UInt8) : List Char :=
  bs.flatMap fun b => if kept b then [Char.ofNat b.toNat] else ['%', upperDigit (b.toNat / 16), upperDigit (b.toNat % 16)]

theorem encode_append (kept : UInt8 → Bool) (as bs : List UInt8) :
    encode kept (as ++ bs) = encode kept as ++ encode kept bs := List.flatMap_append

theorem encode_cons (kept : UInt8 → Bool) (b : UInt8) (bs : List UInt8) :
    encode kept (b :: bs) = encode kept [b] ++ encode kept bs := encode_append kept [b] bs

theorem hexValue_upperDigit : ∀ n < 16, hexValue (upperDigit n) = some n := by decide

theorem utf8EncodeChar_ascii {n : ℕ} (h : n < 128) : String.utf8EncodeChar (Char.ofNat n) = [UInt8.ofNat n] := by
  have hall : ∀ n < 128, String.utf8EncodeChar (Char.ofNat n) = [UInt8.ofNat n] := by decide
  exact hall n h

theorem escape_upperDigits (b : UInt8) (cs : List Char) :
    escape ('%' :: upperDigit (b.toNat / 16) :: upperDigit (b.toNat % 16) :: cs) = some b := by
  have hb : b.toNat < 256 := b.toNat_lt
  have hvalue : 16 * (b.toNat / 16) + b.toNat % 16 = b.toNat := Nat.div_add_mod _ _
  simp only [escape, if_true, hexValue_upperDigit _ (show b.toNat / 16 < 16 by omega),
    hexValue_upperDigit _ (show b.toNat % 16 < 16 by omega), Option.bind_eq_bind, Option.bind_some, hvalue]
  rw [UInt8.ofNat_toNat]
  rfl

/-- **Round trip.** What is kept is an ASCII character other than the percent sign. -/
theorem decode_encode {kept : UInt8 → Bool} (hkept : ∀ b, kept b = true → b.toNat < 128 ∧ b.toNat ≠ 37)
    (bs : List UInt8) : decode (encode kept bs) = bs := by
  induction bs with
  | nil => rw [encode, List.flatMap_nil, decode]
  | cons b bs ih =>
    rw [encode_cons]
    cases hk : kept b with
    | true =>
      obtain ⟨hlt, hne⟩ := hkept b hk
      have hpercent : Char.ofNat b.toNat ≠ '%' := by
        have hall : ∀ n < 128, n ≠ 37 → Char.ofNat n ≠ '%' := by decide
        exact hall _ hlt hne
      rw [show encode kept [b] = [Char.ofNat b.toNat] by simp [encode, hk], List.singleton_append, decode_cons hpercent,
        utf8EncodeChar_ascii hlt, ih]
      simp
    | false =>
      rw [show encode kept [b] = ['%', upperDigit (b.toNat / 16), upperDigit (b.toNat % 16)] by simp [encode, hk]]
      simp only [List.cons_append, List.nil_append]
      rw [decode, escape_upperDigits]
      simp only [List.drop_succ_cons, List.drop_zero]
      rw [ih]

/-- ASCII characters that are kept -/
theorem encode_octets {kept : UInt8 → Bool} {cs : List Char}
    (h : ∀ c ∈ cs, c.toNat < 128 ∧ kept (UInt8.ofNat c.toNat) = true) : encode kept (octets cs) = cs := by
  induction cs with
  | nil => rfl
  | cons c cs ih =>
    obtain ⟨hlt, hkept⟩ := h c List.mem_cons_self
    have hc : String.utf8EncodeChar c = [UInt8.ofNat c.toNat] := by
      rw [← utf8EncodeChar_ascii hlt, Char.ofNat_toNat]
    have hback : c.toNat % 256 = c.toNat := Nat.mod_eq_of_lt (by omega)
    rw [octets_cons, encode_append, ih fun d hd => h d (List.mem_cons_of_mem c hd), hc]
    simp [encode, hkept, hback]

/-- an ASCII octet comes from its character -/
theorem mem_octets {b : UInt8} {cs : List Char} (h : b ∈ octets cs) (hb : b.toNat < 128) : Char.ofNat b.toNat ∈ cs := by
  obtain ⟨c, hc, hmem⟩ := List.mem_flatMap.1 h
  have hsame : c.toNat = b.toNat := by
    have hofNat : ∀ n, (UInt8.ofNat n).toNat = n % 256 := fun n => UInt8.toNat_ofNat
    unfold String.utf8EncodeChar at hmem
    simp only at hmem
    split_ifs at hmem
    · obtain rfl := List.mem_singleton.1 hmem
      rw [hofNat]
      show c.val.toNat = c.val.toNat % 256
      omega
    -- the octets of other characters are above 127
    all_goals
      simp only [List.mem_cons, List.not_mem_nil, or_false] at hmem
      exfalso
      rcases hmem with rfl | rfl | rfl | rfl <;> (rw [hofNat] at hb; omega)
  rw [← hsame, Char.ofNat_toNat]
  exact hc

/-! ## Dot segments -/

abbrev Segment := List Char

/-- a dot is left out, two dots take back the segment before; either leaves an empty segment at the end of a path -/
def resolve : List Segment → List Segment → List Segment
  | out, [] => out
  | out, seg :: rest =>
    if seg = ['.'] then resolve (if rest = [] then out ++ [[]] else out) rest
    else if seg = ['.', '.'] then resolve (if rest = [] then out.dropLast ++ [[]] else out.dropLast) rest
    else resolve (out ++ [seg]) rest

def IsDots (seg : Segment) : Prop := seg = ['.'] ∨ seg = ['.', '.']

instance (seg : Segment) : Decidable (IsDots seg) := inferInstanceAs (Decidable (_ ∨ _))

/-- the text of a path -/
def text (segs : List Segment) : List Char := segs.flatMap fun seg => '/' :: seg

/-- how many octets a path has -/
def weight (segs : List Segment) : ℕ := (octets (text segs)).length

@[simp] theorem weight_nil : weight [] = 0 := rfl

@[simp] theorem weight_append (a b : List Segment) : weight (a ++ b) = weight a + weight b := by
  simp [weight, text]

@[simp] theorem weight_singleton (seg : Segment) : weight [seg] = 1 + (octets seg).length := by
  have hslash : (octets ['/']).length = 1 := by decide
  rw [← hslash, ← List.length_append, ← octets_append]
  simp [weight, text]

theorem weight_cons (seg : Segment) (segs : List Segment) : weight (seg :: segs) = 1 + (octets seg).length + weight segs := by
  rw [← weight_singleton, ← weight_append]
  rfl

theorem weight_dropLast (segs : List Segment) : weight segs.dropLast ≤ weight segs := by
  rcases List.eq_nil_or_concat' segs with rfl | ⟨init, last, rfl⟩
  · exact le_rfl
  · rw [List.dropLast_concat, weight_append]
    exact Nat.le_add_right _ _

theorem resolve_of_none {segs : List Segment} (h : ∀ seg ∈ segs, ¬IsDots seg) (out : List Segment) :
    resolve out segs = out ++ segs := by
  induction segs generalizing out with
  | nil => simp [resolve]
  | cons seg rest ih =>
    have hseg := not_or.1 (h seg (List.mem_cons_self ..))
    rw [resolve, if_neg hseg.1, if_neg hseg.2, ih fun s hs => h s (List.mem_cons_of_mem _ hs)]
    simp

theorem weight_resolve (out segs : List Segment) : weight (resolve out segs) ≤ weight out + weight segs := by
  induction segs generalizing out with
  | nil => simp [resolve]
  | cons seg rest ih =>
    have hdrop := weight_dropLast out
    have hone : (octets ['.']).length = 1 := by decide
    have htwo : (octets ['.', '.']).length = 2 := by decide
    rw [resolve, weight_cons]
    split_ifs with h1 h2 h3 h4
    · have := ih (out ++ [[]])
      rw [weight_append, weight_singleton, octets_nil, List.length_nil] at this
      omega
    · have := ih out
      omega
    · have := ih (out.dropLast ++ [[]])
      rw [weight_append, weight_singleton, octets_nil, List.length_nil] at this
      omega
    · have := ih out.dropLast
      omega
    · have := ih (out ++ [seg])
      rw [weight_append, weight_singleton] at this
      omega

/-- resolving shortens a path with dot segments -/
theorem none_of_weight (out : List Segment) {segs : List Segment} (h : weight out + weight segs ≤ weight (resolve out segs)) :
    ∀ seg ∈ segs, ¬IsDots seg := by
  induction segs generalizing out with
  | nil => simp
  | cons seg rest ih =>
    have hdrop := weight_dropLast out
    have hone : (octets ['.']).length = 1 := by decide
    have htwo : (octets ['.', '.']).length = 2 := by decide
    rw [resolve, weight_cons] at h
    split_ifs at h with h1 h2 h3 h4
    · have := weight_resolve (out ++ [[]]) rest
      rw [weight_append, weight_singleton, octets_nil, List.length_nil] at this
      rw [h1, hone] at h
      omega
    · have := weight_resolve out rest
      omega
    · have := weight_resolve (out.dropLast ++ [[]]) rest
      rw [weight_append, weight_singleton, octets_nil, List.length_nil] at this
      rw [h3, htwo] at h
      omega
    · have := weight_resolve out.dropLast rest
      omega
    · have hrest := ih (out ++ [seg]) (by rw [weight_append, weight_singleton]; omega)
      intro s hs
      rcases List.mem_cons.1 hs with rfl | hs
      · exact not_or.2 ⟨h1, h3⟩
      · exact hrest s hs

/-! ## URLs -/

/-- a URL without its fragment and its query -/
def locator (url : List Char) : List Char := (url.takeWhile (· ≠ '#')).takeWhile (· ≠ '?')

/-- the segments of the path, which comes after `scheme://authority` -/
def segments (url : List Char) : List Segment := ((locator url).splitOn '/').drop 3

/-- the octets of a path, decoded -/
def decoded (segs : List Segment) : List UInt8 := segs.flatMap fun seg => octets ['/'] ++ decode seg

/-- the octets of the path that a URL addresses -/
def address (url : List Char) : List UInt8 := decoded (resolve [] (segments url))

/-- scheme and authority -/
structure Origin where
  scheme : List Char
  authority : List Char
  plain : ∀ c ∈ scheme ++ authority, c ≠ '/' ∧ c ≠ '#' ∧ c ≠ '?'

def Origin.text (o : Origin) : List Char := o.scheme ++ ':' :: '/' :: '/' :: o.authority

/-- a path none of whose characters means anything in a URL -/
structure Literal (path : List Char) : Prop where
  marks : ∀ c ∈ path, c ≠ '#' ∧ c ≠ '?'
  segments : ∀ seg ∈ path.splitOn '/', ¬IsDots seg ∧ Unescaped seg

theorem locator_prefix (url : List Char) : locator url <+: url :=
  (List.takeWhile_prefix _).trans (List.takeWhile_prefix _)

theorem locator_append {a : List Char} (h : ∀ c ∈ a, c ≠ '#' ∧ c ≠ '?') (b : List Char) :
    locator (a ++ b) = a ++ locator b := by
  unfold locator
  rw [List.takeWhile_append_of_pos fun c hc => by simpa using (h c hc).1,
    List.takeWhile_append_of_pos fun c hc => by simpa using (h c hc).2]

theorem locator_eq_self_iff {url : List Char} : locator url = url ↔ ∀ c ∈ url, c ≠ '#' ∧ c ≠ '?' := by
  refine ⟨?_, ?_⟩
  · intro h c hc
    rw [← h] at hc
    have hquery := List.mem_takeWhile_imp hc
    have hfragment := List.mem_takeWhile_imp ((List.takeWhile_subset _) hc)
    exact ⟨by simpa using hfragment, by simpa using hquery⟩
  · intro h
    simpa [locator] using locator_append h []

/-- the parts of a URL: the scheme, nothing, the authority, and the segments of the path -/
theorem splitOn_origin (o : Origin) (path : List Char) :
    (locator (o.text ++ '/' :: path)).splitOn '/' =
      (o.scheme ++ [':']) :: [] :: o.authority :: (locator path).splitOn '/' := by
  have hplain : ∀ c ∈ o.text ++ ['/'], c ≠ '#' ∧ c ≠ '?' := by
    intro c hc
    simp only [Origin.text, List.mem_append, List.mem_cons, List.not_mem_nil, or_false] at hc
    rcases hc with (hc | rfl | rfl | rfl | hc) | rfl
    · exact (o.plain c (List.mem_append_left _ hc)).2
    · decide
    · decide
    · decide
    · exact (o.plain c (List.mem_append_right _ hc)).2
    · decide
  have hscheme : '/' ∉ o.scheme ++ [':'] := by
    intro h
    rcases List.mem_append.1 h with h | h
    · exact (o.plain _ (List.mem_append_left _ h)).1 rfl
    · exact absurd (List.mem_singleton.1 h) (by decide)
  have hauthority : '/' ∉ o.authority := fun h => (o.plain _ (List.mem_append_right _ h)).1 rfl
  have hlocator : locator (o.text ++ '/' :: path) =
      (o.scheme ++ [':']) ++ '/' :: ([] ++ '/' :: (o.authority ++ '/' :: locator path)) := by
    calc locator (o.text ++ '/' :: path) = locator ((o.text ++ ['/']) ++ path) := by simp
      _ = (o.text ++ ['/']) ++ locator path := locator_append hplain path
      _ = _ := by simp [Origin.text]
  rw [hlocator, List.splitOn_append_cons_self_of_not_mem hscheme,
    List.splitOn_append_cons_self_of_not_mem List.not_mem_nil, List.splitOn_append_cons_self_of_not_mem hauthority]

theorem segments_origin (o : Origin) (path : List Char) :
    segments (o.text ++ '/' :: path) = (locator path).splitOn '/' := by
  rw [segments, splitOn_origin]
  rfl

theorem text_eq {segs : List Segment} (h : segs ≠ []) : text segs = '/' :: ['/'].intercalate segs := by
  induction segs with
  | nil => exact absurd rfl h
  | cons seg rest ih =>
    cases rest with
    | nil => simp [text]
    | cons seg' rest =>
      rw [List.intercalate_cons_of_ne_nil (List.cons_ne_nil _ _)]
      have hrest := ih (List.cons_ne_nil _ _)
      simp only [text, List.flatMap_cons] at hrest ⊢
      rw [hrest]
      simp

theorem text_splitOn (path : List Char) : text (path.splitOn '/') = '/' :: path := by
  rw [text_eq (List.splitOn_ne_nil _ _), List.intercalate_splitOn]

/-! ## What is addressed -/

theorem decoded_cons (seg : Segment) (segs : List Segment) :
    decoded (seg :: segs) = octets ['/'] ++ decode seg ++ decoded segs := rfl

theorem decoded_of_unescaped {segs : List Segment} (h : ∀ seg ∈ segs, Unescaped seg) : decoded segs = octets (text segs) := by
  induction segs with
  | nil => rfl
  | cons seg rest ih =>
    have htext : text (seg :: rest) = ['/'] ++ seg ++ text rest := rfl
    rw [decoded_cons, decode_of_unescaped (h seg (List.mem_cons_self ..)),
      ih fun s hs => h s (List.mem_cons_of_mem _ hs), htext, octets_append, octets_append]

theorem length_decoded_cons (seg : Segment) (segs : List Segment) :
    (decoded (seg :: segs)).length = 1 + (decode seg).length + (decoded segs).length := by
  have hslash : (octets ['/']).length = 1 := by decide
  rw [decoded_cons, List.length_append, List.length_append, hslash]

theorem length_decoded (segs : List Segment) : (decoded segs).length ≤ weight segs := by
  induction segs with
  | nil => exact le_rfl
  | cons seg rest ih =>
    have hseg := length_decode seg
    rw [length_decoded_cons, weight_cons]
    omega

theorem unescaped_of_decoded {segs : List Segment} (h : weight segs ≤ (decoded segs).length) :
    ∀ seg ∈ segs, Unescaped seg := by
  induction segs with
  | nil => simp
  | cons seg rest ih =>
    have hseg := length_decode seg
    have hrest := length_decoded rest
    rw [length_decoded_cons, weight_cons] at h
    intro s hs
    rcases List.mem_cons.1 hs with rfl | hs
    · exact unescaped_of_length (by omega)
    · exact ih (by omega) s hs

/-- **Literal paths.** A URL addresses the path that was put into it exactly if the path is literal. -/
theorem address_eq_iff (o : Origin) {path : List Char} :
    address (o.text ++ '/' :: path) = octets ('/' :: path) ↔ Literal path := by
  have haddress : address (o.text ++ '/' :: path) = decoded (resolve [] ((locator path).splitOn '/')) := by
    rw [address, segments_origin]
  rw [haddress]
  refine ⟨?_, ?_⟩
  · intro h
    -- nothing was lost on the way, so nothing was changed
    have hlength := congrArg List.length h
    have hdecoded := length_decoded (resolve [] ((locator path).splitOn '/'))
    have hresolve := weight_resolve [] ((locator path).splitOn '/')
    have hlocator : weight ((locator path).splitOn '/') = (octets ('/' :: locator path)).length := by
      rw [weight, text_splitOn]
    have hbegins : '/' :: locator path <+: '/' :: path := List.cons_prefix_cons.2 ⟨rfl, locator_prefix path⟩
    have hshorter : (octets ('/' :: locator path)).length ≤ (octets ('/' :: path)).length := by
      obtain ⟨rest, hrest⟩ := hbegins
      rw [← hrest, octets_append, List.length_append]
      exact Nat.le_add_right _ _
    rw [weight_nil, Nat.zero_add] at hresolve
    have hsame : locator path = path :=
      (List.cons.inj (eq_of_begins hbegins (by omega))).2
    rw [hsame] at hlength hdecoded hresolve hlocator
    have hdots : ∀ seg ∈ path.splitOn '/', ¬IsDots seg := by
      apply none_of_weight []
      rw [weight_nil]
      omega
    rw [resolve_of_none hdots, List.nil_append] at hlength hdecoded
    have hunescaped : ∀ seg ∈ path.splitOn '/', Unescaped seg := unescaped_of_decoded (by omega)
    exact ⟨locator_eq_self_iff.1 hsame, fun seg hseg => ⟨hdots seg hseg, hunescaped seg hseg⟩⟩
  · intro h
    rw [locator_eq_self_iff.2 h.marks, resolve_of_none fun seg hseg => (h.segments seg hseg).1, List.nil_append,
      decoded_of_unescaped fun seg hseg => (h.segments seg hseg).2, text_splitOn]

theorem literal_append {a b : List Char} : Literal (a ++ '/' :: b) ↔ Literal a ∧ Literal b := by
  have hsplit := List.splitOn_append_cons_self (a := '/') a b
  refine ⟨?_, ?_⟩
  · intro h
    refine ⟨⟨fun c hc => h.marks c (by simp [hc]), fun seg hseg => h.segments seg ?_⟩,
      ⟨fun c hc => h.marks c (by simp [hc]), fun seg hseg => h.segments seg ?_⟩⟩
    · rw [hsplit]
      exact List.mem_append_left _ hseg
    · rw [hsplit]
      exact List.mem_append_right _ hseg
  · rintro ⟨ha, hb⟩
    refine ⟨?_, ?_⟩
    · intro c hc
      rcases List.mem_append.1 hc with hc | hc
      · exact ha.marks c hc
      · rcases List.mem_cons.1 hc with rfl | hc
        · decide
        · exact hb.marks c hc
    · intro seg hseg
      rw [hsplit] at hseg
      rcases List.mem_append.1 hseg with hseg | hseg
      · exact ha.segments seg hseg
      · exact hb.segments seg hseg

/-- none of the characters that mean something in a path -/
theorem literal_of_plain {cs : List Char} (h : ∀ c ∈ cs, c ≠ '/' ∧ c ≠ '#' ∧ c ≠ '?' ∧ c ≠ '%' ∧ c ≠ '.') : Literal cs := by
  refine ⟨fun c hc => ⟨(h c hc).2.1, (h c hc).2.2.1⟩, ?_⟩
  rw [List.splitOn_eq_singleton fun hslash => (h _ hslash).1 rfl]
  intro seg hseg
  obtain rfl := List.mem_singleton.1 hseg
  refine ⟨?_, ?_⟩
  · rintro (rfl | rfl)
    all_goals exact (h '.' (List.mem_cons_self ..)).2.2.2.2 rfl
  · intro t ht
    cases hescape : escape t with
    | none => rfl
    | some octet =>
      obtain ⟨x, y, rest, rfl⟩ := escape_some hescape
      have hpercent : '%' ∈ seg := ((List.mem_tails _ _).1 ht).subset (List.mem_cons_self ..)
      exact absurd rfl (h _ hpercent).2.2.2.1

instance (path : List Char) : Decidable (Literal path) :=
  have : Decidable (∀ c ∈ path, c ≠ '#' ∧ c ≠ '?') := List.decidableBAll _ _
  decidable_of_iff ((∀ c ∈ path, c ≠ '#' ∧ c ≠ '?') ∧ ∀ seg ∈ path.splitOn '/', ¬IsDots seg ∧ Unescaped seg)
    ⟨fun h => ⟨h.1, h.2⟩, fun h => ⟨h.marks, h.segments⟩⟩

end Concordia.Lib.Url
