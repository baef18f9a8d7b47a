/-
JSON values over an arbitrary type of numbers, and their text as Go's `encoding/json` writes it.

A member list stands for an object with its keys in ascending order; `Canonical` says so at every depth. `subst` replaces
the numbers of a value, `map` is the special case that keeps them numbers.

- `encode_injective`: different values have different texts, if the texts of numbers are distinct and made of the
  characters a number may have.
- `subst_map`: reading back what was written, number by number, gives the value with each number read back.
-/
import Mathlib.Tactic

namespace Concordia.Lib

inductive Json (ν : Type*) where
  | null
  | bool (b : Bool)
  | num (n : ν)
  | str (s : String)
  | arr (items : List (Json ν))
  | obj (members : List (String × Json ν))

namespace Json

variable {ν μ : Type*}

/-! ## Numbers replaced -/

mutual

/-- each number replaced by a value -/
def subst (g : ν → Json μ) : Json ν → Json μ
  | null => null
  | bool b => bool b
  | num n => g n
  | str s => str s
  | arr items => arr (substItems g items)
  | obj members => obj (substMembers g members)

def substItems (g : ν → Json μ) : List (Json ν) → List (Json μ)
  | [] => []
  | v :: vs => subst g v :: substItems g vs

def substMembers (g : ν → Json μ) : List (String × Json ν) → List (String × Json μ)
  | [] => []
  | (k, v) :: ms => (k, subst g v) :: substMembers g ms

end

def map (f : ν → μ) (v : Json ν) : Json μ := subst (fun n => num (f n)) v

mutual

/-- every number has the property -/
def All (p : ν → Prop) : Json ν → Prop
  | null | bool _ | str _ => True
  | num n => p n
  | arr items => AllItems p items
  | obj members => AllMembers p members

def AllItems (p : ν → Prop) : List (Json ν) → Prop
  | [] => True
  | v :: vs => All p v ∧ AllItems p vs

def AllMembers (p : ν → Prop) : List (String × Json ν) → Prop
  | [] => True
  | (_, v) :: ms => All p v ∧ AllMembers p ms

end

mutual

/-- the keys of every object ascend -/
def Canonical : Json ν → Prop
  | null | bool _ | num _ | str _ => True
  | arr items => CanonicalItems items
  | obj members => (members.map Prod.fst).Pairwise (· < ·) ∧ CanonicalMembers members

def CanonicalItems : List (Json ν) → Prop
  | [] => True
  | v :: vs => Canonical v ∧ CanonicalItems vs

def CanonicalMembers : List (String × Json ν) → Prop
  | [] => True
  | (_, v) :: ms => Canonical v ∧ CanonicalMembers ms

end

theorem substMembers_keys (g : ν → Json μ) : ∀ ms : List (String × Json ν),
    (substMembers g ms).map Prod.fst = ms.map Prod.fst
  | [] => by simp [substMembers]
  | (k, v) :: ms => by simp [substMembers, substMembers_keys g ms]

mutual

theorem canonical_subst {g : ν → Json μ} (hg : ∀ n, (g n).Canonical) : ∀ v : Json ν, v.Canonical → (subst g v).Canonical
  | null, _ => by simp [subst, Canonical]
  | bool _, _ => by simp [subst, Canonical]
  | num n, _ => by simpa [subst] using hg n
  | str _, _ => by simp [subst, Canonical]
  | arr items, h => by
    simp only [subst, Canonical] at h ⊢
    exact canonical_substItems hg items h
  | obj members, h => by
    simp only [subst, Canonical, substMembers_keys] at h ⊢
    exact ⟨h.1, canonical_substMembers hg members h.2⟩

theorem canonical_substItems {g : ν → Json μ} (hg : ∀ n, (g n).Canonical) : ∀ vs : List (Json ν),
    CanonicalItems vs → CanonicalItems (substItems g vs)
  | [], _ => by simp [substItems, CanonicalItems]
  | v :: vs, h => by
    simp only [substItems, CanonicalItems] at h ⊢
    exact ⟨canonical_subst hg v h.1, canonical_substItems hg vs h.2⟩

theorem canonical_substMembers {g : ν → Json μ} (hg : ∀ n, (g n).Canonical) : ∀ ms : List (String × Json ν),
    CanonicalMembers ms → CanonicalMembers (substMembers g ms)
  | [], _ => by simp [substMembers, CanonicalMembers]
  | (_, v) :: ms, h => by
    simp only [substMembers, CanonicalMembers] at h ⊢
    exact ⟨canonical_subst hg v h.1, canonical_substMembers hg ms h.2⟩

end

mutual

/-- written with `f` and read back with `g` -/
theorem subst_map {f : ν → μ} {g : μ → Json ν} {h : ν → ν} (hgf : ∀ n, g (f n) = num (h n)) :
    ∀ v : Json ν, subst g (map f v) = map h v
  | null => by simp [map, subst]
  | bool _ => by simp [map, subst]
  | num n => by simp [map, subst, hgf]
  | str _ => by simp [map, subst]
  | arr items => by
    have := substItems_map hgf items
    simp only [map, subst, this]
  | obj members => by
    have := substMembers_map hgf members
    simp only [map, subst, this]

theorem substItems_map {f : ν → μ} {g : μ → Json ν} {h : ν → ν} (hgf : ∀ n, g (f n) = num (h n)) :
    ∀ vs : List (Json ν), substItems g (substItems (fun n => num (f n)) vs) = substItems (fun n => num (h n)) vs
  | [] => by simp [substItems]
  | v :: vs => by
    have h1 := subst_map hgf v
    have h2 := substItems_map hgf vs
    simp only [map] at h1
    simp only [substItems, h1, h2]

theorem substMembers_map {f : ν → μ} {g : μ → Json ν} {h : ν → ν} (hgf : ∀ n, g (f n) = num (h n)) :
    ∀ ms : List (String × Json ν),
      substMembers g (substMembers (fun n => num (f n)) ms) = substMembers (fun n => num (h n)) ms
  | [] => by simp [substMembers]
  | (_, v) :: ms => by
    have h1 := subst_map hgf v
    have h2 := substMembers_map hgf ms
    simp only [map] at h1
    simp only [substMembers, h1, h2]

end

mutual

/-- a value is kept exactly when each of its numbers is -/
theorem map_eq_self {h : ν → ν} : ∀ v : Json ν, map h v = v ↔ All (fun n => h n = n) v
  | null => by simp [map, subst, All]
  | bool _ => by simp [map, subst, All]
  | num n => by simp [map, subst, All]
  | str _ => by simp [map, subst, All]
  | arr items => by
    have := substItems_eq_self (h := h) items
    simp only [map, subst, All, arr.injEq, this]
  | obj members => by
    have := substMembers_eq_self (h := h) members
    simp only [map, subst, All, obj.injEq, this]

theorem substItems_eq_self {h : ν → ν} : ∀ vs : List (Json ν),
    substItems (fun n => num (h n)) vs = vs ↔ AllItems (fun n => h n = n) vs
  | [] => by simp [substItems, AllItems]
  | v :: vs => by
    have h1 := map_eq_self (h := h) v
    have h2 := substItems_eq_self (h := h) vs
    simp only [map] at h1
    simp only [substItems, AllItems, List.cons.injEq, h1, h2]

theorem substMembers_eq_self {h : ν → ν} : ∀ ms : List (String × Json ν),
    substMembers (fun n => num (h n)) ms = ms ↔ AllMembers (fun n => h n = n) ms
  | [] => by simp [substMembers, AllMembers]
  | (_, v) :: ms => by
    have h1 := map_eq_self (h := h) v
    have h2 := substMembers_eq_self (h := h) ms
    simp only [map] at h1
    simp only [substMembers, AllMembers, List.cons.injEq, Prod.mk.injEq, true_and, h1, h2]

end

/-! ## Text -/

def hexChar (d : ℕ) : Char := if d < 10 then Char.ofNat (48 + d) else Char.ofNat (87 + d)

/-- four hexadecimal digits -/
def hex4 (n : ℕ) : List Char := [hexChar (n / 4096), hexChar (n / 256 % 16), hexChar (n / 16 % 16), hexChar (n % 16)]

/-- a character of a string: the control characters, `<`, `>`, `&` and the line separators are escaped too -/
def encodeChar (c : Char) : List Char :=
  if c = '"' then ['\\', '"']
  else if c = '\\' then ['\\', '\\']
  else if c = '\x08' then ['\\', 'b']
  else if c = '\x0c' then ['\\', 'f']
  else if c = '\n' then ['\\', 'n']
  else if c = '\r' then ['\\', 'r']
  else if c = '\t' then ['\\', 't']
  else if c.toNat < 32 ∨ c ∈ ['<', '>', '&', '\u2028', '\u2029'] then '\\' :: 'u' :: hex4 c.toNat
  else [c]

def encodeChars : List Char → List Char
  | [] => ['"']
  | c :: cs => encodeChar c ++ encodeChars cs

def encodeString (s : String) : List Char := '"' :: encodeChars s.toList

mutual

/-- the text of a value, with `num` for its numbers -/
def encode (num : ν → List Char) : Json ν → List Char
  | null => ['n', 'u', 'l', 'l']
  | bool true => ['t', 'r', 'u', 'e']
  | bool false => ['f', 'a', 'l', 's', 'e']
  | .num n => num n
  | str s => encodeString s
  | arr [] => ['[', ']']
  | arr (v :: vs) => '[' :: (encode num v ++ encodeItems num vs)
  | obj [] => ['{', '}']
  | obj ((k, v) :: ms) => '{' :: (encodeString k ++ ':' :: (encode num v ++ encodeMembers num ms))

/-- the items after the first -/
def encodeItems (num : ν → List Char) : List (Json ν) → List Char
  | [] => [']']
  | v :: vs => ',' :: (encode num v ++ encodeItems num vs)

/-- the members after the first -/
def encodeMembers (num : ν → List Char) : List (String × Json ν) → List Char
  | [] => ['}']
  | (k, v) :: ms => ',' :: (encodeString k ++ ':' :: (encode num v ++ encodeMembers num ms))

end

/-! ## Strings can be read back -/

def unhex (c : Char) : ℕ := if c.toNat < 58 then c.toNat - 48 else c.toNat - 87

/-- the first character of an escaped text, and the rest -/
def decodeChar : List Char → Option (Char × List Char)
  | '\\' :: 'u' :: a :: b :: c :: d :: rest =>
    some (Char.ofNat (4096 * unhex a + 256 * unhex b + 16 * unhex c + unhex d), rest)
  | '\\' :: 'b' :: rest => some ('\x08', rest)
  | '\\' :: 'f' :: rest => some ('\x0c', rest)
  | '\\' :: 'n' :: rest => some ('\n', rest)
  | '\\' :: 'r' :: rest => some ('\r', rest)
  | '\\' :: 't' :: rest => some ('\t', rest)
  | '\\' :: c :: rest => some (c, rest)
  | c :: rest => some (c, rest)
  | [] => none

theorem unhex_hexChar : ∀ d < 16, unhex (hexChar d) = d := by decide

theorem decodeChar_encodeChar (c : Char) (rest : List Char) : decodeChar (encodeChar c ++ rest) = some (c, rest) := by
  unfold encodeChar
  split_ifs with h1 h2 h3 h4 h5 h6 h7 h8
  · subst h1; rfl
  · subst h2; rfl
  · subst h3; rfl
  · subst h4; rfl
  · subst h5; rfl
  · subst h6; rfl
  · subst h7; rfl
  · -- at most 0x2029, so four digits are enough
    have hlt : c.toNat < 16384 := by
      rcases h8 with h | h
      · omega
      · simp only [List.mem_cons, List.not_mem_nil, or_false] at h
        rcases h with rfl | rfl | rfl | rfl | rfl <;> decide
    simp only [hex4, List.cons_append, List.nil_append, decodeChar, Option.some.injEq, Prod.mk.injEq, and_true]
    rw [unhex_hexChar _ (by omega), unhex_hexChar _ (by omega), unhex_hexChar _ (by omega), unhex_hexChar _ (by omega)]
    have hn : 4096 * (c.toNat / 4096) + 256 * (c.toNat / 256 % 16) + 16 * (c.toNat / 16 % 16) + c.toNat % 16 =
        c.toNat := by omega
    rw [hn, Char.ofNat_toNat]
  · have hc : c ≠ '\\' := h2
    simp [decodeChar, hc]

theorem encodeChar_append_ne (c : Char) (x y : List Char) : encodeChar c ++ x ≠ '"' :: y := by
  intro h
  unfold encodeChar at h
  split_ifs at h with h1 <;> simp_all

theorem encodeChars_injective {cs ds : List Char} {x y : List Char} (h : encodeChars cs ++ x = encodeChars ds ++ y) :
    cs = ds ∧ x = y := by
  induction cs generalizing ds with
  | nil =>
    cases ds with
    | nil => exact ⟨rfl, by simpa [encodeChars] using h⟩
    | cons d ds =>
      simp only [encodeChars, List.append_assoc, List.cons_append, List.nil_append] at h
      exact absurd h.symm (encodeChar_append_ne d _ _)
  | cons c cs ih =>
    cases ds with
    | nil =>
      simp only [encodeChars, List.append_assoc, List.cons_append, List.nil_append] at h
      exact absurd h (encodeChar_append_ne c _ _)
    | cons d ds =>
      simp only [encodeChars, List.append_assoc] at h
      have hd := congrArg decodeChar h
      rw [decodeChar_encodeChar, decodeChar_encodeChar] at hd
      obtain ⟨rfl, hrest⟩ := Prod.mk.inj (Option.some.inj hd)
      obtain ⟨rfl, hxy⟩ := ih hrest
      exact ⟨rfl, hxy⟩

theorem encodeString_injective {s t : String} {x y : List Char} (h : encodeString s ++ x = encodeString t ++ y) :
    s = t ∧ x = y := by
  simp only [encodeString, List.cons_append, List.cons.injEq, true_and] at h
  obtain ⟨hl, hxy⟩ := encodeChars_injective h
  exact ⟨String.toList_inj.1 hl, hxy⟩

/-! ## Values can be told apart -/

/-- the characters of a number -/
def numChar (c : Char) : Bool := c.isDigit || c ∈ ['-', '+', '.', 'e', 'E']

/-- a way to write numbers: distinct texts, of the characters of numbers -/
structure NumText (num : ν → List Char) : Prop where
  injective : ∀ n m, num n = num m → n = m
  nonempty : ∀ n, num n ≠ []
  chars : ∀ n, ∀ c ∈ num n, numChar c = true

/-- what may follow a value: nothing, or the character that ends it -/
def Delimited (x : List Char) : Prop := ∀ c ∈ x.head?, c ∈ [',', ']', '}']

theorem delimited_encodeItems (num : ν → List Char) (vs : List (Json ν)) (x : List Char) :
    Delimited (encodeItems num vs ++ x) := by
  cases vs <;> simp [encodeItems, Delimited]

theorem delimited_encodeMembers (num : ν → List Char) (ms : List (String × Json ν)) (x : List Char) :
    Delimited (encodeMembers num ms ++ x) := by
  rcases ms with _ | ⟨⟨k, v⟩, ms⟩ <;> simp [encodeMembers, Delimited]

/-- the number in front of a delimiter -/
theorem takeWhile_number {num : ν → List Char} (hnum : NumText num) (n : ν) {x : List Char} (hx : Delimited x) :
    (num n ++ x).takeWhile numChar = num n := by
  have hstop : x.takeWhile numChar = [] := by
    cases x with
    | nil => rfl
    | cons c cs =>
      have hc : c ∈ [',', ']', '}'] := hx c rfl
      have hno : numChar c = false := by
        simp only [List.mem_cons, List.not_mem_nil, or_false] at hc
        rcases hc with rfl | rfl | rfl <;> rfl
      rw [List.takeWhile_cons, hno]
      rfl
  rw [List.takeWhile_append_of_pos (hnum.chars n), hstop, List.append_nil]

/-- which kind of value a first character begins -/
def kindOf (c : Char) : ℕ :=
  if c = 'n' then 0 else if c = 't' then 1 else if c = 'f' then 2 else if c = '"' then 3 else if c = '[' then 4
  else if c = '{' then 5 else 6

def kind : Json ν → ℕ
  | null => 0
  | bool true => 1
  | bool false => 2
  | str _ => 3
  | arr _ => 4
  | obj _ => 5
  | num _ => 6

theorem encode_head {num : ν → List Char} (hnum : NumText num) (v : Json ν) :
    ∃ c t, encode num v = c :: t ∧ kindOf c = kind v ∧ c ≠ ']' := by
  cases v with
  | null => exact ⟨'n', _, by rw [encode], rfl, by decide⟩
  | bool b => cases b with
    | true => exact ⟨'t', _, by rw [encode], rfl, by decide⟩
    | false => exact ⟨'f', _, by rw [encode], rfl, by decide⟩
  | num n =>
    obtain ⟨c, t, hc⟩ := List.exists_cons_of_ne_nil (hnum.nonempty n)
    refine ⟨c, t, by rw [encode, hc], ?_, ?_⟩
    · have hchar : numChar c = true := hnum.chars n c (by rw [hc]; simp)
      unfold kindOf
      split_ifs with h1 h2 h3 h4 h5 h6
      all_goals first
        | rfl
        | (subst_vars; exact absurd hchar (by decide))
    · rintro rfl
      exact absurd (hnum.chars n ']' (by rw [hc]; simp)) (by decide)
  | str s => exact ⟨'"', _, by rw [encode, encodeString], rfl, by decide⟩
  | arr items =>
    cases items with
    | nil => exact ⟨'[', _, by rw [encode], rfl, by decide⟩
    | cons v vs => exact ⟨'[', _, by rw [encode], rfl, by decide⟩
  | obj members =>
    rcases members with _ | ⟨⟨k, v⟩, ms⟩
    · exact ⟨'{', _, by rw [encode], rfl, by decide⟩
    · exact ⟨'{', _, by rw [encode], rfl, by decide⟩

/-- texts that begin alike are of values of one kind -/
theorem kind_eq {num : ν → List Char} (hnum : NumText num) {v w : Json ν} {x y : List Char}
    (h : encode num v ++ x = encode num w ++ y) : kind v = kind w := by
  obtain ⟨c, t, hv, hkv, -⟩ := encode_head hnum v
  obtain ⟨d, u, hw, hkw, -⟩ := encode_head hnum w
  rw [hv, hw, List.cons_append, List.cons_append, List.cons.injEq] at h
  rw [← hkv, ← hkw, h.1]

/-- values of one kind; `true` and `false` are kinds of their own -/
inductive SameKind : Json ν → Json ν → Prop
  | null : SameKind null null
  | bool (b : Bool) : SameKind (bool b) (bool b)
  | num (n m : ν) : SameKind (num n) (num m)
  | str (s t : String) : SameKind (str s) (str t)
  | arr (vs ws : List (Json ν)) : SameKind (arr vs) (arr ws)
  | obj (ms ws : List (String × Json ν)) : SameKind (obj ms) (obj ws)

theorem sameKind {v w : Json ν} (h : kind v = kind w) : SameKind v w := by
  cases v with
  | bool b =>
    cases w with
    | bool c => cases b <;> cases c <;> first | exact .bool _ | simp [kind] at h
    | _ => cases b <;> simp [kind] at h
  | _ =>
    cases w with
    | bool c => cases c <;> simp [kind] at h
    | _ => first | constructor | simp [kind] at h

theorem encode_ne_close {num : ν → List Char} (hnum : NumText num) {v : Json ν} {x y : List Char} :
    encode num v ++ x ≠ ']' :: y := by
  obtain ⟨c, t, hv, -, hc⟩ := encode_head hnum v
  rw [hv, List.cons_append]
  intro h
  exact hc (List.cons.inj h).1

mutual

theorem encode_append_injective {num : ν → List Char} (hnum : NumText num) : ∀ (v w : Json ν) (x y : List Char),
    Delimited x → Delimited y → encode num v ++ x = encode num w ++ y → v = w ∧ x = y
  | null, w, x, y, _, _, h => by
    cases sameKind (kind_eq hnum h)
    simpa [encode] using h
  | bool b, w, x, y, _, _, h => by
    cases sameKind (kind_eq hnum h)
    simpa using h
  | .num n, w, x, y, hx, hy, h => by
    cases sameKind (kind_eq hnum h) with
    | num _ m =>
      rw [encode, encode] at h
      have htext := congrArg (List.takeWhile numChar) h
      rw [takeWhile_number hnum n hx, takeWhile_number hnum m hy] at htext
      rw [htext] at h
      exact ⟨congrArg Json.num (hnum.injective n m htext), List.append_cancel_left h⟩
  | str s, w, x, y, _, _, h => by
    cases sameKind (kind_eq hnum h) with
    | str _ t =>
      rw [encode, encode] at h
      obtain ⟨rfl, hxy⟩ := encodeString_injective h
      exact ⟨rfl, hxy⟩
  | arr [], w, x, y, _, _, h => by
    cases sameKind (kind_eq hnum h) with
    | arr _ ws =>
      cases ws with
      | nil => simpa [encode] using h
      | cons w ws =>
        rw [encode, encode] at h
        simp only [List.cons_append, List.cons.injEq, true_and, List.append_assoc] at h
        exact absurd h.symm (encode_ne_close hnum)
  | arr (v :: vs), w, x, y, hx, hy, h => by
    cases sameKind (kind_eq hnum h) with
    | arr _ ws =>
      cases ws with
      | nil =>
        rw [encode, encode] at h
        simp only [List.cons_append, List.cons.injEq, true_and, List.append_assoc] at h
        exact absurd h (encode_ne_close hnum)
      | cons w ws =>
        rw [encode, encode] at h
        simp only [List.cons_append, List.cons.injEq, true_and, List.append_assoc] at h
        obtain ⟨rfl, hrest⟩ := encode_append_injective hnum v w _ _ (delimited_encodeItems num vs x)
          (delimited_encodeItems num ws y) h
        obtain ⟨rfl, hxy⟩ := encodeItems_injective hnum vs ws x y hrest
        exact ⟨rfl, hxy⟩
  | obj [], w, x, y, _, _, h => by
    cases sameKind (kind_eq hnum h) with
    | obj _ ws =>
      rcases ws with _ | ⟨⟨k, w⟩, ws⟩
      · simpa [encode] using h
      · rw [encode, encode] at h
        simp [encodeString] at h
  | obj ((k, v) :: ms), w, x, y, hx, hy, h => by
    cases sameKind (kind_eq hnum h) with
    | obj _ ws =>
      rcases ws with _ | ⟨⟨l, w⟩, ws⟩
      · rw [encode, encode] at h
        simp [encodeString] at h
      · rw [encode, encode] at h
        simp only [List.cons_append, List.cons.injEq, true_and, List.append_assoc] at h
        obtain ⟨rfl, hv⟩ := encodeString_injective h
        obtain ⟨rfl, hrest⟩ := encode_append_injective hnum v w _ _ (delimited_encodeMembers num ms x)
          (delimited_encodeMembers num ws y) (List.cons.inj hv).2
        obtain ⟨rfl, hxy⟩ := encodeMembers_injective hnum ms ws x y hrest
        exact ⟨rfl, hxy⟩

theorem encodeItems_injective {num : ν → List Char} (hnum : NumText num) : ∀ (vs ws : List (Json ν)) (x y : List Char),
    encodeItems num vs ++ x = encodeItems num ws ++ y → vs = ws ∧ x = y
  | [], [], x, y, h => by simpa [encodeItems] using h
  | [], w :: ws, x, y, h => by simp [encodeItems] at h
  | v :: vs, [], x, y, h => by simp [encodeItems] at h
  | v :: vs, w :: ws, x, y, h => by
    rw [encodeItems, encodeItems] at h
    simp only [List.cons_append, List.cons.injEq, true_and, List.append_assoc] at h
    obtain ⟨rfl, hrest⟩ := encode_append_injective hnum v w _ _ (delimited_encodeItems num vs x)
      (delimited_encodeItems num ws y) h
    obtain ⟨rfl, hxy⟩ := encodeItems_injective hnum vs ws x y hrest
    exact ⟨rfl, hxy⟩

theorem encodeMembers_injective {num : ν → List Char} (hnum : NumText num) :
    ∀ (ms ws : List (String × Json ν)) (x y : List Char),
      encodeMembers num ms ++ x = encodeMembers num ws ++ y → ms = ws ∧ x = y
  | [], [], x, y, h => by simpa [encodeMembers] using h
  | [], (l, w) :: ws, x, y, h => by simp [encodeMembers] at h
  | (k, v) :: ms, [], x, y, h => by simp [encodeMembers] at h
  | (k, v) :: ms, (l, w) :: ws, x, y, h => by
    rw [encodeMembers, encodeMembers] at h
    simp only [List.cons_append, List.cons.injEq, true_and, List.append_assoc] at h
    obtain ⟨rfl, hv⟩ := encodeString_injective h
    obtain ⟨rfl, hrest⟩ := encode_append_injective hnum v w _ _ (delimited_encodeMembers num ms x)
      (delimited_encodeMembers num ws y) (List.cons.inj hv).2
    obtain ⟨rfl, hxy⟩ := encodeMembers_injective hnum ms ws x y hrest
    exact ⟨rfl, hxy⟩

end

/-- **Different values have different texts.** -/
theorem encode_injective {num : ν → List Char} (hnum : NumText num) {v w : Json ν} (h : encode num v = encode num w) :
    v = w :=
  (encode_append_injective hnum v w [] [] (by simp [Delimited]) (by simp [Delimited]) (by simpa using h)).1

end Json

end Concordia.Lib
