/-
Decimal numerals as text: integers, numbers with a fixed number of decimals, and numbers with an exponent, and how to
read the number back.

- `numberValue_fixed`, `numberValue_scientific`: the text of a numeral denotes the number it was made from.
- `Numeral.head`, `Numeral.chars`: a numeral begins with no sign and consists of digits, ".", "e" and signs.
-/
import Mathlib.Tactic
import Mathlib.Data.Nat.Digits.Lemmas
import Mathlib.Data.List.TakeWhile

namespace Concordia.Lib.Decimal

/-! ## Writing -/

/-- a natural number; zero is "0" -/
def intText (n : ℕ) : List Char := if n = 0 then ['0'] else (Nat.digits 10 n).reverse.map Nat.digitChar

/-- the `k` digits of a number below `10 ^ k` -/
def padded (k r : ℕ) : List Char :=
  (Nat.digits 10 r ++ List.replicate (k - (Nat.digits 10 r).length) 0).reverse.map Nat.digitChar

/-- `m / 10 ^ k` with `k` decimals -/
def fixed (m k : ℕ) : List Char := intText (m / 10 ^ k) ++ if k = 0 then [] else '.' :: padded k (m % 10 ^ k)

/-- `m / 10 ^ k * 10 ^ x`, with `k` decimals and an exponent -/
def scientific (m k : ℕ) (x : ℤ) : List Char :=
  fixed m k ++ 'e' :: (if x < 0 then '-' else '+') :: intText x.natAbs

/-! ## Reading -/

def digitValue (c : Char) : ℕ := c.toNat - 48

/-- the number a string of digits denotes -/
def natOf (cs : List Char) : ℕ := Nat.ofDigits 10 (cs.map digitValue).reverse

def mantissaOf (cs : List Char) : ℚ :=
  natOf (cs.takeWhile (· ≠ '.') ++ (cs.dropWhile (· ≠ '.')).tail) / 10 ^ (cs.dropWhile (· ≠ '.')).tail.length

def exponentOf : List Char → ℤ
  | '-' :: ds => -natOf ds
  | _ :: ds => natOf ds
  | [] => 0

/-- the number a numeral without sign denotes -/
def numberValue (cs : List Char) : ℚ :=
  mantissaOf (cs.takeWhile (· ≠ 'e')) * 10 ^ exponentOf (cs.dropWhile (· ≠ 'e')).tail

/-! ## Digits -/

theorem digitChar_value : ∀ d < 10, digitValue (Nat.digitChar d) = d := by decide

theorem digitChar_isDigit : ∀ d < 10, (Nat.digitChar d).isDigit = true := by decide

theorem digits_lt {n d : ℕ} (h : d ∈ Nat.digits 10 n) : d < 10 := Nat.digits_lt_base (by norm_num) h

theorem natOf_digitChars {ds : List ℕ} (h : ∀ d ∈ ds, d < 10) :
    natOf (ds.reverse.map Nat.digitChar) = Nat.ofDigits 10 ds := by
  have hmap : (ds.reverse.map Nat.digitChar).map digitValue = ds.reverse := by
    rw [List.map_map]
    conv_rhs => rw [← List.map_id ds.reverse]
    apply List.map_congr_left
    intro d hd
    exact digitChar_value d (h d (List.mem_reverse.1 hd))
  rw [natOf, hmap, List.reverse_reverse]

@[simp] theorem natOf_intText (n : ℕ) : natOf (intText n) = n := by
  unfold intText
  split_ifs with h
  · rw [h]; rfl
  · rw [natOf_digitChars fun d => digits_lt, Nat.ofDigits_digits]

theorem padded_length {k r : ℕ} (h : r < 10 ^ k) : (padded k r).length = k := by
  have hlen : (Nat.digits 10 r).length ≤ k := (Nat.digits_length_le_iff (by norm_num) r).2 h
  simp only [padded, List.length_map, List.length_reverse, List.length_append, List.length_replicate]
  omega

theorem padded_digits {k r d : ℕ} (h : d ∈ Nat.digits 10 r ++ List.replicate (k - (Nat.digits 10 r).length) 0) :
    d < 10 := by
  rcases List.mem_append.1 h with h | h
  · exact digits_lt h
  · rw [List.eq_of_mem_replicate h]
    norm_num

@[simp] theorem natOf_padded (k r : ℕ) : natOf (padded k r) = r := by
  rw [padded, natOf_digitChars fun d => padded_digits, Nat.ofDigits_append_replicate_zero, Nat.ofDigits_digits]

theorem natOf_append (a b : List Char) : natOf (a ++ b) = natOf a * 10 ^ b.length + natOf b := by
  simp only [natOf, List.map_append, List.reverse_append, Nat.ofDigits_append, List.length_reverse, List.length_map]
  ring

theorem intText_isDigit {n : ℕ} {c : Char} (h : c ∈ intText n) : c.isDigit = true := by
  unfold intText at h
  split_ifs at h
  · rw [List.mem_singleton.1 h]; rfl
  · obtain ⟨d, hd, rfl⟩ := List.mem_map.1 h
    exact digitChar_isDigit d (digits_lt (List.mem_reverse.1 hd))

theorem padded_isDigit {k r : ℕ} {c : Char} (h : c ∈ padded k r) : c.isDigit = true := by
  obtain ⟨d, hd, rfl⟩ := List.mem_map.1 h
  exact digitChar_isDigit d (padded_digits (List.mem_reverse.1 hd))

theorem intText_ne_nil (n : ℕ) : intText n ≠ [] := by
  unfold intText
  split_ifs with h
  · simp
  · simp [Nat.digits_ne_nil_iff_ne_zero, h]

/-! ## Numerals -/

/-- the characters before a mark, and those after it -/
theorem takeWhile_mark (mark : Char) {a b : List Char} (h : ∀ c ∈ a, c ≠ mark) :
    (a ++ mark :: b).takeWhile (· ≠ mark) = a ∧ (a ++ mark :: b).dropWhile (· ≠ mark) = mark :: b := by
  refine ⟨?_, ?_⟩
  · rw [List.takeWhile_append_of_pos (by simpa using h)]
    simp
  · rw [List.dropWhile_append_of_pos (by simpa using h)]
    simp

theorem takeWhile_noMark (mark : Char) {a : List Char} (h : ∀ c ∈ a, c ≠ mark) :
    a.takeWhile (· ≠ mark) = a ∧ a.dropWhile (· ≠ mark) = [] := by
  refine ⟨?_, ?_⟩
  · rw [List.takeWhile_eq_self_iff]
    simpa using h
  · rw [List.dropWhile_eq_nil_iff]
    simpa using h

theorem isDigit_ne {c mark : Char} (h : c.isDigit = true) (hmark : mark.isDigit = false) : c ≠ mark := by
  rintro rfl
  rw [hmark] at h
  cases h

theorem fixed_chars {m k : ℕ} {c : Char} (h : c ∈ fixed m k) : c.isDigit = true ∨ c = '.' := by
  unfold fixed at h
  rcases List.mem_append.1 h with h | h
  · exact .inl (intText_isDigit h)
  · split_ifs at h
    · cases h
    · rcases List.mem_cons.1 h with h | h
      · exact .inr h
      · exact .inl (padded_isDigit h)

theorem mantissaOf_fixed (m k : ℕ) : mantissaOf (fixed m k) = m / 10 ^ k := by
  have hint : ∀ c ∈ intText (m / 10 ^ k), c ≠ '.' := fun c hc => isDigit_ne (intText_isDigit hc) (by decide)
  unfold mantissaOf fixed
  split_ifs with hk
  · obtain ⟨h1, h2⟩ := takeWhile_noMark '.' (a := intText (m / 10 ^ k) ++ []) (by simpa using hint)
    rw [h1, h2, hk]
    simp
  · obtain ⟨h1, h2⟩ := takeWhile_mark '.' (b := padded k (m % 10 ^ k)) hint
    have hlen : (padded k (m % 10 ^ k)).length = k := padded_length (Nat.mod_lt _ (by positivity))
    have hdigits : natOf (intText (m / 10 ^ k) ++ padded k (m % 10 ^ k)) = m := by
      calc natOf (intText (m / 10 ^ k) ++ padded k (m % 10 ^ k))
          = natOf (intText (m / 10 ^ k)) * 10 ^ (padded k (m % 10 ^ k)).length + natOf (padded k (m % 10 ^ k)) :=
            natOf_append _ _
        _ = m / 10 ^ k * 10 ^ k + m % 10 ^ k := by rw [natOf_intText, natOf_padded, hlen]
        _ = m := Nat.div_add_mod' m (10 ^ k)
    rw [h1, h2, List.tail_cons, hdigits, hlen]

theorem fixed_no_e {m k : ℕ} {c : Char} (h : c ∈ fixed m k) : c ≠ 'e' := by
  rcases fixed_chars h with h | h
  · exact isDigit_ne h (by decide)
  · rw [h]; decide

theorem numberValue_fixed (m k : ℕ) : numberValue (fixed m k) = m / 10 ^ k := by
  obtain ⟨h1, h2⟩ := takeWhile_noMark 'e' (a := fixed m k) fun c hc => fixed_no_e hc
  unfold numberValue
  rw [h1, h2, mantissaOf_fixed]
  simp [exponentOf]

theorem numberValue_scientific (m k : ℕ) (x : ℤ) : numberValue (scientific m k x) = m / 10 ^ k * 10 ^ x := by
  obtain ⟨h1, h2⟩ := takeWhile_mark 'e' (a := fixed m k)
    (b := (if x < 0 then '-' else '+') :: intText x.natAbs) fun c hc => fixed_no_e hc
  have hx : exponentOf ((if x < 0 then '-' else '+') :: intText x.natAbs) = x := by
    split_ifs with hx
    · simp only [exponentOf, natOf_intText]
      omega
    · have hread : exponentOf ('+' :: intText x.natAbs) = natOf (intText x.natAbs) := rfl
      rw [hread, natOf_intText]
      omega
  unfold numberValue scientific
  rw [h1, h2, mantissaOf_fixed, List.tail_cons, hx]

/-- a numeral without sign, with or without an exponent -/
def Numeral (cs : List Char) : Prop := ∃ m k, cs = fixed m k ∨ ∃ x, cs = scientific m k x

theorem fixed_head (m k : ℕ) : ∃ c t, fixed m k = c :: t ∧ c ≠ '-' := by
  obtain ⟨c, t, hc⟩ := List.exists_cons_of_ne_nil (show fixed m k ≠ [] by simp [fixed, intText_ne_nil])
  refine ⟨c, t, hc, ?_⟩
  intro hneg
  rcases fixed_chars (show c ∈ fixed m k by simp [hc]) with h | h
  · rw [hneg] at h
    exact absurd h (by decide)
  · rw [hneg] at h
    exact absurd h (by decide)

/-- a numeral is not empty and does not begin with a sign -/
theorem Numeral.head {cs : List Char} (h : Numeral cs) : ∃ c t, cs = c :: t ∧ c ≠ '-' := by
  obtain ⟨m, k, hcs | ⟨x, hcs⟩⟩ := h
  · rw [hcs]
    exact fixed_head m k
  · obtain ⟨c, t, hc, hne⟩ := fixed_head m k
    rw [hcs, scientific, hc]
    exact ⟨c, _, rfl, hne⟩

theorem Numeral.chars {cs : List Char} (h : Numeral cs) {c : Char} (hc : c ∈ cs) :
    c.isDigit = true ∨ c ∈ ['.', 'e', '-', '+'] := by
  have hfixed : ∀ m k, c ∈ fixed m k → c.isDigit = true ∨ c ∈ ['.', 'e', '-', '+'] := by
    intro m k hc
    rcases fixed_chars hc with h | h
    · exact .inl h
    · exact .inr (by simp [h])
  obtain ⟨m, k, hcs | ⟨x, hcs⟩⟩ := h
  · rw [hcs] at hc
    exact hfixed m k hc
  · rw [hcs, scientific] at hc
    rcases List.mem_append.1 hc with hc | hc
    · exact hfixed m k hc
    · rcases List.mem_cons.1 hc with hc | hc
      · exact .inr (by simp [hc])
      · rcases List.mem_cons.1 hc with hc | hc
        · right
          split_ifs at hc <;> simp [hc]
        · exact .inl (intText_isDigit hc)

end Concordia.Lib.Decimal
