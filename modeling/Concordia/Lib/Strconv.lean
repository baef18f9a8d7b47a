/-
Decimal integers as text, read into 64-bit ints (`strconv.Atoi`), and the machine integers that such an int is put into:
an unsigned 32-bit number, and a signed 64-bit product.

- `PositiveInt s n`: the text is a numeral of the positive int `n`; `PositiveInt.atoi_eq` and `positiveInt_of_atoi`: `atoi`
  reads exactly these texts as positive ints.
- `uint32_toNat`, `uint32_eq_iff`: the low 32 bits of an int, which are the int itself below `2 ^ 32` only.
- `mul_eq_iff`: a product is right if it is below `2 ^ 63`, and only then.
-/
import Mathlib.Tactic
import Mathlib.Data.Nat.Digits.Lemmas

namespace Concordia.Lib.Strconv

/-! ## Model -/

/-- the number of the digits read so far, and of those that follow; none: a character that is no digit -/
def digits (n : ℕ) : List UInt8 → Option ℕ
  | [] => some n
  | ch :: s => if ch - '0'.toUInt8 > 9 then none else digits (n * 10 + (ch - '0'.toUInt8).toNat) s

/-- an unsigned number -/
def parseUint (s : List UInt8) : Option ℕ := if s = [] then none else digits 0 s

/-- `strconv.Atoi` where ints have 64 bits; none: an error -/
def atoi (s : List UInt8) : Option Int64 :=
  if s.head? = some '-'.toUInt8 then
    (parseUint s.tail).bind fun n => if n ≤ 2 ^ 63 then some (Int64.ofInt (-n)) else none
  else
    (parseUint (if s.head? = some '+'.toUInt8 then s.tail else s)).bind fun n =>
      if n < 2 ^ 63 then some (Int64.ofNat n) else none

/-- the conversion to uint32, which drops the high bits -/
def uint32 (n : Int64) : UInt32 := n.toUInt64.toUInt32

/-! ## Numerals -/

/-- the number that digits denote -/
def value (ds : List UInt8) : ℕ := Nat.ofDigits 10 (ds.map fun ch => (ch - '0'.toUInt8).toNat).reverse

/-- the text is a numeral of the positive int `n`: digits, behind a plus sign or no sign -/
def PositiveInt (s : List UInt8) (n : ℕ) : Prop :=
  ∃ ds, (s = ds ∨ s = '+'.toUInt8 :: ds) ∧ (∀ ch ∈ ds, '0'.toUInt8 ≤ ch ∧ ch ≤ '9'.toUInt8) ∧ value ds = n ∧
    0 < n ∧ n < 2 ^ 63

theorem digit_iff (ch : UInt8) : ¬ ch - '0'.toUInt8 > 9 ↔ '0'.toUInt8 ≤ ch ∧ ch ≤ '9'.toUInt8 := by
  have hlt := ch.toNat_lt
  have hzero : ('0'.toUInt8).toNat = 48 := rfl
  have hnine : ('9'.toUInt8).toNat = 57 := rfl
  have hmax : (9 : UInt8).toNat = 9 := rfl
  simp only [gt_iff_lt, UInt8.lt_iff_toNat_lt, UInt8.le_iff_toNat_le, UInt8.toNat_sub, hzero, hnine, hmax]
  omega

@[simp] theorem value_nil : value [] = 0 := rfl

theorem value_cons (ch : UInt8) (ds : List UInt8) :
    value (ch :: ds) = (ch - '0'.toUInt8).toNat * 10 ^ ds.length + value ds := by
  rw [value, List.map_cons, List.reverse_cons, Nat.ofDigits_append, Nat.ofDigits_singleton, List.length_reverse,
    List.length_map, ← value]
  ring

theorem digits_eq_some {n m : ℕ} {s : List UInt8} : digits n s = some m ↔
    (∀ ch ∈ s, '0'.toUInt8 ≤ ch ∧ ch ≤ '9'.toUInt8) ∧ n * 10 ^ s.length + value s = m := by
  induction s generalizing n with
  | nil => simp [digits]
  | cons ch s ih =>
    rw [digits]
    by_cases hdigit : '0'.toUInt8 ≤ ch ∧ ch ≤ '9'.toUInt8
    · have hsum : (n * 10 + (ch - '0'.toUInt8).toNat) * 10 ^ s.length + value s =
          n * 10 ^ (ch :: s).length + value (ch :: s) := by
        rw [value_cons, List.length_cons]
        ring
      rw [if_neg ((digit_iff ch).2 hdigit), ih, hsum, List.forall_mem_cons]
      exact and_congr_left fun _ => (and_iff_right hdigit).symm
    · rw [if_pos (not_not.1 (mt (digit_iff ch).1 hdigit))]
      simp [hdigit]

theorem parseUint_eq_some {s : List UInt8} {n : ℕ} : parseUint s = some n ↔
    s ≠ [] ∧ (∀ ch ∈ s, '0'.toUInt8 ≤ ch ∧ ch ≤ '9'.toUInt8) ∧ value s = n := by
  rw [parseUint]
  split_ifs with hs
  · simp [hs]
  · rw [digits_eq_some, Nat.zero_mul, Nat.zero_add]
    exact (and_iff_right hs).symm

/-- a digit is no sign -/
theorem head?_ne_of_digits {s : List UInt8} (h : ∀ ch ∈ s, '0'.toUInt8 ≤ ch ∧ ch ≤ '9'.toUInt8) {sign : UInt8}
    (hsign : sign < '0'.toUInt8) : s.head? ≠ some sign := by
  intro hhead
  exact absurd hsign (UInt8.not_lt.2 (h sign (List.mem_of_mem_head? hhead)).1)

theorem PositiveInt.atoi_eq {s : List UInt8} {n : ℕ} (h : PositiveInt s n) : atoi s = some (Int64.ofNat n) := by
  obtain ⟨ds, hs, hdigits, hvalue, hpos, hlt⟩ := h
  have hne : ds ≠ [] := by
    rintro rfl
    rw [← hvalue, value_nil] at hpos
    exact hpos.false
  have hread : parseUint ds = some n := parseUint_eq_some.2 ⟨hne, hdigits, hvalue⟩
  rcases hs with rfl | rfl
  · rw [atoi, if_neg (head?_ne_of_digits hdigits (by decide)), if_neg (head?_ne_of_digits hdigits (by decide)), hread,
      Option.bind_some, if_pos hlt]
  · have hsigns : '+'.toUInt8 ≠ '-'.toUInt8 := by decide
    rw [atoi, List.head?_cons, if_neg (by simp [hsigns]), if_pos rfl, List.tail_cons, hread, Option.bind_some, if_pos hlt]

theorem positiveInt_of_atoi {s : List UInt8} {i : Int64} (h : atoi s = some i) (hi : 0 < i) :
    PositiveInt s i.toInt.toNat := by
  have hpos : 0 < i.toInt := Int64.lt_iff_toInt_lt.1 hi
  rw [atoi] at h
  split_ifs at h with hminus hplus
  · -- the int of a numeral with a minus sign is not positive
    obtain ⟨n, -, hn⟩ := Option.bind_eq_some_iff.1 h
    split_ifs at hn with hle
    obtain rfl := Option.some.inj hn
    rw [Int64.toInt_ofInt_of_le (by omega) (by omega)] at hpos
    omega
  all_goals
    obtain ⟨n, hread, hn⟩ := Option.bind_eq_some_iff.1 h
    split_ifs at hn with hlt
    obtain rfl := Option.some.inj hn
    obtain ⟨-, hdigits, hvalue⟩ := parseUint_eq_some.1 hread
    rw [Int64.toInt_ofNat_of_lt hlt] at hpos ⊢
    rw [Int.toNat_natCast]
  · exact ⟨s.tail, .inr (List.eq_cons_of_mem_head? hplus), hdigits, hvalue, by omega, hlt⟩
  · exact ⟨s, .inl rfl, hdigits, hvalue, by omega, hlt⟩

theorem PositiveInt.unique {s : List UInt8} {n m : ℕ} (hn : PositiveInt s n) (hm : PositiveInt s m) : n = m := by
  obtain ⟨_, -, -, -, -, hn'⟩ := id hn
  obtain ⟨_, -, -, -, -, hm'⟩ := id hm
  have heq : Int64.ofNat n = Int64.ofNat m := Option.some.inj (hn.atoi_eq.symm.trans hm.atoi_eq)
  have hint := congrArg Int64.toInt heq
  rw [Int64.toInt_ofNat_of_lt hn', Int64.toInt_ofNat_of_lt hm'] at hint
  omega

/-! ## Machine integers -/

theorem uint32_toNat (n : ℕ) : (uint32 (Int64.ofNat n)).toNat = n % 2 ^ 32 := by
  rw [uint32, Int64.toUInt64_ofNat', UInt64.toNat_toUInt32, UInt64.toNat_ofNat']
  exact Nat.mod_mod_of_dvd n (by decide)

theorem uint32_eq_iff (n : ℕ) : (uint32 (Int64.ofNat n)).toNat = n ↔ n < 2 ^ 32 := by
  rw [uint32_toNat, Nat.mod_eq_iff_lt (by decide)]

/-- the product of two ints is right if it fits, and only then -/
theorem mul_eq_iff {n k : ℕ} (hn : n < 2 ^ 63) (hk : k < 2 ^ 63) :
    (Int64.ofNat n * Int64.ofNat k).toInt = (n * k : ℕ) ↔ n * k < 2 ^ 63 := by
  refine ⟨?_, ?_⟩
  · intro h
    have hlt := Int64.toInt_lt (Int64.ofNat n * Int64.ofNat k)
    rw [h] at hlt
    exact_mod_cast hlt
  · intro h
    rw [Int64.toInt_mul, Int64.toInt_ofNat_of_lt hn, Int64.toInt_ofNat_of_lt hk, ← Nat.cast_mul]
    exact Int.bmod_eq_of_le (by omega) (by omega)

end Concordia.Lib.Strconv
