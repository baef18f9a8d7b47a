/-
The finite values of Go's float64: reading a number (`strconv.ParseFloat`, rounding to nearest, ties to even) and
writing one as `encoding/json` does (the shortest decimal that reads back as the same value).

- `ofAbs_abs`: a value is what its own exact magnitude rounds to.
- `shortest_reads`: the decimal chosen to write a value reads back as that value.
- `formatFloat_numText`: different values, −0 and 0 among them, are written differently.
- `ofRat_decimal`: read back from its exact decimal, a value keeps all but the sign of zero.
- `ofRat_error`: reading is off by at most one part in 2 ^ 53; `ofRat_natCast`: and not at all for naturals below 2 ^ 53.
-/
import Mathlib.Tactic
import Mathlib.Data.Int.Log
import Concordia.Lib.Json
import Concordia.Lib.Decimal

namespace Concordia.Lib

/-- a finite value ± mant · 2 ^ exp, with its one mantissa and exponent -/
structure Float64 where
  neg : Bool
  mant : ℕ
  exp : ℤ
  finite : mant < 2 ^ 53 ∧ -1074 ≤ exp ∧ exp ≤ 971
  normal : exp = -1074 ∨ 2 ^ 52 ≤ mant
deriving DecidableEq

namespace Float64

def abs (f : Float64) : ℚ := f.mant * 2 ^ f.exp

/-! ## Reading -/

/-- the nearest natural number, the even one of two -/
def roundEven (q : ℚ) : ℕ :=
  if q - ⌊q⌋₊ < 1 / 2 then ⌊q⌋₊
  else if 1 / 2 < q - ⌊q⌋₊ then ⌊q⌋₊ + 1
  else if ⌊q⌋₊ % 2 = 0 then ⌊q⌋₊ else ⌊q⌋₊ + 1

/-- the exponent of the values around `q` -/
def scale (q : ℚ) : ℤ := max (-1074) (Int.log 2 q - 52)

def pack (neg : Bool) (mant : ℕ) (exp : ℤ) : Option Float64 :=
  if h : (mant < 2 ^ 53 ∧ -1074 ≤ exp ∧ exp ≤ 971) ∧ (exp = -1074 ∨ 2 ^ 52 ≤ mant) then some ⟨neg, mant, exp, h.1, h.2⟩
  else none

/-- the value nearest to a magnitude; none when it is out of range -/
def ofAbs (neg : Bool) (q : ℚ) : Option Float64 :=
  if q ≤ 0 then pack neg 0 (-1074)
  else
    let m := roundEven (q / 2 ^ scale q)
    if m = 2 ^ 53 then pack neg (2 ^ 52) (scale q + 1) else pack neg m (scale q)

/-- the value nearest to a number -/
def ofRat (q : ℚ) : Option Float64 := ofAbs (decide (q < 0)) |q|

/-! ## Writing -/

/-- the closest multiple of `10 ^ k` that reads as `f`, if one does -/
def digitsAt (f : Float64) (k : ℤ) : Option ℕ :=
  let q := f.abs / 10 ^ k
  let lo := ⌊q⌋₊
  let reads := fun d : ℕ => ofAbs f.neg (d * 10 ^ k) = some f
  if reads lo then if reads (lo + 1) ∧ (1 / 2 < q - lo ∨ q - lo = 1 / 2 ∧ lo % 2 = 1) then some (lo + 1) else some lo
  else if reads (lo + 1) then some (lo + 1) else none

/-- all digits -/
def exactDigits (f : Float64) : ℕ × ℤ :=
  if 0 ≤ f.exp then (f.mant * 2 ^ f.exp.toNat, 0) else (f.mant * 5 ^ (-f.exp).toNat, f.exp)

/-- with as few digits as possible, from `10 ^ k` downwards -/
def search (f : Float64) : ℕ → ℤ → ℕ × ℤ
  | 0, _ => f.exactDigits
  | fuel + 1, k => match f.digitsAt k with
    | some d => (d, k)
    | none => search f fuel (k - 1)

/-- the digits and the exponent of the decimal for `f`; 17 digits are always enough -/
def shortest (f : Float64) : ℕ × ℤ := if f.mant = 0 then (0, 0) else f.search 20 (Int.log 10 f.abs + 1)

/-- the magnitude in the notation of `encoding/json`; the lower bound is the float64 constant 1e-6 -/
def formatAbs (f : Float64) : List Char :=
  let d := f.shortest.1
  let k := f.shortest.2
  let n := (Nat.digits 10 d).length
  if f.mant ≠ 0 ∧ (f.abs < 4722366482869645 / 2 ^ 72 ∨ 10 ^ 21 ≤ f.abs) then Decimal.scientific d (n - 1) (k + (n - 1 : ℕ))
  else if 0 ≤ k then Decimal.fixed (d * 10 ^ k.toNat) 0
  else Decimal.fixed d (-k).toNat

def formatFloat (f : Float64) : List Char := if f.neg then '-' :: f.formatAbs else f.formatAbs

/-- the number that was written, as an exact decimal: −0 is 0 there -/
def decimal (f : Float64) : ℚ := (if f.neg then -1 else 1) * (f.shortest.1 * 10 ^ f.shortest.2)

/-! ## A value is read from its own magnitude -/

theorem roundEven_natCast (m : ℕ) : roundEven m = m := by
  simp [roundEven]

theorem pack_self (f : Float64) : pack f.neg f.mant f.exp = some f := by
  unfold pack
  rw [dif_pos ⟨f.finite, f.normal⟩]

theorem pack_neg {neg : Bool} {m : ℕ} {e : ℤ} {f : Float64} (h : pack neg m e = some f) :
    f.neg = neg ∧ f.mant = m ∧ f.exp = e := by
  unfold pack at h
  split_ifs at h
  rw [← Option.some.inj h]
  exact ⟨rfl, rfl, rfl⟩

theorem abs_pos {f : Float64} (h : f.mant ≠ 0) : 0 < f.abs := by
  unfold abs
  have : 0 < f.mant := Nat.pos_of_ne_zero h
  positivity

/-- the scale of a value's magnitude is its own exponent -/
theorem scale_abs {f : Float64} (h : f.mant ≠ 0) : scale f.abs = f.exp := by
  have hpos : 0 < f.abs := abs_pos h
  have hlt : Int.log 2 f.abs < f.exp + 53 := by
    rw [← Int.lt_zpow_iff_log_lt (by norm_num) hpos]
    push_cast
    rw [zpow_add₀ (by norm_num), mul_comm]
    unfold abs
    have hm : (f.mant : ℚ) < 2 ^ 53 := by exact_mod_cast f.finite.1
    exact mul_lt_mul_of_pos_right (by exact_mod_cast hm) (by positivity)
  unfold scale
  have hexp : -1074 ≤ f.exp := f.finite.2.1
  rcases f.normal with hn | hn
  · -- subnormal or of the least exponent: the bound decides
    omega
  · have hle : f.exp + 52 ≤ Int.log 2 f.abs := by
      rw [← Int.zpow_le_iff_le_log (by norm_num) hpos]
      push_cast
      rw [zpow_add₀ (by norm_num), mul_comm]
      unfold abs
      have hm : (2 : ℚ) ^ 52 ≤ f.mant := by exact_mod_cast hn
      exact mul_le_mul_of_nonneg_right (by exact_mod_cast hm) (by positivity)
    omega

/-- a value is what its own exact magnitude rounds to -/
theorem ofAbs_abs (f : Float64) : ofAbs f.neg f.abs = some f := by
  unfold ofAbs
  by_cases h : f.mant = 0
  · have hzero : f.abs = 0 := by simp [abs, h]
    have hexp : f.exp = -1074 := by
      rcases f.normal with hn | hn
      · exact hn
      · rw [h] at hn; norm_num at hn
    rw [hzero, if_pos le_rfl, ← pack_self f, h, hexp]
  · have hpos : 0 < f.abs := abs_pos h
    have hm : roundEven (f.abs / 2 ^ scale f.abs) = f.mant := by
      rw [scale_abs h, abs, mul_div_assoc, div_self (by positivity), mul_one, roundEven_natCast]
    have hne : f.mant ≠ 2 ^ 53 := f.finite.1.ne
    rw [if_neg (not_le.2 hpos)]
    simp only [hm, if_neg hne]
    rw [scale_abs h, pack_self]

/-- what does not round to zero is positive -/
theorem pos_of_ofAbs {neg : Bool} {q : ℚ} {f : Float64} (h : ofAbs neg q = some f) (hf : f.mant ≠ 0) : 0 < q := by
  by_contra hq
  unfold ofAbs at h
  rw [if_pos (not_lt.1 hq)] at h
  exact hf (pack_neg h).2.1

/-! ## The decimal that is written reads back -/

theorem digitsAt_reads {f : Float64} {k : ℤ} {d : ℕ} (h : f.digitsAt k = some d) :
    ofAbs f.neg (d * 10 ^ k) = some f := by
  unfold digitsAt at h
  dsimp only at h
  split_ifs at h with h1 h2 h3
  · obtain rfl := Option.some.inj h
    exact_mod_cast h2.1
  · obtain rfl := Option.some.inj h
    exact h1
  · obtain rfl := Option.some.inj h
    exact_mod_cast h3

theorem exactDigits_value (f : Float64) : (f.exactDigits.1 * 10 ^ f.exactDigits.2 : ℚ) = f.abs := by
  unfold exactDigits abs
  split_ifs with h
  · obtain ⟨n, hn⟩ := Int.eq_ofNat_of_zero_le h
    rw [hn]
    simp
  · obtain ⟨n, hn⟩ := Int.eq_ofNat_of_zero_le (by omega : 0 ≤ -f.exp)
    have hexp : f.exp = -(n : ℤ) := by omega
    rw [hexp, neg_neg, Int.toNat_natCast]
    push_cast
    calc (f.mant * 5 ^ n * 10 ^ (-(n : ℤ)) : ℚ) = f.mant * 5 ^ n / (2 * 5) ^ n := by
          rw [zpow_neg, zpow_natCast, div_eq_mul_inv]
          norm_num
      _ = f.mant / 2 ^ n := by
          rw [mul_pow]
          field_simp
      _ = f.mant * 2 ^ (-(n : ℤ)) := by rw [zpow_neg, zpow_natCast, div_eq_mul_inv]

theorem search_reads (f : Float64) (fuel : ℕ) (k : ℤ) :
    ofAbs f.neg ((f.search fuel k).1 * 10 ^ (f.search fuel k).2) = some f := by
  induction fuel generalizing k with
  | zero =>
    rw [search, exactDigits_value]
    exact ofAbs_abs f
  | succ fuel ih =>
    rw [search]
    split
    · next d hd => exact digitsAt_reads hd
    · exact ih (k - 1)

/-- **The shortest decimal reads back.** -/
theorem shortest_reads (f : Float64) : ofAbs f.neg (f.shortest.1 * 10 ^ f.shortest.2) = some f := by
  unfold shortest
  split_ifs with h
  · have hzero : f.abs = 0 := by simp [abs, h]
    have hf := ofAbs_abs f
    rw [hzero] at hf
    simpa using hf
  · exact search_reads f _ _

theorem formatAbs_value (f : Float64) :
    Decimal.numberValue f.formatAbs = f.shortest.1 * 10 ^ f.shortest.2 := by
  unfold formatAbs
  dsimp only
  split_ifs with h hk
  · rw [Decimal.numberValue_scientific, zpow_add₀ (by norm_num), zpow_natCast]
    field_simp
  · obtain ⟨n, hn⟩ := Int.eq_ofNat_of_zero_le hk
    rw [Decimal.numberValue_fixed, hn]
    simp
  · obtain ⟨n, hn⟩ := Int.eq_ofNat_of_zero_le (by omega : 0 ≤ -f.shortest.2)
    have hk' : f.shortest.2 = -(n : ℤ) := by omega
    rw [Decimal.numberValue_fixed, hk', neg_neg, Int.toNat_natCast, zpow_neg, zpow_natCast]
    exact div_eq_mul_inv _ _

theorem formatAbs_numeral (f : Float64) : Decimal.Numeral f.formatAbs := by
  unfold formatAbs
  dsimp only
  split_ifs
  · exact ⟨_, _, .inr ⟨_, rfl⟩⟩
  · exact ⟨_, _, .inl rfl⟩
  · exact ⟨_, _, .inl rfl⟩

theorem formatAbs_no_sign (f : Float64) (cs : List Char) : f.formatAbs ≠ '-' :: cs := by
  obtain ⟨c, t, hc, hne⟩ := f.formatAbs_numeral.head
  intro h
  rw [hc] at h
  exact hne (List.cons.inj h).1

theorem formatFloat_injective {f g : Float64} (h : f.formatFloat = g.formatFloat) : f = g := by
  have hsplit : f.neg = g.neg ∧ f.formatAbs = g.formatAbs := by
    unfold formatFloat at h
    split_ifs at h with hf hg hg
    · exact ⟨hf.trans hg.symm, (List.cons.inj h).2⟩
    · exact absurd h.symm (formatAbs_no_sign g _)
    · exact absurd h (formatAbs_no_sign f _)
    · exact ⟨by simp_all, h⟩
  have hf := shortest_reads f
  have hg := shortest_reads g
  rw [← formatAbs_value, hsplit.1, hsplit.2, formatAbs_value, hg] at hf
  exact (Option.some.inj hf).symm

/-- **Different values are written differently**, in the characters of numbers. -/
theorem formatFloat_numText : Json.NumText formatFloat where
  injective _ _ := formatFloat_injective
  nonempty f := by
    obtain ⟨c, t, hc, -⟩ := f.formatAbs_numeral.head
    unfold formatFloat
    split_ifs
    · simp
    · simp [hc]
  chars f c hc := by
    have habs : ∀ c ∈ f.formatAbs, Json.numChar c = true := by
      intro c hc
      unfold Json.numChar
      rcases f.formatAbs_numeral.chars hc with h | h
      · simp [h]
      · have : c ∈ ['-', '+', '.', 'e', 'E'] := by
          simp only [List.mem_cons, List.not_mem_nil, or_false] at h ⊢
          tauto
        simp [this]
    unfold formatFloat at hc
    split_ifs at hc
    · rcases List.mem_cons.1 hc with rfl | hc
      · rfl
      · exact habs c hc
    · exact habs c hc

/-! ## Through an exact decimal -/

/-- the value without the sign of zero -/
def unsigned (f : Float64) : Float64 := if f.mant = 0 then { f with neg := false } else f

/-- −0 -/
def isNegZero (f : Float64) : Bool := f.neg && f.mant == 0

theorem unsigned_eq_self {f : Float64} : f.unsigned = f ↔ f.isNegZero = false := by
  rcases f with ⟨neg, mant, exp, hf, hn⟩
  cases neg with
  | false => simp [unsigned, isNegZero]
  | true => simp [unsigned, isNegZero]

theorem shortest_pos {f : Float64} (h : f.mant ≠ 0) : (0 : ℚ) < f.shortest.1 * 10 ^ f.shortest.2 :=
  pos_of_ofAbs (shortest_reads f) h

/-- **Through an exact decimal** a value keeps all but the sign of zero. -/
theorem ofRat_decimal (f : Float64) : ofRat f.decimal = some f.unsigned := by
  unfold unsigned
  split_ifs with h
  · have hdec : f.decimal = 0 := by simp [decimal, shortest, h]
    have hzero := ofAbs_abs { f with neg := false }
    have habs : abs { f with neg := false } = 0 := by simp [abs, h]
    rw [habs] at hzero
    simpa [ofRat, hdec] using hzero
  · have hpos := shortest_pos h
    have hreads := shortest_reads f
    unfold ofRat decimal
    cases hneg : f.neg with
    | false =>
      rw [hneg] at hreads
      rw [if_neg (by simp), one_mul, abs_of_pos hpos, decide_eq_false (by linarith)]
      exact hreads
    | true =>
      rw [hneg] at hreads
      rw [if_pos rfl, neg_one_mul, abs_neg, abs_of_pos hpos, decide_eq_true (by linarith)]
      exact hreads

/-! ## How far reading is off -/

/-- the exact value -/
def toRat (f : Float64) : ℚ := (if f.neg then -1 else 1) * f.abs

theorem roundEven_error {q : ℚ} (h : 0 ≤ q) : |(roundEven q : ℚ) - q| ≤ 1 / 2 := by
  have hle : (⌊q⌋₊ : ℚ) ≤ q := Nat.floor_le h
  have hlt : q < ⌊q⌋₊ + 1 := Nat.lt_floor_add_one q
  unfold roundEven
  rw [abs_le]
  split_ifs with h1 h2 h3
  · constructor <;> linarith
  · push_cast
    constructor <;> linarith
  · constructor <;> linarith
  · push_cast
    constructor <;> linarith

/-- the magnitude of what was packed -/
theorem pack_abs {neg : Bool} {m : ℕ} {e : ℤ} {f : Float64} (h : pack neg m e = some f) : f.abs = m * 2 ^ e := by
  obtain ⟨-, hm, he⟩ := pack_neg h
  rw [abs, hm, he]

/-- the last place of the values around a normal magnitude -/
theorem scale_normal {q : ℚ} (h : (2 : ℚ) ^ (-1022 : ℤ) ≤ q) : scale q = Int.log 2 q - 52 := by
  have hpos : 0 < q := lt_of_lt_of_le (by positivity) h
  have hlog : -1022 ≤ Int.log 2 q := (Int.zpow_le_iff_le_log (by norm_num) hpos).1 (by exact_mod_cast h)
  exact max_eq_right (by omega)

theorem zpow_scale_le {q : ℚ} (h : (2 : ℚ) ^ (-1022 : ℤ) ≤ q) : (2 : ℚ) ^ scale q ≤ q / 2 ^ 52 := by
  have hpos : 0 < q := lt_of_lt_of_le (by positivity) h
  have hlog : (2 : ℚ) ^ Int.log 2 q ≤ q := by exact_mod_cast Int.zpow_log_le_self (by norm_num) hpos
  rw [scale_normal h, zpow_sub₀ (by norm_num), le_div_iff₀ (by positivity)]
  calc (2 : ℚ) ^ Int.log 2 q / 2 ^ (52 : ℤ) * 2 ^ 52 = 2 ^ Int.log 2 q := by
        rw [show (2 : ℚ) ^ (52 : ℤ) = 2 ^ 52 by norm_cast]
        field_simp
    _ ≤ q := hlog

/-- **One rounding.** A magnitude that is not subnormal is read with an error of at most one part in 2 ^ 53. -/
theorem ofAbs_error {neg : Bool} {q : ℚ} {f : Float64} (hq : (2 : ℚ) ^ (-1022 : ℤ) ≤ q) (h : ofAbs neg q = some f) :
    |f.abs - q| ≤ q / 2 ^ 53 := by
  have hpos : 0 < q := lt_of_lt_of_le (by positivity) hq
  have hs : (0 : ℚ) < 2 ^ scale q := by positivity
  have hround : |(roundEven (q / 2 ^ scale q) : ℚ) - q / 2 ^ scale q| ≤ 1 / 2 := roundEven_error (by positivity)
  -- a carry out of the mantissa keeps the value
  have habs : f.abs = roundEven (q / 2 ^ scale q) * 2 ^ scale q := by
    unfold ofAbs at h
    rw [if_neg (not_le.2 hpos)] at h
    dsimp only at h
    split_ifs at h with hcarry
    · rw [pack_abs h, hcarry, zpow_add₀ (by norm_num)]
      push_cast
      ring
    · exact pack_abs h
  calc |f.abs - q| = |(roundEven (q / 2 ^ scale q) : ℚ) - q / 2 ^ scale q| * 2 ^ scale q := by
        rw [habs, ← abs_of_pos hs, ← abs_mul, abs_of_pos hs, sub_mul, div_mul_cancel₀ _ hs.ne']
    _ ≤ 1 / 2 * (q / 2 ^ 52) := mul_le_mul hround (zpow_scale_le hq) hs.le (by norm_num)
    _ = q / 2 ^ 53 := by ring

theorem ofRat_of_pos {q : ℚ} (h : 0 < q) : ofRat q = ofAbs false q := by
  rw [ofRat, abs_of_pos h, decide_eq_false (not_lt.2 h.le)]

theorem ofAbs_neg {neg : Bool} {q : ℚ} {f : Float64} (h : ofAbs neg q = some f) : f.neg = neg := by
  unfold ofAbs at h
  dsimp only at h
  split_ifs at h
  · exact (pack_neg h).1
  · exact (pack_neg h).1
  · exact (pack_neg h).1

theorem toRat_of_pos {q : ℚ} {f : Float64} (hq : 0 < q) (h : ofRat q = some f) : f.toRat = f.abs := by
  rw [ofRat_of_pos hq] at h
  rw [toRat, ofAbs_neg h, if_neg Bool.false_ne_true, one_mul]

theorem ofRat_error {q : ℚ} {f : Float64} (hq : (2 : ℚ) ^ (-1022 : ℤ) ≤ q) (h : ofRat q = some f) :
    |f.toRat - q| ≤ q / 2 ^ 53 := by
  have hpos : 0 < q := lt_of_lt_of_le (by positivity) hq
  rw [toRat_of_pos hpos h]
  rw [ofRat_of_pos hpos] at h
  exact ofAbs_error hq h

/-- in the normal range the mantissa before rounding has 53 binary digits -/
theorem mantissa_bounds {q : ℚ} (hq : (2 : ℚ) ^ (-1022 : ℤ) ≤ q) :
    (2 : ℚ) ^ 52 ≤ q / 2 ^ scale q ∧ q / 2 ^ scale q < 2 ^ 53 := by
  have hself : q < (2 : ℚ) ^ (Int.log 2 q + 1) := by exact_mod_cast Int.lt_zpow_succ_log_self (by norm_num) q
  refine ⟨?_, ?_⟩
  · rw [le_div_iff₀ (by positivity), mul_comm, ← le_div_iff₀ (by positivity)]
    exact zpow_scale_le hq
  · rw [div_lt_iff₀ (by positivity), scale_normal hq]
    calc q < (2 : ℚ) ^ (Int.log 2 q + 1) := hself
      _ = 2 ^ ((53 : ℤ) + (Int.log 2 q - 52)) := by congr 1; ring
      _ = 2 ^ 53 * 2 ^ (Int.log 2 q - 52) := by rw [zpow_add₀ (by norm_num)]; norm_cast

/-- rounding does not leave the naturals around -/
theorem roundEven_between {q : ℚ} {a b : ℕ} (ha : (a : ℚ) ≤ q) (hb : q ≤ b) : a ≤ roundEven q ∧ roundEven q ≤ b := by
  have hround := abs_le.1 (roundEven_error (q := q) ((Nat.cast_nonneg a).trans ha))
  refine ⟨?_, ?_⟩
  · by_contra hcon
    have hle : (roundEven q : ℚ) + 1 ≤ a := by exact_mod_cast not_le.1 hcon
    linarith
  · by_contra hcon
    have hge : (b : ℚ) + 1 ≤ roundEven q := by exact_mod_cast not_le.1 hcon
    linarith

/-- magnitudes below 2 ^ 1023 are in range -/
theorem ofAbs_finite (neg : Bool) {q : ℚ} (hq : (2 : ℚ) ^ (-1022 : ℤ) ≤ q) (hlt : q < (2 : ℚ) ^ (1023 : ℤ)) :
    ∃ f, ofAbs neg q = some f := by
  have hpos : 0 < q := lt_of_lt_of_le (by positivity) hq
  have hlog : -1022 ≤ Int.log 2 q := (Int.zpow_le_iff_le_log (by norm_num) hpos).1 (by exact_mod_cast hq)
  have hlog' : Int.log 2 q < 1023 := (Int.lt_zpow_iff_log_lt (by norm_num) hpos).1 (by exact_mod_cast hlt)
  have hscale := scale_normal hq
  obtain ⟨hlow, hhigh⟩ := mantissa_bounds hq
  obtain ⟨hmlow, hmhigh⟩ : 2 ^ 52 ≤ roundEven (q / 2 ^ scale q) ∧ roundEven (q / 2 ^ scale q) ≤ 2 ^ 53 :=
    roundEven_between (by exact_mod_cast hlow) (by exact_mod_cast hhigh.le)
  unfold ofAbs
  rw [if_neg (not_le.2 hpos)]
  dsimp only
  split_ifs with hcarry
  · exact ⟨_, dif_pos ⟨⟨by norm_num, by omega, by omega⟩, .inr le_rfl⟩⟩
  · exact ⟨_, dif_pos ⟨⟨by omega, by omega, by omega⟩, .inr hmlow⟩⟩

theorem ofRat_finite {q : ℚ} (hq : (2 : ℚ) ^ (-1022 : ℤ) ≤ q) (hlt : q < (2 : ℚ) ^ (1023 : ℤ)) : ∃ f, ofRat q = some f := by
  rw [ofRat_of_pos (lt_of_lt_of_le (by positivity) hq)]
  exact ofAbs_finite false hq hlt

theorem one_normal {n : ℕ} (h : 1 ≤ n) : (2 : ℚ) ^ (-1022 : ℤ) ≤ n := by
  calc (2 : ℚ) ^ (-1022 : ℤ) ≤ 2 ^ (0 : ℤ) := zpow_le_zpow_right₀ (by norm_num) (by norm_num)
    _ ≤ n := by rw [zpow_zero]; exact_mod_cast h

/-- **Small naturals are exact.** -/
theorem ofRat_natCast {n : ℕ} (h1 : 1 ≤ n) (h : n < 2 ^ 53) : ∃ f, ofRat n = some f ∧ f.toRat = n := by
  have hnormal := one_normal h1
  have hpos : (0 : ℚ) < n := by exact_mod_cast h1
  have hltq : (n : ℚ) < (2 : ℚ) ^ (53 : ℤ) := by exact_mod_cast h
  obtain ⟨f, hf⟩ := ofRat_finite hnormal (hltq.trans (zpow_lt_zpow_right₀ (by norm_num) (by norm_num)))
  refine ⟨f, hf, ?_⟩
  -- scaled to 53 digits it is still a natural
  have hlog : Int.log 2 (n : ℚ) < 53 := (Int.lt_zpow_iff_log_lt (by norm_num) hpos).1 (by exact_mod_cast hltq)
  obtain ⟨k, hk⟩ := Int.eq_ofNat_of_zero_le (by omega : 0 ≤ 52 - Int.log 2 (n : ℚ))
  have hscale : scale n = -(k : ℤ) := by
    rw [scale_normal hnormal]
    omega
  have hint : (n : ℚ) / 2 ^ scale (n : ℚ) = (n * 2 ^ k : ℕ) := by
    rw [hscale, zpow_neg, zpow_natCast, div_inv_eq_mul]
    push_cast
    rfl
  rw [toRat_of_pos hpos hf]
  rw [ofRat_of_pos hpos] at hf
  unfold ofAbs at hf
  rw [if_neg (not_le.2 hpos)] at hf
  dsimp only at hf
  rw [hint, roundEven_natCast] at hf
  have hvalue : ((n * 2 ^ k : ℕ) : ℚ) * 2 ^ scale (n : ℚ) = n := by
    rw [← hint, div_mul_cancel₀ _ (by positivity)]
  split_ifs at hf with hcarry
  · rw [pack_abs hf, zpow_add₀ (by norm_num)]
    calc ((2 ^ 52 : ℕ) : ℚ) * (2 ^ scale (n : ℚ) * 2 ^ (1 : ℤ)) = ((2 ^ 53 : ℕ) : ℚ) * 2 ^ scale (n : ℚ) := by
          push_cast
          ring
      _ = n := by rw [← hcarry, hvalue]
  · rw [pack_abs hf, hvalue]

end Float64

end Concordia.Lib
