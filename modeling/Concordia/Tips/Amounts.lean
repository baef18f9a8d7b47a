/-
The amount of a tip, from what is typed into `SendTipModal` (`apps/web-app/app/components/SendTipModal.tsx`) to what the
tips page shows (`formatAmount` in `apps/web-app/app/app/tips/page.tsx`).

The modal computes with binary floating point: `Math.round(parseFloat(amount) * 100)` on the way in, `cents / 100` on the
way out. The amount field has the step 0.01, so the form is submitted only with a number of cents, in any decimal notation.

- `parseFloat`, `Number.times100`, `Number.round`, `Number.over100`, `Number.toFixed2`: the arithmetic.
- `cents_exact`, `toFixed2_exact`: up to 2 ^ 50 cents no rounding is seen, on the way in and on the way out.
- `typed_amount_kept`: whatever amount is typed, a tip that is stored has exactly that amount, and it is what the modal
  announces, what the tips page shows and what can be typed again.
-/
import Concordia.Lib.Float64
import Concordia.Lib.Headers
import Concordia.Tips.Service

namespace Concordia.Tips

open Concordia.Lib
open Concordia.Servers (Uuid)

/-! ## Numbers of JavaScript -/

inductive Number where
  | nan
  | infinity (neg : Bool)
  | finite (f : Float64)

namespace Number

/-- the number nearest to an exact result -/
def ofRat (q : ℚ) : Number :=
  match Float64.ofRat q with
  | some f => .finite f
  | none => .infinity (decide (q < 0))

/-- `x * 100` -/
def times100 : Number → Number
  | .finite f => ofRat (f.toRat * 100)
  | x => x

/-- `x / 100` -/
def over100 : Number → Number
  | .finite f => ofRat (f.toRat / 100)
  | x => x

/-- `Math.round`: the nearest integer, the greater one of two -/
def round : Number → Number
  | .finite f => ofRat ⌊f.toRat + 1 / 2⌋
  | x => x

/-- `x <= 0`, or `x` is not a number -/
def notPositive : Number → Bool
  | .nan => true
  | .infinity neg => neg
  | .finite f => f.toRat ≤ 0

/-- `x.toFixed(2)`: the closest number of hundredths, the greater one of two -/
def toFixed2 : Number → String
  | .nan => "NaN"
  | .infinity neg => if neg then "-Infinity" else "Infinity"
  | .finite f =>
    if 10 ^ 21 ≤ f.abs then String.ofList f.formatFloat
    else (if f.toRat < 0 then "-" else "") ++ String.ofList (Decimal.fixed ⌊f.abs * 100 + 1 / 2⌋₊ 2)

end Number

/-! ## Reading an amount -/

/-- `StrWhiteSpaceChar` -/
def isStrWhiteSpace (c : Char) : Bool :=
  let n := c.toNat
  (0x9 ≤ n ∧ n ≤ 0xD) ∨ n = 0x20 ∨ n = 0xA0 ∨ n = 0x1680 ∨ (0x2000 ≤ n ∧ n ≤ 0x200A) ∨ n = 0x2028 ∨ n = 0x2029 ∨
    n = 0x202F ∨ n = 0x205F ∨ n = 0x3000 ∨ n = 0xFEFF

/-- `s.trim()` -/
def jsTrim (s : String) : String := String.ofList (trim isStrWhiteSpace s.toList)

/-- a sign, if there is one, and the rest -/
def splitSign : List Char → Bool × List Char
  | '-' :: cs => (true, cs)
  | '+' :: cs => (false, cs)
  | cs => (false, cs)

/-- the exponent at the head of the text: zero unless it is complete -/
def exponentPart : List Char → ℤ
  | c :: cs =>
    let (neg, rest) := splitSign cs
    let digits := rest.takeWhile Char.isDigit
    if (c = 'e' ∨ c = 'E') ∧ digits ≠ [] then (if neg then -1 else 1) * (Decimal.natOf digits : ℤ) else 0
  | [] => 0

/-- the digits after the point at the head of the text, and what follows them -/
def fractionPart : List Char → List Char × List Char
  | '.' :: cs => (cs.takeWhile Char.isDigit, cs.dropWhile Char.isDigit)
  | cs => ([], cs)

/-- the number that the longest `StrDecimalLiteral` at the head of the text denotes, if there is one; "Infinity" apart -/
def decimalOf (text : List Char) : Option ℚ :=
  let (neg, cs) := splitSign (text.dropWhile isStrWhiteSpace)
  let whole := cs.takeWhile Char.isDigit
  let (fraction, rest) := fractionPart (cs.dropWhile Char.isDigit)
  if whole = [] ∧ fraction = [] then none
  else some ((if neg then -1 else 1) * (Decimal.natOf (whole ++ fraction) / 10 ^ fraction.length) * 10 ^ exponentPart rest)

/-- `parseFloat` -/
def parseFloat (text : String) : Number :=
  let (neg, cs) := splitSign (text.toList.dropWhile isStrWhiteSpace)
  if "Infinity".toList.isPrefixOf cs then .infinity neg
  else
    match decimalOf text.toList with
    | some q => .ofRat q
    | none => .nan

example : decimalOf " 12.50 USD".toList = some (25 / 2) := by decide +kernel
example : decimalOf "1.e1".toList = some 10 := by decide +kernel

/-! ## The modal and the page -/

/-- the fields of the form -/
structure TipForm where
  toId : String
  amount : String
  currency : String
  message : String

/-- the body of the request; in JSON a number that is not finite is null -/
structure TipBody where
  recipientId : String
  amountCents : Option ℤ
  currency : String
  message : String

/-- `Math.round(parseFloat(amount) * 100)` -/
def centsOf (amount : String) : Number := (parseFloat amount).times100.round

def jsonCents : Number → Option ℤ
  | .finite f => some ⌊f.toRat⌋
  | _ => none

/-- `handleSubmit`, up to the request -/
def handleSubmit (currentUserId : Option String) (form : TipForm) : Except String TipBody :=
  let cents := centsOf form.amount
  let toId := jsTrim form.toId
  if toId = "" ∨ cents.notPositive then .error "Please enter a valid recipient and amount."
  else if currentUserId.getD "" ≠ "" ∧ toId = currentUserId.getD "" then .error "Cannot tip yourself"
  else .ok ⟨toId, jsonCents cents, form.currency, form.message⟩

/-- `POST /tips`: a body whose amount is no integer is refused before `send_tip` runs -/
def postTip (env : Env) (tips : List Tip) (authorization : Option String) (id : Uuid) (now : ℕ) (body : TipBody) :
    Answer × List Tip :=
  match body.amountCents with
  | none => (.error 422 "Unprocessable Entity", tips)
  | some cents => sendTip env tips ⟨authorization, ⟨body.recipientId, cents, body.currency, body.message⟩, id, now⟩

/-- what the modal announces once the tip is sent -/
def announcement (form : TipForm) : String :=
  "Tip of " ++ form.currency ++ " " ++ (centsOf form.amount).over100.toFixed2 ++ " sent!"

/-- `formatAmount` -/
def formatAmount (cents : ℤ) (currency : String) : String :=
  currency ++ " " ++ (Number.ofRat cents).over100.toFixed2

/-- `n` cents with two decimals -/
def dollars (n : ℕ) : String := String.ofList (Decimal.fixed n 2)

/-! ## No rounding is seen -/

namespace Number

theorem ofRat_finite {q : ℚ} (hq : (2 : ℚ) ^ (-1022 : ℤ) ≤ q) (hlt : q < 2 ^ 60) :
    ∃ f, ofRat q = .finite f ∧ |f.toRat - q| ≤ q / 2 ^ 53 := by
  have hrange : q < (2 : ℚ) ^ (1023 : ℤ) := by
    calc q < 2 ^ 60 := hlt
      _ = (2 : ℚ) ^ (60 : ℤ) := by norm_cast
      _ ≤ 2 ^ (1023 : ℤ) := zpow_le_zpow_right₀ (by norm_num) (by norm_num)
  obtain ⟨f, hf⟩ := Float64.ofRat_finite hq hrange
  exact ⟨f, by rw [ofRat, hf], Float64.ofRat_error hq hf⟩

/-- one thousandth is not subnormal -/
theorem normal_of_le {q : ℚ} (h : 1 / 1000 ≤ q) : (2 : ℚ) ^ (-1022 : ℤ) ≤ q := by
  calc (2 : ℚ) ^ (-1022 : ℤ) ≤ 2 ^ (-10 : ℤ) := zpow_le_zpow_right₀ (by norm_num) (by norm_num)
    _ ≤ 1 / 1000 := by norm_num
    _ ≤ q := h

/-- **On the way in.** A number of cents that is typed comes out of the multiplication and the rounding as it is. -/
theorem cents_exact {n : ℕ} (h1 : 1 ≤ n) (h : n ≤ 2 ^ 50) :
    ∃ f, (ofRat (n / 100)).times100.round = .finite f ∧ f.toRat = n := by
  have hn1 : (1 : ℚ) ≤ n := by exact_mod_cast h1
  have hn : (n : ℚ) ≤ 2 ^ 50 := by exact_mod_cast h
  obtain ⟨a, ha, herror⟩ := ofRat_finite (q := (n : ℚ) / 100) (normal_of_le (by linarith)) (by linarith)
  have herror := abs_le.1 herror
  obtain ⟨g, hg, herror'⟩ := ofRat_finite (q := a.toRat * 100) (normal_of_le (by linarith)) (by linarith)
  have herror' := abs_le.1 herror'
  have hfloor : ⌊g.toRat + 1 / 2⌋ = (n : ℤ) := by
    rw [Int.floor_eq_iff]
    push_cast
    constructor <;> linarith
  obtain ⟨f, hf, hexact⟩ := Float64.ofRat_natCast h1 (by omega : n < 2 ^ 53)
  refine ⟨f, ?_, hexact⟩
  rw [ha, times100, hg, round, hfloor, Int.cast_natCast, ofRat, hf]

/-- **On the way out.** -/
theorem toFixed2_exact {f : Float64} {n : ℕ} (h1 : 1 ≤ n) (h : n ≤ 2 ^ 50) (hf : f.toRat = n) :
    (over100 (.finite f)).toFixed2 = dollars n := by
  have hn1 : (1 : ℚ) ≤ n := by exact_mod_cast h1
  have hn : (n : ℚ) ≤ 2 ^ 50 := by exact_mod_cast h
  have hnormal := normal_of_le (q := (n : ℚ) / 100) (by linarith)
  obtain ⟨x, hx, herror⟩ := ofRat_finite hnormal (by linarith)
  have herror := abs_le.1 herror
  have hx' : Float64.ofRat ((n : ℚ) / 100) = some x := by
    unfold ofRat at hx
    split at hx
    · next y hy =>
      cases hx
      exact hy
    · cases hx
  have habs : x.toRat = x.abs := Float64.toRat_of_pos (by linarith) hx'
  have hfloor : ⌊x.abs * 100 + 1 / 2⌋₊ = n := by
    rw [← habs, Nat.floor_eq_iff (by linarith)]
    constructor <;> linarith
  rw [over100, hf, hx, toFixed2, if_neg (by rw [← habs]; linarith), if_neg (by linarith), hfloor]
  rfl

/-! ## Huge amounts stay huge -/

/-- the number is not below `b` -/
def AtLeast (b : ℚ) : Number → Prop
  | .nan => False
  | .infinity neg => neg = false
  | .finite f => b ≤ f.toRat

theorem ofRat_atLeast {q : ℚ} (hq : 1 / 1000 ≤ q) : (ofRat q).AtLeast (q / 2) := by
  unfold ofRat
  split
  · next f hf =>
    have herror := abs_le.1 (Float64.ofRat_error (normal_of_le hq) hf)
    change q / 2 ≤ f.toRat
    linarith
  · exact decide_eq_false (by linarith)

theorem AtLeast.mono {b c : ℚ} {x : Number} (h : x.AtLeast b) (hle : c ≤ b) : x.AtLeast c := by
  cases x with
  | nan => exact h
  | infinity neg => exact h
  | finite f => exact hle.trans h

theorem AtLeast.times100 {b : ℚ} {x : Number} (h : x.AtLeast b) (hb : 1 ≤ b) : x.times100.AtLeast b := by
  cases x with
  | nan => exact h
  | infinity neg => exact h
  | finite f =>
    have hle : b ≤ f.toRat := h
    exact (ofRat_atLeast (q := f.toRat * 100) (by linarith)).mono (by linarith)

theorem AtLeast.round {b : ℚ} {x : Number} (h : x.AtLeast b) (hb : 2 ≤ b) : x.round.AtLeast (b / 4) := by
  cases x with
  | nan => exact h
  | infinity neg => exact h
  | finite f =>
    have hle : b ≤ f.toRat := h
    have hfloor : f.toRat - 1 / 2 < ⌊f.toRat + 1 / 2⌋ := by linarith [Int.lt_floor_add_one (f.toRat + 1 / 2)]
    exact (ofRat_atLeast (q := ⌊f.toRat + 1 / 2⌋) (by linarith)).mono (by linarith)

end Number

/-! ## From the field to the page -/

theorem parseFloat_of_decimal {amount : String} {q : ℚ} (h : decimalOf amount.toList = some q) :
    parseFloat amount = .ofRat q := by
  unfold parseFloat
  dsimp only
  split_ifs with hinf
  · -- a text that begins with "Infinity" denotes no decimal
    exfalso
    obtain ⟨rest, hrest⟩ := List.isPrefixOf_iff_prefix.1 hinf
    unfold decimalOf at h
    simp only [← hrest] at h
    simp [fractionPart] at h
  · rw [h]

theorem takeWhile_digits {ds : List Char} (rest : List Char) (hds : ∀ c ∈ ds, c.isDigit = true)
    (hrest : ∀ c ∈ rest.head?, c.isDigit = false) :
    (ds ++ rest).takeWhile Char.isDigit = ds ∧ (ds ++ rest).dropWhile Char.isDigit = rest := by
  rw [List.takeWhile_append_of_pos hds, List.dropWhile_append_of_pos hds]
  cases rest with
  | nil => simp
  | cons c cs =>
    have hc : c.isDigit = false := hrest c rfl
    simp [hc]

/-- a numeral that begins with a digit has no blank and no sign in front -/
theorem splitSign_digit {c : Char} (hc : c.isDigit = true) (cs : List Char) :
    splitSign ((c :: cs).dropWhile isStrWhiteSpace) = (false, c :: cs) := by
  have hrange : 48 ≤ c.toNat ∧ c.toNat ≤ 57 := by
    simp only [Char.isDigit, Bool.and_eq_true, decide_eq_true_eq, ge_iff_le] at hc
    exact ⟨UInt32.le_iff_toNat_le.1 hc.1, UInt32.le_iff_toNat_le.1 hc.2⟩
  have hblank : isStrWhiteSpace c = false := by
    unfold isStrWhiteSpace
    dsimp only
    rw [decide_eq_false_iff_not]
    omega
  rw [List.dropWhile_cons_of_neg (by simp [hblank])]
  unfold splitSign
  split
  · next heq => cases heq; exact absurd hc (by decide)
  · next heq => cases heq; exact absurd hc (by decide)
  · rfl

/-- what is shown reads as the amount -/
theorem decimalOf_dollars (n : ℕ) : decimalOf (dollars n).toList = some (n / 100 : ℚ) := by
  obtain ⟨c, cs, hcs⟩ := List.exists_cons_of_ne_nil (Decimal.intText_ne_nil (n / 100))
  have hwhole : ∀ c ∈ Decimal.intText (n / 100), c.isDigit = true := fun c hc => Decimal.intText_isDigit hc
  have hcents : ∀ c ∈ Decimal.padded 2 (n % 100), c.isDigit = true := fun c hc => Decimal.padded_isDigit hc
  have htext : (dollars n).toList = Decimal.intText (n / 100) ++ '.' :: Decimal.padded 2 (n % 100) := by
    rw [dollars, String.toList_ofList]
    rfl
  have hsign : splitSign ((dollars n).toList.dropWhile isStrWhiteSpace) =
      (false, Decimal.intText (n / 100) ++ '.' :: Decimal.padded 2 (n % 100)) := by
    rw [htext, hcs]
    exact splitSign_digit (hwhole c (by simp [hcs])) _
  obtain ⟨htake, hdrop⟩ := takeWhile_digits ('.' :: Decimal.padded 2 (n % 100)) hwhole (by simp)
  obtain ⟨htake', hdrop'⟩ := takeWhile_digits [] hcents (by simp)
  rw [List.append_nil] at htake' hdrop'
  have hlen : (Decimal.padded 2 (n % 100)).length = 2 := Decimal.padded_length (Nat.mod_lt _ (by norm_num))
  have hdigits : Decimal.natOf (Decimal.intText (n / 100) ++ Decimal.padded 2 (n % 100)) = n := by
    rw [Decimal.natOf_append, Decimal.natOf_intText, Decimal.natOf_padded, hlen]
    omega
  unfold decimalOf
  rw [hsign]
  dsimp only
  rw [htake, hdrop, if_neg fun h => Decimal.intText_ne_nil _ h.1, fractionPart, htake', hdrop', hdigits, hlen]
  norm_num [exponentPart]

/-- a stored tip has the amount that was asked for, and it fits its column -/
theorem sendTip_created {env : Env} {tips : List Tip} {r : SendRequest} {tip : TipOut}
    (h : (sendTip env tips r).1 = .created tip) :
    tip.amountCents = r.body.amountCents ∧ r.body.amountCents < 2 ^ 31 ∧
      ∃ row, toOut row = tip ∧ (sendTip env tips r).2 = tips ++ [row] := by
  unfold sendTip at h ⊢
  cases hu : env.getUserId r.authorization with
  | none => rw [hu] at h; cases h
  | some senderId =>
    rw [hu] at h
    dsimp only at h ⊢
    split_ifs at h ⊢ with hself hpos
    cases hrow : insert env tips ⟨Uuid.toString r.id, senderId, r.body.recipientId, r.body.amountCents, r.body.currency,
        r.body.message, r.now⟩ with
    | none => rw [hrow] at h; cases h
    | some row =>
      rw [hrow] at h
      cases h
      obtain ⟨-, -, -, -, -, -, hamount, -⟩ := insert_eq_some hrow
      obtain ⟨hsame, -, hlt⟩ := integer_eq_some.1 hamount
      exact ⟨hsame, hlt, row, rfl, rfl⟩

/-- the cents of a typed amount: exactly those, or too many for the table -/
theorem centsOf_typed {amount : String} {n : ℕ} (h1 : 1 ≤ n) (htyped : decimalOf amount.toList = some (n / 100 : ℚ)) :
    (n ≤ 2 ^ 50 ∧ ∃ f, centsOf amount = .finite f ∧ f.toRat = n) ∨
      (2 ^ 50 < n ∧ (centsOf amount).AtLeast (2 ^ 40)) := by
  rw [centsOf, parseFloat_of_decimal htyped]
  rcases le_or_gt n (2 ^ 50) with h | h
  · exact .inl ⟨h, Number.cents_exact h1 h⟩
  · have hn : (2 : ℚ) ^ 50 < n := by exact_mod_cast h
    have hread := Number.ofRat_atLeast (q := (n : ℚ) / 100) (by linarith)
    exact .inr ⟨h, ((hread.times100 (by linarith)).round (by linarith)).mono (by linarith)⟩

theorem centsOf_positive {amount : String} {n : ℕ} (h1 : 1 ≤ n)
    (htyped : decimalOf amount.toList = some (n / 100 : ℚ)) : (centsOf amount).notPositive = false := by
  have hn1 : (1 : ℚ) ≤ n := by exact_mod_cast h1
  rcases centsOf_typed h1 htyped with ⟨-, f, hf, hexact⟩ | ⟨-, hlarge⟩
  · rw [hf, Number.notPositive, hexact]
    exact decide_eq_false (by linarith)
  · cases hcents : centsOf amount with
    | nan => rw [hcents] at hlarge; exact hlarge.elim
    | infinity neg => rw [hcents] at hlarge; exact hlarge
    | finite f =>
      rw [hcents] at hlarge
      have hlarge : (2 : ℚ) ^ 40 ≤ f.toRat := hlarge
      exact decide_eq_false (by linarith)

/-- a stored amount was one of the exact ones -/
theorem stored_exact {env : Env} {tips : List Tip} {authorization : Option String} {id : Uuid} {now : ℕ} {body : TipBody}
    {tip : TipOut} (h : (postTip env tips authorization id now body).1 = .created tip) :
    body.amountCents = some tip.amountCents ∧ tip.amountCents < 2 ^ 31 ∧
      ∃ row, toOut row = tip ∧ (postTip env tips authorization id now body).2 = tips ++ [row] := by
  unfold postTip at h ⊢
  cases hamount : body.amountCents with
  | none => rw [hamount] at h; cases h
  | some cents =>
    rw [hamount] at h
    obtain ⟨hsame, hlt, hrow⟩ := sendTip_created h
    exact ⟨congrArg some hsame.symm, hsame ▸ hlt, hrow⟩

/-- **A tip has the amount that was typed.** Whatever number of cents is typed into the modal, in whatever decimal
notation, the form is refused only for its recipient; the request asks for exactly that many cents up to 2 ^ 50; and a tip
that is stored, beside whatever tips there are, has exactly the amount typed, which the modal announces and the tips page
shows with two decimals, as it can be typed again. -/
theorem typed_amount_kept (env : Env) (tips : List Tip) (currentUserId : Option String) (form : TipForm) {n : ℕ}
    (h1 : 1 ≤ n) (htyped : decimalOf form.amount.toList = some (n / 100 : ℚ)) (authorization : Option String) (id : Uuid)
    (now : ℕ) :
    (handleSubmit currentUserId form = .error "Please enter a valid recipient and amount." ↔ jsTrim form.toId = "") ∧
    ∀ body, handleSubmit currentUserId form = .ok body →
      (n ≤ 2 ^ 50 → body.amountCents = some (n : ℤ)) ∧
      ∀ tip, (postTip env tips authorization id now body).1 = .created tip →
        tip.amountCents = n ∧ n < 2 ^ 31 ∧
        (∃ row, toOut row = tip ∧ (postTip env tips authorization id now body).2 = tips ++ [row]) ∧
        announcement form = "Tip of " ++ form.currency ++ " " ++ dollars n ++ " sent!" ∧
        formatAmount tip.amountCents tip.currency = tip.currency ++ " " ++ dollars n ∧
        decimalOf (dollars n).toList = some (n / 100 : ℚ) := by
  have hpositive := centsOf_positive h1 htyped
  refine ⟨?_, ?_⟩
  · by_cases hblank : jsTrim form.toId = ""
    · simp [handleSubmit, hblank]
    · refine ⟨fun h => ?_, fun h => absurd h hblank⟩
      unfold handleSubmit at h
      dsimp only at h
      rw [if_neg (by simp [hblank, hpositive])] at h
      split_ifs at h
      exact absurd (Except.error.inj h) (by decide)
  · intro body hbody
    have hcents : body.amountCents = jsonCents (centsOf form.amount) := by
      unfold handleSubmit at hbody
      dsimp only at hbody
      split_ifs at hbody
      cases hbody
      rfl
    have hexactly : n ≤ 2 ^ 50 → ∃ f, centsOf form.amount = .finite f ∧ f.toRat = n := by
      intro h
      rcases centsOf_typed h1 htyped with ⟨-, hf⟩ | ⟨hlt, -⟩
      · exact hf
      · omega
    have hasked : n ≤ 2 ^ 50 → body.amountCents = some (n : ℤ) := by
      intro h
      obtain ⟨f, hf, hexact⟩ := hexactly h
      rw [hcents, hf, jsonCents, hexact]
      exact congrArg some (Int.floor_natCast n)
    refine ⟨hasked, fun tip htip => ?_⟩
    obtain ⟨hstored, hlt, hrow⟩ := stored_exact htip
    have hsmall : n ≤ 2 ^ 50 := by
      -- a larger amount is still larger than the column
      rcases centsOf_typed h1 htyped with ⟨h, -⟩ | ⟨-, hlarge⟩
      · exact h
      · exfalso
        rw [hcents] at hstored
        cases hc : centsOf form.amount with
        | nan => rw [hc] at hstored; cases hstored
        | infinity neg => rw [hc] at hstored; cases hstored
        | finite f =>
          rw [hc] at hstored hlarge
          have hlarge : (2 : ℚ) ^ 40 ≤ f.toRat := hlarge
          have hfloor : (2 ^ 40 : ℤ) ≤ ⌊f.toRat⌋ := Int.le_floor.2 (by push_cast; exact hlarge)
          have hamount : ⌊f.toRat⌋ = tip.amountCents := Option.some.inj hstored
          omega
    have hamount : tip.amountCents = n := Option.some.inj (hstored.symm.trans (hasked hsmall))
    obtain ⟨f, hf, hexact⟩ := hexactly hsmall
    have hn31 : n < 2 ^ 31 := by
      rw [hamount] at hlt
      exact_mod_cast hlt
    obtain ⟨g, hg, hgexact⟩ := Float64.ofRat_natCast h1 (by omega : n < 2 ^ 53)
    refine ⟨hamount, hn31, hrow, ?_, ?_, decimalOf_dollars n⟩
    · rw [announcement, hf, Number.toFixed2_exact h1 hsmall hexact]
    · rw [formatAmount, hamount, Int.cast_natCast, Number.ofRat, hg, Number.toFixed2_exact h1 hsmall hgexact]

/-- alice's form -/
def bobsTip : TipForm := ⟨" bob", "12.5", "USD", "thanks"⟩

theorem bob_tipped : ∃ body tip, handleSubmit (some "alice") bobsTip = .ok body ∧
    (postTip byName [] (some "Bearer alice") 0 0 body).1 = .created tip ∧ tip.amountCents = 1250 ∧
    announcement bobsTip = "Tip of USD 12.50 sent!" ∧ formatAmount tip.amountCents tip.currency = "USD 12.50" := by
  have htyped : decimalOf bobsTip.amount.toList = some ((1250 : ℕ) / 100 : ℚ) := by decide +kernel
  have hkept := typed_amount_kept byName [] (some "alice") bobsTip (by norm_num) htyped (some "Bearer alice") 0 0
  have hbody : handleSubmit (some "alice") bobsTip = .ok ⟨"bob", jsonCents (centsOf "12.5"), "USD", "thanks"⟩ := by
    have hpositive := centsOf_positive (by norm_num) htyped
    unfold handleSubmit
    dsimp only
    rw [hpositive, if_neg (by decide), if_neg (by decide)]
    rfl
  obtain ⟨hasked, hstored⟩ := hkept.2 _ hbody
  have hcents : jsonCents (centsOf "12.5") = some 1250 := hasked (by norm_num)
  rw [hcents] at hbody hstored
  have hcreated : (postTip byName [] (some "Bearer alice") 0 0 ⟨"bob", some 1250, "USD", "thanks"⟩).1 =
      .created ⟨Uuid.toString 0, "alice", "bob", 1250, "USD", "thanks", 0⟩ := by decide +kernel
  obtain ⟨hamount, -, -, hannounced, hshown, -⟩ := hstored _ hcreated
  exact ⟨_, _, hbody, hcreated, hamount, hannounced, hshown⟩

end Concordia.Tips
