/-
Instants as text (RFC 3339): a date, `T`, a time with as many decimals as it needs, of three, six or nine, and the offset of
UTC, which is written `Z` or `+00:00`. A year of more than four digits, or before the year zero, has a sign.

An instant is counted in nanoseconds from 1970-01-01T00:00:00Z.

- `write`, `read`.
- `read_write`: an instant that is written in either way is read back.
-/
import Concordia.Lib.Calendar
import Concordia.Lib.Decimal

namespace Concordia.Lib.Rfc3339

open Decimal

/-! ## Writing -/

/-- how UTC is written -/
inductive Utc where
  | zulu
  | zero
deriving DecidableEq, Repr

def Utc.text : Utc → List Char
  | .zulu => ['Z']
  | .zero => ['+', '0', '0', ':', '0', '0']

def yearText (year : ℤ) : List Char :=
  if 0 ≤ year ∧ year ≤ 9999 then padded 4 year.toNat else (if year < 0 then '-' else '+') :: padded 4 year.natAbs

def dateText (d : Date) : List Char :=
  yearText d.year ++ '-' :: (padded 2 d.month.toNat ++ '-' :: padded 2 d.day.toNat)

/-- the second of a day -/
def timeText (second : ℕ) : List Char :=
  padded 2 (second / 3600) ++ ':' :: (padded 2 (second / 60 % 60) ++ ':' :: padded 2 (second % 60))

def fractionText (nanos : ℕ) : List Char :=
  if nanos = 0 then []
  else if nanos % 1000000 = 0 then '.' :: padded 3 (nanos / 1000000)
  else if nanos % 1000 = 0 then '.' :: padded 6 (nanos / 1000)
  else '.' :: padded 9 nanos

def write (utc : Utc) (t : ℤ) : List Char :=
  dateText (civil (t / 1000000000 / 86400)) ++ 'T' :: (timeText (t / 1000000000 % 86400).toNat ++
    (fractionText (t % 1000000000).toNat ++ utc.text))

/-! ## Reading -/

def expect (mark : Char) : List Char → Option (List Char)
  | [] => none
  | c :: cs => if c = mark then some cs else none

/-- a number of `k` digits -/
def readNat (k : ℕ) (cs : List Char) : Option (ℕ × List Char) :=
  if (cs.take k).length = k ∧ (cs.take k).all Char.isDigit then some (natOf (cs.take k), cs.drop k) else none

/-- a year that has a sign goes on to the last digit -/
def readYear : List Char → Option (ℤ × List Char)
  | [] => none
  | c :: cs =>
    if c = '+' then some (natOf (cs.takeWhile Char.isDigit), cs.dropWhile Char.isDigit)
    else if c = '-' then some (-natOf (cs.takeWhile Char.isDigit), cs.dropWhile Char.isDigit)
    else (readNat 4 (c :: cs)).map fun r => (r.1, r.2)

def readDate (cs : List Char) : Option (Date × List Char) := do
  let (year, cs) ← readYear cs
  let (month, cs) ← (expect '-' cs).bind (readNat 2)
  let (day, cs) ← (expect '-' cs).bind (readNat 2)
  let d : Date := ⟨year, month, day⟩
  if (1 ≤ d.month ∧ d.month ≤ 12) ∧ 1 ≤ d.day ∧ d.day ≤ Date.monthLength d.year d.month then some (d, cs) else none

def readTime (cs : List Char) : Option (ℕ × List Char) := do
  let (hour, cs) ← readNat 2 cs
  let (minute, cs) ← (expect ':' cs).bind (readNat 2)
  let (second, cs) ← (expect ':' cs).bind (readNat 2)
  if hour < 24 ∧ minute < 60 ∧ second < 60 then some (3600 * hour + 60 * minute + second, cs) else none

/-- the decimals of a second, in nanoseconds -/
def readFraction (cs : List Char) : Option (ℕ × List Char) :=
  match expect '.' cs with
  | none => some (0, cs)
  | some cs =>
    let ds := cs.takeWhile Char.isDigit
    if ds ≠ [] ∧ ds.length ≤ 9 then some (natOf ds * 10 ^ (9 - ds.length), cs.dropWhile Char.isDigit) else none

/-- the offset from UTC, in seconds -/
def readOffset (cs : List Char) : Option ℤ :=
  match cs with
  | [] => none
  | c :: cs =>
    if c = 'Z' then if cs = [] then some 0 else none
    else if c = '+' ∨ c = '-' then do
      let (hour, cs) ← readNat 2 cs
      let (minute, cs) ← (expect ':' cs).bind (readNat 2)
      if hour < 24 ∧ minute < 60 ∧ cs = [] then
        some (if c = '+' then 3600 * hour + 60 * minute else -(3600 * hour + 60 * minute))
      else none
    else none

def read (cs : List Char) : Option ℤ := do
  let (d, cs) ← readDate cs
  let (second, cs) ← (expect 'T' cs).bind readTime
  let (nanos, cs) ← readFraction cs
  let offset ← readOffset cs
  return (86400 * d.days + second - offset) * 1000000000 + nanos

example : read "2024-02-29T23:59:59.5+01:00".toList = some 1709247599500000000 := by decide

/-! ## Numbers -/

theorem readNat_padded {k r : ℕ} (h : r < 10 ^ k) (rest : List Char) : readNat k (padded k r ++ rest) = some (r, rest) := by
  have hlength := padded_length h
  have htake : (padded k r ++ rest).take k = padded k r := List.take_left' hlength
  have hdrop : (padded k r ++ rest).drop k = rest := List.drop_left' hlength
  have hdigits : (padded k r).all Char.isDigit = true := List.all_eq_true.2 fun c hc => padded_isDigit hc
  rw [readNat, htake, hdrop, if_pos ⟨hlength, hdigits⟩, natOf_padded]

theorem expect_self (mark : Char) (cs : List Char) : expect mark (mark :: cs) = some cs := by
  simp [expect]

/-- the digits before something else -/
theorem span_padded (k r : ℕ) {rest : List Char} (h : ∀ c ∈ rest.head?, c.isDigit = false) :
    (padded k r ++ rest).takeWhile Char.isDigit = padded k r ∧ (padded k r ++ rest).dropWhile Char.isDigit = rest := by
  have hdigits : ∀ c ∈ padded k r, c.isDigit = true := fun c hc => padded_isDigit hc
  cases rest with
  | nil => simpa using hdigits
  | cons c rest =>
    have hc := h c rfl
    refine ⟨?_, ?_⟩
    · rw [List.takeWhile_append_of_pos hdigits]
      simp [hc]
    · rw [List.dropWhile_append_of_pos hdigits]
      simp [hc]

/-! ## Dates -/

theorem readYear_digit {c : Char} {cs : List Char} (h : c.isDigit = true) :
    readYear (c :: cs) = (readNat 4 (c :: cs)).map fun r => ((r.1 : ℤ), r.2) := by
  rw [readYear, if_neg (isDigit_ne h (by decide)), if_neg (isDigit_ne h (by decide))]

theorem readYear_yearText (year : ℤ) (rest : List Char) (h : ∀ c ∈ rest.head?, c.isDigit = false) :
    readYear (yearText year ++ rest) = some (year, rest) := by
  have habs : (padded 4 year.natAbs ++ rest).takeWhile Char.isDigit = padded 4 year.natAbs ∧
      (padded 4 year.natAbs ++ rest).dropWhile Char.isDigit = rest := span_padded 4 year.natAbs h
  unfold yearText
  split_ifs with hfour hneg
  · have hlt : year.toNat < 10 ^ 4 := by omega
    have hread := readNat_padded hlt rest
    have hcast : (year.toNat : ℤ) = year := Int.toNat_of_nonneg hfour.1
    cases hpadded : padded 4 year.toNat with
    | nil =>
      have hlength := padded_length hlt
      rw [hpadded] at hlength
      cases hlength
    | cons c cs =>
      have hdigit : c.isDigit = true := padded_isDigit (hpadded ▸ List.mem_cons_self ..)
      rw [hpadded] at hread
      rw [List.cons_append, readYear_digit hdigit, ← List.cons_append, hread, Option.map_some, hcast]
  · have hcast : -(year.natAbs : ℤ) = year := by omega
    rw [List.cons_append, readYear, if_neg (by decide), if_pos rfl, habs.1, habs.2, natOf_padded, hcast]
  · have hcast : (year.natAbs : ℤ) = year := by omega
    rw [List.cons_append, readYear, if_pos rfl, habs.1, habs.2, natOf_padded, hcast]

theorem monthLength_le (year month : ℤ) : Date.monthLength year month ≤ 31 := by
  have hleap := leapDay_le year
  unfold Date.monthLength
  split_ifs <;> omega

theorem readDate_dateText {d : Date} (h : d.Valid) (rest : List Char) : readDate (dateText d ++ rest) = some (d, rest) := by
  obtain ⟨year, month, day⟩ := d
  obtain ⟨⟨hmonth0, hmonth⟩, hday0, hday⟩ := h
  dsimp only at hmonth0 hmonth hday0 hday
  have hlength := monthLength_le year month
  have hmonthCast : (month.toNat : ℤ) = month := by omega
  have hdayCast : (day.toNat : ℤ) = day := by omega
  have hyear := readYear_yearText year ('-' :: (padded 2 month.toNat ++ '-' :: (padded 2 day.toNat ++ rest)))
    (by simp [Char.isDigit])
  have hmonthText := readNat_padded (k := 2) (r := month.toNat) (by omega) ('-' :: (padded 2 day.toNat ++ rest))
  have hdayText := readNat_padded (k := 2) (r := day.toNat) (by omega) rest
  have htext : dateText ⟨year, month, day⟩ ++ rest =
      yearText year ++ '-' :: (padded 2 month.toNat ++ '-' :: (padded 2 day.toNat ++ rest)) := by
    simp [dateText]
  rw [htext]
  simp only [readDate, hyear, expect_self, hmonthText, hdayText, Option.bind_eq_bind, Option.bind_some, hmonthCast,
    hdayCast]
  rw [if_pos ⟨⟨hmonth0, hmonth⟩, hday0, hday⟩]

/-! ## Times -/

theorem readTime_timeText {second : ℕ} (h : second < 86400) (rest : List Char) :
    readTime (timeText second ++ rest) = some (second, rest) := by
  have hhour := readNat_padded (k := 2) (r := second / 3600) (by omega)
    (':' :: (padded 2 (second / 60 % 60) ++ ':' :: (padded 2 (second % 60) ++ rest)))
  have hminute := readNat_padded (k := 2) (r := second / 60 % 60) (by omega) (':' :: (padded 2 (second % 60) ++ rest))
  have hsecond := readNat_padded (k := 2) (r := second % 60) (by omega) rest
  have hsum : 3600 * (second / 3600) + 60 * (second / 60 % 60) + second % 60 = second := by omega
  have htext : timeText second ++ rest = padded 2 (second / 3600) ++
      ':' :: (padded 2 (second / 60 % 60) ++ ':' :: (padded 2 (second % 60) ++ rest)) := by
    simp [timeText]
  rw [htext]
  simp only [readTime, hhour, expect_self, hminute, hsecond, Option.bind_eq_bind, Option.bind_some]
  rw [if_pos (by omega), hsum]

/-- three, six or nine decimals -/
theorem readFraction_padded {k n : ℕ} (hk : 0 < k ∧ k ≤ 9) (hn : n < 10 ^ k) {rest : List Char}
    (h : ∀ c ∈ rest.head?, c.isDigit = false) :
    readFraction ('.' :: padded k n ++ rest) = some (n * 10 ^ (9 - k), rest) := by
  obtain ⟨htake, hdrop⟩ := span_padded k n h
  have hlength := padded_length hn
  have hne : padded k n ≠ [] := by
    intro hnil
    rw [hnil, List.length_nil] at hlength
    omega
  rw [List.cons_append]
  simp only [readFraction, expect_self, htake, hdrop]
  rw [if_pos ⟨hne, by omega⟩, natOf_padded, hlength]

theorem readFraction_fractionText {nanos : ℕ} (h : nanos < 1000000000) {rest : List Char}
    (hrest : ∀ c ∈ rest.head?, c.isDigit = false ∧ c ≠ '.') :
    readFraction (fractionText nanos ++ rest) = some (nanos, rest) := by
  have hdigit : ∀ c ∈ rest.head?, c.isDigit = false := fun c hc => (hrest c hc).1
  unfold fractionText
  split_ifs with hzero hmilli hmicro
  · have hnone : expect '.' rest = none := by
      cases rest with
      | nil => rfl
      | cons c rest => simp [expect, (hrest c rfl).2]
    rw [List.nil_append, readFraction, hnone, hzero]
  · have hwhole : nanos / 1000000 * 10 ^ (9 - 3) = nanos := by omega
    rw [readFraction_padded (by omega) (by omega) hdigit, hwhole]
  · have hwhole : nanos / 1000 * 10 ^ (9 - 6) = nanos := by omega
    rw [readFraction_padded (by omega) (by omega) hdigit, hwhole]
  · have hwhole : nanos * 10 ^ (9 - 9) = nanos := by omega
    rw [readFraction_padded (by omega) (by omega) hdigit, hwhole]

/-! ## Instants -/

theorem readOffset_utc (utc : Utc) : readOffset utc.text = some 0 := by
  cases utc <;> decide

theorem utc_head (utc : Utc) : ∀ c ∈ utc.text.head?, c.isDigit = false ∧ c ≠ '.' := by
  intro c hc
  cases utc with
  | zulu =>
    obtain rfl := Option.some.inj hc
    decide
  | zero =>
    obtain rfl := Option.some.inj hc
    decide

/-- **Instants.** An instant that is written is read back. -/
theorem read_write (utc : Utc) (t : ℤ) : read (write utc t) = some t := by
  have hsecond : (t / 1000000000 % 86400).toNat < 86400 := by omega
  have hnanos : (t % 1000000000).toNat < 1000000000 := by omega
  have hdate := readDate_dateText (civil_valid (t / 1000000000 / 86400)) ('T' ::
    (timeText (t / 1000000000 % 86400).toNat ++ (fractionText (t % 1000000000).toNat ++ utc.text)))
  have htime := readTime_timeText hsecond (fractionText (t % 1000000000).toNat ++ utc.text)
  have hfraction := readFraction_fractionText hnanos (utc_head utc)
  simp only [read, write, hdate, expect_self, htime, hfraction, readOffset_utc, Option.bind_eq_bind, Option.bind_some,
    days_civil]
  rw [Option.pure_def]
  congr 1
  omega

end Concordia.Lib.Rfc3339
