/-
The settings of the circuit breakers (`cbConfigFromEnv`, `atoiDefault` and `newCBTransport` in
`services/gateway/breaker.go`): two numbers in the environment, read as ints of 64 bits, of which one is cut to 32 bits
and the other multiplied into a 64-bit count of nanoseconds.

- `never_ready_iff`, `configured_open_iff`: which numbers leave the breaker ready to trip without a failure, and which end
  the open state before the configured time.
- `settings_survive_iff`: the settings are the configured ones, and all that follows from it holds, iff the first number
  is below `2 ^ 32` and the second at most 9223372036, where they are positive ints at all.
- `settings_wrapped`: two texts that are read as 0 failures and as less than no time.
-/
import Concordia.Lib.Strconv
import Concordia.Gateway.OpenState

namespace Concordia.Gateway.BreakerSettings

open Concordia.Lib Concordia.Lib.CircuitBreaker Concordia.Lib.Strconv Concordia.Gateway.Breaker

/-! ## Model -/

/-- the variables of the process; none: not set -/
abbrev Environ := String → Option (List UInt8)

/-- `os.Getenv` -/
def osGetenv (environ : Environ) (key : String) : List UInt8 := (environ key).getD []

def getenv (environ : Environ) (key : String) (fallback : List UInt8) : List UInt8 :=
  if osGetenv environ key ≠ [] then osGetenv environ key else fallback

/-- a text of ASCII characters -/
def ascii (text : String) : List UInt8 := text.toList.map Char.toUInt8

/-- `cbConfig` in the types of the source; `Breaker.CbConfig` is what the breaker works with -/
structure CbConfig where
  maxFailures : UInt32
  /-- a `time.Duration`, in nanoseconds -/
  openTimeout : Int64
deriving DecidableEq, Repr

def atoiDefault (s : List UInt8) (default : Int64) : Int64 :=
  match atoi s with
  | some n => if 0 < n then n else default
  | none => default

/-- `time.Second` -/
def second : Int64 := 1000000000

def cbConfigFromEnv (environ : Environ) : CbConfig where
  maxFailures := uint32 (atoiDefault (getenv environ "GATEWAY_CB_MAX_FAILURES" (ascii "5")) 5)
  openTimeout := atoiDefault (getenv environ "GATEWAY_CB_OPEN_SECONDS" (ascii "10")) 10 * second

/-- `gobreaker.Settings` -/
structure GobreakerSettings where
  maxRequests : UInt32
  interval : Int64
  timeout : Int64
  readyToTrip : Counts → Bool

/-- what `newCBTransport` fills in; the interval is left at zero -/
def newCBTransport (cfg : CbConfig) : GobreakerSettings where
  maxRequests := 1
  interval := 0
  timeout := cfg.openTimeout
  readyToTrip := fun c => cfg.maxFailures.toNat ≤ c.consecutiveFailures

/-- `gobreaker.NewCircuitBreaker`: by its documentation 0 requests stand for 1, an interval that is not positive for none,
and a timeout that is not positive for 60 seconds -/
def newCircuitBreaker (settings : GobreakerSettings) : Settings where
  maxRequests := if settings.maxRequests = 0 then 1 else settings.maxRequests.toNat
  interval := if settings.interval ≤ 0 then 0 else settings.interval.toInt.toNat
  timeout := if settings.timeout ≤ 0 then 60 * 10 ^ 9 else settings.timeout.toInt.toNat
  readyToTrip := settings.readyToTrip

/-- what the breaker works with -/
def CbConfig.effective (cfg : CbConfig) : Breaker.CbConfig :=
  ⟨cfg.maxFailures.toNat, (newCircuitBreaker (newCBTransport cfg)).timeout⟩

/-- it is the breaker of the runs below -/
theorem settings_effective (cfg : CbConfig) : settings cfg.effective = newCircuitBreaker (newCBTransport cfg) := rfl

/-! ## Properties -/

/-- the number that a variable's text stands for: its positive int, or else the default -/
def Configured (s : List UInt8) (default n : ℕ) : Prop := PositiveInt s n ∨ (∀ m, ¬ PositiveInt s m) ∧ n = default

/-- the settings are the configured ones: positive, never ready to trip without a failure, and open for long enough -/
structure Survives {ρ : Type*} (status : ρ → ℕ) (environ : Environ) : Prop where
  maxFailures_pos : 1 ≤ (cbConfigFromEnv environ).maxFailures
  openTimeout_pos : 0 < (cbConfigFromEnv environ).openTimeout
  maxFailures : ∀ n, Configured (osGetenv environ "GATEWAY_CB_MAX_FAILURES") 5 n →
    (cbConfigFromEnv environ).maxFailures.toNat = n
  openTimeout : ∀ n, Configured (osGetenv environ "GATEWAY_CB_OPEN_SECONDS") 10 n →
    (cbConfigFromEnv environ).openTimeout.toInt = (n * 10 ^ 9 : ℕ)
  neverReady : ∀ c : Counts, c.consecutiveFailures = 0 →
    (newCBTransport (cbConfigFromEnv environ)).readyToTrip c = false
  staysOpen : ∀ n, Configured (osGetenv environ "GATEWAY_CB_OPEN_SECONDS") 10 n →
    StaysOpen status (cbConfigFromEnv environ).effective (n * 10 ^ 9)

/-- a positive int of failures fits 32 bits, one of seconds fits 63 bits as nanoseconds -/
structure Fits (environ : Environ) : Prop where
  failures : ∀ n, PositiveInt (osGetenv environ "GATEWAY_CB_MAX_FAILURES") n → n < 2 ^ 32
  seconds : ∀ n, PositiveInt (osGetenv environ "GATEWAY_CB_OPEN_SECONDS") n → n ≤ 9223372036

/-! ## The settings -/

section

variable {s : List UInt8} {d n : ℕ}

theorem exists_configured (s : List UInt8) (d : ℕ) : ∃ n, Configured s d n := by
  by_cases h : ∃ n, PositiveInt s n
  · obtain ⟨n, hn⟩ := h
    exact ⟨n, .inl hn⟩
  · exact ⟨d, .inr ⟨not_exists.1 h, rfl⟩⟩

theorem Configured.unique {m : ℕ} (hn : Configured s d n) (hm : Configured s d m) : n = m := by
  rcases hn with hn | ⟨hno, rfl⟩
  · rcases hm with hm | ⟨hno, -⟩
    · exact hn.unique hm
    · exact absurd hn (hno n)
  · rcases hm with hm | ⟨-, rfl⟩
    · exact absurd hm (hno m)
    · rfl

/-- what the default meets holds of the configured number iff it holds of the positive int, if there is one -/
theorem Configured.forall_iff {P : ℕ → Prop} (hn : Configured s d n) (hd : P d) : (∀ m, PositiveInt s m → P m) ↔ P n := by
  refine ⟨?_, ?_⟩
  · intro h
    rcases hn with hn | ⟨-, rfl⟩
    · exact h n hn
    · exact hd
  · intro h m hm
    rwa [hn.unique (.inl hm)] at h

theorem Configured.bounds (hn : Configured s d n) (hd : 0 < d ∧ d < 2 ^ 63) : 0 < n ∧ n < 2 ^ 63 := by
  rcases hn with ⟨_, -, -, -, hbounds⟩ | ⟨-, rfl⟩
  · exact hbounds
  · exact hd

theorem atoiDefault_eq (hn : Configured s d n) : atoiDefault s (Int64.ofNat d) = Int64.ofNat n := by
  rw [atoiDefault]
  rcases hn with hn | ⟨hno, rfl⟩
  · obtain ⟨_, -, -, -, hpos, hlt⟩ := id hn
    have hpositive : 0 < Int64.ofNat n := by
      rw [Int64.lt_iff_toInt_lt, Int64.toInt_ofNat_of_lt hlt, Int64.toInt_zero]
      exact_mod_cast hpos
    simp only [hn.atoi_eq, if_pos hpositive]
  · cases hread : atoi s with
    | none => rfl
    | some i => exact if_neg fun hi => hno _ (positiveInt_of_atoi hread hi)

theorem not_positiveInt_nil (n : ℕ) : ¬ PositiveInt [] n := by
  intro h
  have hread := h.atoi_eq
  cases hread

/-- a variable that is not set, or empty, is its default, by way of the default's text -/
theorem atoiDefault_getenv {environ : Environ} {key : String} {fallback : List UInt8} (hfallback : PositiveInt fallback d)
    (hn : Configured (osGetenv environ key) d n) :
    atoiDefault (getenv environ key fallback) (Int64.ofNat d) = Int64.ofNat n := by
  rw [getenv]
  split_ifs with hset
  · exact atoiDefault_eq hn
  · rw [not_not.1 hset] at hn
    rcases hn with hn | ⟨-, rfl⟩
    · exact absurd hn (not_positiveInt_nil n)
    · exact atoiDefault_eq (.inl hfallback)

end

section

variable {environ : Environ} {n : ℕ}

theorem maxFailures_eq (hn : Configured (osGetenv environ "GATEWAY_CB_MAX_FAILURES") 5 n) :
    (cbConfigFromEnv environ).maxFailures = uint32 (Int64.ofNat n) :=
  congrArg uint32 (atoiDefault_getenv (positiveInt_of_atoi (i := 5) (by decide) (by decide)) hn)

theorem openTimeout_eq (hn : Configured (osGetenv environ "GATEWAY_CB_OPEN_SECONDS") 10 n) :
    (cbConfigFromEnv environ).openTimeout = Int64.ofNat n * Int64.ofNat (10 ^ 9) :=
  congrArg (· * second) (atoiDefault_getenv (positiveInt_of_atoi (i := 10) (by decide) (by decide)) hn)

/-- ready to trip without a failure: the number of failures is a multiple of `2 ^ 32` -/
theorem never_ready_iff (hn : Configured (osGetenv environ "GATEWAY_CB_MAX_FAILURES") 5 n) :
    (∀ c : Counts, c.consecutiveFailures = 0 → (newCBTransport (cbConfigFromEnv environ)).readyToTrip c = false) ↔
      ¬ 2 ^ 32 ∣ n := by
  have hready : ∀ c : Counts, c.consecutiveFailures = 0 →
      ((newCBTransport (cbConfigFromEnv environ)).readyToTrip c = false ↔ ¬ 2 ^ 32 ∣ n) := by
    intro c hc
    simp only [newCBTransport, hc, maxFailures_eq hn, uint32_toNat, decide_eq_false_iff_not, Nat.le_zero,
      Nat.dvd_iff_mod_eq_zero]
  exact ⟨fun h => (hready .zero rfl).1 (h .zero rfl), fun h c hc => (hready c hc).2 h⟩

/-- so many seconds are the breaker's timeout if they fit; otherwise its timeout is shorter -/
theorem timeout_iff (hn : Configured (osGetenv environ "GATEWAY_CB_OPEN_SECONDS") 10 n) :
    n * 10 ^ 9 ≤ (cbConfigFromEnv environ).effective.openTimeout ↔ n ≤ 9223372036 := by
  obtain ⟨hpos, hlt⟩ := hn.bounds (by decide)
  have hmul := mul_eq_iff hlt (show 10 ^ 9 < 2 ^ 63 by decide)
  have hmax := Int64.toInt_lt (cbConfigFromEnv environ).openTimeout
  simp only [CbConfig.effective, newCircuitBreaker, newCBTransport, Int64.le_iff_toInt_le, Int64.toInt_zero]
  rw [← openTimeout_eq hn] at hmul
  split_ifs with hneg
  · omega
  · omega

/-- the configured time is kept by the open state exactly if it fits -/
theorem configured_open_iff {ρ : Type*} (status : ρ → ℕ)
    (hn : Configured (osGetenv environ "GATEWAY_CB_OPEN_SECONDS") 10 n) :
    StaysOpen status (cbConfigFromEnv environ).effective (n * 10 ^ 9) ↔ n ≤ 9223372036 :=
  staysOpen_iff.trans (timeout_iff hn)

/-- **Settings.** They survive the arithmetic exactly if the number of failures fits 32 bits, and that of seconds 63 bits as
nanoseconds. -/
theorem settings_survive_iff {ρ : Type*} (status : ρ → ℕ) (environ : Environ) :
    Survives status environ ↔ Fits environ := by
  obtain ⟨failures, hfailures⟩ := exists_configured (osGetenv environ "GATEWAY_CB_MAX_FAILURES") 5
  obtain ⟨seconds, hseconds⟩ := exists_configured (osGetenv environ "GATEWAY_CB_OPEN_SECONDS") 10
  refine ⟨?_, ?_⟩
  · intro h
    have hlt : failures < 2 ^ 32 := by
      rw [← uint32_eq_iff, ← maxFailures_eq hfailures]
      exact h.maxFailures failures hfailures
    have hle : seconds ≤ 9223372036 := (configured_open_iff status hseconds).1 (h.staysOpen seconds hseconds)
    exact ⟨(hfailures.forall_iff (by decide)).2 hlt, (hseconds.forall_iff (by decide)).2 hle⟩
  · intro h
    obtain ⟨hfpos, -⟩ := hfailures.bounds (by decide)
    obtain ⟨hspos, hslt⟩ := hseconds.bounds (by decide)
    have hlt : failures < 2 ^ 32 := (hfailures.forall_iff (by decide)).1 h.failures
    have hle : seconds ≤ 9223372036 := (hseconds.forall_iff (by decide)).1 h.seconds
    have hcount : (cbConfigFromEnv environ).maxFailures.toNat = failures := by
      rw [maxFailures_eq hfailures, uint32_eq_iff]
      exact hlt
    have htime : (cbConfigFromEnv environ).openTimeout.toInt = (seconds * 10 ^ 9 : ℕ) := by
      rw [openTimeout_eq hseconds, mul_eq_iff hslt (by decide)]
      omega
    refine ⟨?_, ?_, ?_, ?_, ?_, ?_⟩
    · rw [UInt32.le_iff_toNat_le, hcount]
      exact hfpos
    · rw [Int64.lt_iff_toInt_lt, htime, Int64.toInt_zero]
      omega
    · intro n hn
      rw [hcount, hn.unique hfailures]
    · intro n hn
      rw [htime, hn.unique hseconds]
    · exact (never_ready_iff hfailures).2 (Nat.not_dvd_of_pos_of_lt hfpos hlt)
    · intro n hn
      exact (configured_open_iff status hn).2 (hn.unique hseconds ▸ hle)

/-- the two variables, set to these texts -/
def exported (failures seconds : String) : Environ := fun key =>
  if key = "GATEWAY_CB_MAX_FAILURES" then some (ascii failures)
  else if key = "GATEWAY_CB_OPEN_SECONDS" then some (ascii seconds)
  else none

/-- `2 ^ 32` failures become none, and a second too many becomes a negative time -/
theorem settings_wrapped : cbConfigFromEnv (exported "4294967296" "9223372037") = ⟨0, -9223372036709551616⟩ ∧
    ¬ Survives (id : ℕ → ℕ) (exported "4294967296" "9223372037") := by
  have hconfig : cbConfigFromEnv (exported "4294967296" "9223372037") = ⟨0, -9223372036709551616⟩ := by decide
  refine ⟨hconfig, fun h => ?_⟩
  have hpos := h.maxFailures_pos
  rw [hconfig] at hpos
  exact absurd hpos (by decide)

end

end Concordia.Gateway.BreakerSettings
