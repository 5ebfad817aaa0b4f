import Kdive.Domain.Errors
import Kdive.Lib.Rounding

/-! # Python's numbers: `decimal`, `float` and `datetime`

`decimal.Decimal` in the default context: 28 significant digits, half to even, an exception beyond exponent 999999. A
value is its rational; every arithmetic operation rounds, construction does not. A `timedelta` is a whole number of
microseconds within ten thousand centuries of days, a `datetime` an instant of the years 1 to 9999; leaving either
range is an `OverflowError`.
-/

namespace Kdive
open Lib (Time)
open Rounding

/-- What `Decimal(str(x))` gives for a value `x` from the wire. -/
inductive Number where
  | fin (q : ℚ)
  | inf
  | nan
  deriving DecidableEq

namespace Dec
def precision : Nat := 28

/-- The result of an operation whose exact value is `q`. -/
def finish (q : ℚ) : Except Err ℚ :=
  if Int.log 10 |toDigits 10 precision q| ≤ 999999 then .ok (toDigits 10 precision q)
  else .error .overflow

def mul (p q : ℚ) : Except Err ℚ := finish (p * q)

def add (p q : ℚ) : Except Err ℚ := finish (p + q)

def sub (p q : ℚ) : Except Err ℚ := finish (p - q)

def div (p q : ℚ) : Except Err ℚ := finish (p / q)

theorem finish_ok {q r : ℚ} (h : finish q = .ok r) : r = toDigits 10 28 q := by
  unfold finish at h
  split at h
  · cases h; rfl
  · cases h

theorem finish_of_onGrid {e : ℤ} {q r : ℚ} (hgrid : OnGrid ((10 : ℚ) ^ e) q)
    (hlt : |q| < (10 : ℚ) ^ (e + 28)) (h : finish q = .ok r) : r = q := by
  rw [finish_ok h]
  exact toDigits_of_onGrid (by norm_num) (by exact_mod_cast hgrid) (by exact_mod_cast hlt)

theorem finish_nonneg {q r : ℚ} (hq : 0 ≤ q) (h : finish q = .ok r) : 0 ≤ r := by
  rw [finish_ok h]
  exact toDigits_nonneg (by norm_num) _ hq

theorem abs_finish_sub_le {q r : ℚ} (h : finish q = .ok r) : |r - q| ≤ |q| / 10 ^ 27 := by
  have herr := abs_toDigits_sub_le (by norm_num : 1 < 10) 28 q
  have hpow : ((10 : ℕ) : ℚ) ^ (1 - (28 : ℕ) : ℤ) = 1 / 10 ^ 27 := by norm_num
  rw [hpow] at herr
  rw [finish_ok h]
  have h0 : 0 ≤ |q| := abs_nonneg q
  calc |toDigits 10 28 q - q| ≤ |q| * (1 / 10 ^ 27) / 2 := herr
    _ ≤ |q| / 10 ^ 27 := by linarith
end Dec

/-- The `float` nearest to `q`. -/
def float64 (q : ℚ) : ℚ := toDigits 2 53 q

theorem abs_float64_sub_le (q : ℚ) : |float64 q - q| ≤ |q| / 2 ^ 53 := by
  have herr := abs_toDigits_sub_le (by norm_num : 1 < 2) 53 q
  have hpow : ((2 : ℕ) : ℚ) ^ (1 - (53 : ℕ) : ℤ) = 1 / 2 ^ 52 := by norm_num
  rw [hpow] at herr
  calc |float64 q - q| ≤ |q| * (1 / 2 ^ 52) / 2 := herr
    _ = |q| / 2 ^ 53 := by ring

def truncate (q : ℚ) : ℤ := if 0 ≤ q then ⌊q⌋ else ⌈q⌉

/-! ## Durations and instants -/

def microsPerSecond : ℤ := 1000000

/-- `timedelta(seconds=n)`, in microseconds. -/
def timedeltaOfSeconds (n : ℤ) : Except Err ℤ :=
  if -(999999999 * 86400) ≤ n ∧ n < 1000000000 * 86400 then .ok (n * microsPerSecond)
  else .error .overflow

/-- `t + d` for a `datetime` and a `timedelta`. -/
def datetimeAdd (t : Time) (d : ℤ) : Except Err Time :=
  if -62135596800 * microsPerSecond ≤ t + d ∧ t + d < 253402300800 * microsPerSecond then .ok (t + d)
  else .error .overflow

/-- `d.total_seconds()`: a `float`. -/
def totalSeconds (d : ℤ) : ℚ := float64 (d / microsPerSecond)
end Kdive
