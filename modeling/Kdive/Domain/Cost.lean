import Kdive.Domain.Decimal
import Kdive.Domain.Models

/-! # Pricing: `domain/cost.py` and `domain/lease.py`

Cost is size times time. The functions here are the pure part: the weights, the validators and the one quantizer.
-/

namespace Kdive
open Lib (Time)
open Rounding Dec Int

def wCpu : ℚ := 1
def wMem : ℚ := 1 / 4
def kcuQuantum : ℚ := 1 / 10000
def int32Max : Int := 2 ^ 31 - 1
def mbPerGb : Int := 1024

structure Selector where
  vcpus : Int
  memoryGb : Int
  costClass : String := "local"

/-- Round to the quantum, or fail when the coefficient would have more than 28 digits. -/
def quantizeKcu (value : ℚ) : Except Err ℚ :=
  if fitsDigits precision kcuQuantum (toGrid kcuQuantum value) then
    .ok (toGrid kcuQuantum value)
  else .error (.configuration [.text "kcu value ", .dec value, .text " is too large to price"]
    [("value", .dec value)])

/-- `coeff * (W_CPU * vcpus + W_MEM * memory_gb)`, one rounding an operation. -/
def rate (coeff : ℚ) (vcpus memoryGb : Int) : Except Err ℚ := do
  let cpu ← mul wCpu vcpus
  let mem ← mul wMem memoryGb
  let size ← add cpu mem
  mul coeff size

def cost (rateKcuPerHr hours : ℚ) : Except Err ℚ := mul rateKcuPerHr hours

/-- `Decimal(str(window))`; the argument is what that call gives, `none` when it raises. -/
def parseWindowHours (window : Option Number) : Except Err Number :=
  match window with
  | some n => .ok n
  | none => .error (.configuration [.text "window is not a number"])

def sizeError (field : String) (value : Int) (requirement : String) : Err :=
  .configuration [.text "selector ", .text field, .text "=", .int value, .text " ",
    .text requirement] [("field", .text field), ("value", .int value)]

def validateSize (selector : Selector) : Except Err Unit :=
  if selector.vcpus < 1 then .error (sizeError "vcpus" selector.vcpus "must be ≥ 1")
  else if selector.memoryGb < 0 then
    .error (sizeError "memory_gb" selector.memoryGb "must be ≥ 0")
  else if selector.vcpus > int32Max then
    .error (sizeError "vcpus" selector.vcpus "must be ≤ 2147483647")
  else if selector.memoryGb > int32Max then
    .error (sizeError "memory_gb" selector.memoryGb "must be ≤ 2147483647")
  else .ok ()

def windowError (window : Part) (requirement : String) : Err :=
  .configuration [.text "window=", window, .text " ", .text requirement] [("window", window)]

def validateWindow : Number → Except Err ℚ
  | .fin q => if q ≤ 0 then .error (windowError (.dec q) "must be > 0") else .ok q
  | .inf => .error (windowError (.text "Infinity") "must be a finite number")
  | .nan => .error (windowError (.text "NaN") "must be a finite number")

def resourceCap (resource : Resource) (key : String) : Except Err Int :=
  match Json.get? resource.capabilities key with
  | some (.int n) =>
    if n < 0 then .error (capError resource key) else .ok n
  | _ => .error (capError resource key)
where
  capError (resource : Resource) (key : String) : Err :=
    .configuration [.text "resource ", .id resource.id, .text " has no valid ", .quoted key,
      .text " capability"] [("resource_id", .id resource.id), ("key", .text key)]

def capsError (field : String) (requested ceiling : Int) (resource : Resource) : Err :=
  .configuration [.text "selector ", .text field, .text "=", .int requested,
    .text " exceeds resource ", .id resource.id, .text " ceiling ", .int ceiling]
    [("field", .text field), ("requested", .int requested), ("ceiling", .int ceiling)]

def validateAgainstResource (selector : Selector) (resource : Resource) : Except Err Unit := do
  let capVcpus ← resourceCap resource "vcpus"
  let capMemoryMb ← resourceCap resource "memory_mb"
  if selector.vcpus > capVcpus then
    .error (capsError "vcpus" selector.vcpus capVcpus resource)
  else if selector.memoryGb * mbPerGb > capMemoryMb then
    .error (capsError "memory_mb" (selector.memoryGb * mbPerGb) capMemoryMb resource)
  else .ok ()

/-! ## `domain/lease.py` and `services/allocation/lease_bounds.py` -/

structure LeaseBounds where
  defaultHours : ℚ := 4
  maxHours : ℚ := 24

/-- `None` takes the default; anything else is parsed, validated and clamped. -/
def resolveWindowHours (window : Option (Option Number)) (bounds : LeaseBounds) : Except Err ℚ :=
  match window with
  | none => .ok bounds.defaultHours
  | some w => do
    let requested ← validateWindow (← parseWindowHours w)
    return min requested bounds.maxHours

structure LeaseExtension where
  addedHours : ℚ
  newExpiry : Time

/-- `timedelta(seconds=int(hours * 3600))`. -/
def windowDelta (hours : ℚ) : Except Err ℤ := do
  timedeltaOfSeconds (truncate (← mul hours 3600))

/-- `(end - start).total_seconds() / 3600`, as a `Decimal`. -/
def hoursBetween (start stop : Time) : Except Err ℚ :=
  div (totalSeconds (stop - start)) 3600

def clampExtensionHours (currentExpiry : Time) (requestedExtendHours : ℚ) (now : Time)
    (bounds : LeaseBounds) : Except Err LeaseExtension := do
  let ceiling ← datetimeAdd now (← windowDelta bounds.maxHours)
  let target ← datetimeAdd currentExpiry (← windowDelta requestedExtendHours)
  let newExpiry := min target ceiling
  let base := max now currentExpiry
  if newExpiry ≤ base then return ⟨0, currentExpiry⟩
  else return ⟨← hoursBetween base newExpiry, newExpiry⟩

/-- The settings of the environment: the lease bounds, each absent or what `Decimal(str(…))` gives for
    it, and the kinds of host a provider is registered for. -/
structure Config where
  leaseDefault : Option (Option Number) := none
  leaseMax : Option (Option Number) := none
  registeredKinds : List ResourceKind := [.localLibvirt, .faultInject, .remoteLibvirt]

def boundFromConfig (env : String) (raw : Option (Option Number)) (fallback : ℚ) : Except Err ℚ :=
  match raw with
  | none => .ok fallback
  | some n =>
    match parseWindowHours n >>= validateWindow with
    | .ok bound => .ok bound
    | .error _ => .error (.configuration
        [.text env, .text " must be a finite number of hours > 0"] [("env", .text env)])

def configuredLeaseBounds (cfg : Config) : Except Err LeaseBounds := do
  let defaultHours ← boundFromConfig "KDIVE_LEASE_DEFAULT" cfg.leaseDefault 4
  let maxHours ← boundFromConfig "KDIVE_LEASE_MAX" cfg.leaseMax 24
  return ⟨defaultHours, maxHours⟩

/-! ## What is recorded -/

theorem kcuQuantum_pos : 0 < kcuQuantum := by norm_num [kcuQuantum]

theorem quantizeKcu_ok {value q : ℚ} (h : quantizeKcu value = .ok q) : q = toGrid kcuQuantum value ∧ |q| < 10 ^ 24 := by
  unfold quantizeKcu at h
  split at h
  case isTrue hfit =>
    cases h
    refine ⟨rfl, ?_⟩
    have hlt : |toGrid kcuQuantum value / kcuQuantum| < 10 ^ 28 := of_decide_eq_true hfit
    rw [abs_div, abs_of_pos kcuQuantum_pos, div_lt_iff₀ kcuQuantum_pos] at hlt
    calc |toGrid kcuQuantum value| < 10 ^ 28 * kcuQuantum := hlt
      _ = 10 ^ 24 := by norm_num [kcuQuantum]
  case isFalse => cases h

theorem onGrid_of_quantizeKcu {value q : ℚ} (h : quantizeKcu value = .ok q) : OnGrid kcuQuantum q := by
  rw [(quantizeKcu_ok h).1]
  exact onGrid_toGrid _ _

theorem quantizeKcu_of_onGrid {q r : ℚ} (hq : OnGrid kcuQuantum q) (h : quantizeKcu q = .ok r) : r = q := by
  rw [(quantizeKcu_ok h).1, toGrid_of_onGrid kcuQuantum_pos.ne' hq]

/-- **The budget check is exact for a limit on the quantum's grid.** -/
theorem add_le_of_le_sub {limit spent delta remaining : ℚ} (hlimit : OnGrid kcuQuantum limit)
    (hspent : OnGrid kcuQuantum spent) (hdelta : |delta| < 10 ^ 24)
    (hsub : sub limit spent = .ok remaining) (hle : delta ≤ remaining) : spent + delta ≤ limit := by
  obtain ⟨hlow, hhigh⟩ := abs_lt.mp hdelta
  by_cases hfits : |limit - spent| < 10 ^ 24
  · have hgrid : OnGrid ((10 : ℚ) ^ (-4 : ℤ)) (limit - spent) := by
      have heq : (10 : ℚ) ^ (-4 : ℤ) = kcuQuantum := by norm_num [kcuQuantum]
      rw [heq]
      exact hlimit.sub hspent
    have hexact := finish_of_onGrid hgrid (by norm_num; linarith) hsub
    linarith
  · rcases le_abs.mp (not_lt.mp hfits) with hbig | hbig
    · linarith
    · -- far below zero it is rounded to no more than `-10 ^ 24`
      have hneg : limit - spent < 0 := by linarith
      have hlog : (24 : ℤ) ≤ log 10 |limit - spent| := by
        refine (zpow_le_iff_le_log (by norm_num) (abs_pos.mpr hneg.ne)).mp ?_
        rw [abs_of_neg hneg]
        exact_mod_cast hbig
      have hround := toDigits_le_neg_zpow (by norm_num : 1 < 10) (by norm_num : 1 ≤ 28) hneg
      have hpow : ((10 : ℕ) : ℚ) ^ (24 : ℤ) ≤ ((10 : ℕ) : ℚ) ^ log 10 |limit - spent| :=
        zpow_le_zpow_right₀ (by norm_num) hlog
      have hrem := finish_ok hsub
      norm_num at hpow
      rw [← hrem] at hround
      norm_num at hround
      linarith

/-! ## How exact a settlement is -/

theorem rate_nonneg {coeff r : ℚ} {vcpus memoryGb : Int} (hcoeff : 0 ≤ coeff) (hvcpus : 0 ≤ vcpus)
    (hmemory : 0 ≤ memoryGb) (h : rate coeff vcpus memoryGb = .ok r) : 0 ≤ r := by
  unfold rate at h
  cases hcpu : mul wCpu vcpus with
  | error => rw [hcpu] at h; cases h
  | ok cpu =>
    cases hmem : mul wMem memoryGb with
    | error => rw [hcpu, hmem] at h; cases h
    | ok mem =>
      cases hsize : add cpu mem with
      | error => rw [hcpu, hmem] at h; simp only [bind, Except.bind, hsize] at h; cases h
      | ok =>
        rw [hcpu, hmem] at h
        simp only [bind, Except.bind, hsize] at h
        have hv : (0 : ℚ) ≤ vcpus := by exact_mod_cast hvcpus
        have hm : (0 : ℚ) ≤ memoryGb := by exact_mod_cast hmemory
        have hcpu' := finish_nonneg (by norm_num [wCpu]; exact hvcpus) hcpu
        have hmem' := finish_nonneg (by unfold wMem; positivity) hmem
        have hsize' := finish_nonneg (by positivity) hsize
        exact finish_nonneg (by positivity) h

def spanHours (start stop : Time) : ℚ := (stop - start : ℤ) / (3600 * microsPerSecond : ℤ)

theorem spanHours_nonneg {start stop : Time} (h : start ≤ stop) : 0 ≤ spanHours start stop := by
  have hd : (0 : ℚ) ≤ (stop - start : ℤ) := by exact_mod_cast sub_nonneg.mpr h
  exact div_nonneg hd (by norm_num [microsPerSecond])

theorem abs_hoursBetween_sub_le {start stop : Time} {hours : ℚ} (hle : start ≤ stop)
    (h : hoursBetween start stop = .ok hours) :
    |hours - spanHours start stop| ≤ spanHours start stop * (1111 / 10 ^ 19) := by
  have hspan := spanHours_nonneg hle
  have heq : ((stop - start : ℤ) : ℚ) / microsPerSecond = spanHours start stop * 3600 := by
    unfold spanHours
    push_cast
    ring
  have hfloat := abs_float64_sub_le (spanHours start stop * 3600)
  rw [abs_of_nonneg (by linarith : 0 ≤ spanHours start stop * 3600)] at hfloat
  have hdiv := abs_finish_sub_le h
  unfold totalSeconds at hdiv
  rw [heq] at hdiv
  generalize float64 (spanHours start stop * 3600) = seconds at hfloat hdiv
  generalize spanHours start stop = span at *
  obtain ⟨hflo, hfhi⟩ := abs_le.mp hfloat
  have hpos : 0 ≤ seconds / 3600 := by
    have : span * 3600 / 2 ^ 53 ≤ span * 3600 := div_le_self (by positivity) (by norm_num)
    linarith
  rw [abs_of_nonneg hpos] at hdiv
  obtain ⟨hdlo, hdhi⟩ := abs_le.mp hdiv
  refine abs_le.mpr ⟨?_, ?_⟩ <;> nlinarith

theorem abs_cost_sub_le {start stop : Time} {hours r actual : ℚ} (hle : start ≤ stop) (hr : 0 ≤ r)
    (h : hoursBetween start stop = .ok hours) (hcost : cost r hours = .ok actual) :
    |actual - r * spanHours start stop| ≤ r * spanHours start stop * (112 / 10 ^ 18) := by
  have hspan := spanHours_nonneg hle
  have hhours := abs_hoursBetween_sub_le hle h
  have hmul := abs_finish_sub_le hcost
  generalize spanHours start stop = span at *
  obtain ⟨hhlo, hhhi⟩ := abs_le.mp hhours
  have hpos : 0 ≤ hours := by linarith
  rw [abs_of_nonneg (mul_nonneg hr hpos)] at hmul
  -- the error of the hours, times the rate
  have hlo := mul_le_mul_of_nonneg_left hhlo hr
  have hhi := mul_le_mul_of_nonneg_left hhhi hr
  have hprod : 0 ≤ r * span := mul_nonneg hr hspan
  obtain ⟨hmlo, hmhi⟩ := abs_le.mp hmul
  refine abs_le.mpr ⟨?_, ?_⟩ <;> nlinarith

theorem log_le_of_quantizeKcu {x delta : ℚ} (hx : x ≠ 0) (h : quantizeKcu (toDigits 10 28 x) = .ok delta) :
    log 10 |x| ≤ 23 := by
  by_contra hlog
  obtain ⟨hdelta, hsmall⟩ := quantizeKcu_ok h
  obtain ⟨hlow, hhigh⟩ := abs_lt.mp hsmall
  have hbig : OnGrid kcuQuantum (10 ^ 24) := ⟨10 ^ 28, by norm_num [kcuQuantum]⟩
  have hpow : ((10 : ℕ) : ℚ) ^ (24 : ℤ) ≤ ((10 : ℕ) : ℚ) ^ log 10 |x| :=
    zpow_le_zpow_right₀ (by norm_num) (by omega)
  have hpow' : (10 : ℚ) ^ 24 ≤ ((10 : ℕ) : ℚ) ^ log 10 |x| := by exact_mod_cast hpow
  rcases lt_or_gt_of_ne hx with hneg | hpos
  · have hle := toDigits_le_neg_zpow (by norm_num : 1 < 10) (by norm_num : 1 ≤ 28) hneg
    have := toGrid_le kcuQuantum_pos hbig.neg (by linarith : toDigits 10 28 x ≤ -10 ^ 24)
    linarith
  · have hle := zpow_le_toDigits (by norm_num : 1 < 10) (by norm_num : 1 ≤ 28) hpos
    have := le_toGrid kcuQuantum_pos hbig (by linarith : 10 ^ 24 ≤ toDigits 10 28 x)
    linarith

theorem ulp_le_of_log {x : ℚ} (hlog : log 10 |x| < 23) : ulp 10 28 x ≤ 1 / 10 ^ 5 := by
  have hpow : ((10 : ℕ) : ℚ) ^ (log 10 |x| - (28 : ℕ) + 1) ≤ (10 : ℕ) ^ (-5 : ℤ) :=
    zpow_le_zpow_right₀ (by norm_num) (by push_cast; omega)
  calc ulp 10 28 x ≤ ((10 : ℕ) : ℚ) ^ (-5 : ℤ) := hpow
    _ = 1 / 10 ^ 5 := by norm_num

theorem ulp_of_log {x : ℚ} (hlog : log 10 |x| = 23) : ulp 10 28 x = kcuQuantum := by
  rw [ulp, hlog]
  norm_num [kcuQuantum]

/-- **What is posted at settlement brings the reservations to the charge** within a little more than half the quantum.
    Where the first of its two roundings is coarser than the quantum the quantizer refuses. -/
theorem abs_settlement_sub_le {actual reserved delta : ℚ} (h : (sub actual reserved >>= quantizeKcu) = .ok delta) :
    |reserved + delta - actual| ≤ 55 / 10 ^ 6 := by
  obtain ⟨diff, hsub, hquant⟩ : ∃ diff, sub actual reserved = .ok diff ∧ quantizeKcu diff = .ok delta := by
    cases hsub : sub actual reserved with
    | error => rw [hsub] at h; cases h
    | ok diff => rw [hsub] at h; exact ⟨diff, rfl, h⟩
  obtain ⟨hdelta, hsmall⟩ := quantizeKcu_ok hquant
  have hdiff : diff = toDigits 10 28 (actual - reserved) := finish_ok hsub
  have hshape : reserved + delta - actual = delta - (actual - reserved) := by ring
  rw [hshape]
  generalize actual - reserved = x at *
  have hgrid := abs_toGrid_sub_le kcuQuantum_pos diff
  rw [← hdelta] at hgrid
  by_cases hx : x = 0
  · have hzero : diff = 0 := by rw [hdiff, hx]; rfl
    rw [hzero] at hgrid
    rw [hx]
    norm_num [kcuQuantum] at hgrid ⊢
    linarith
  · have hround : |diff - x| ≤ ulp 10 28 x / 2 := by
      rw [hdiff, toDigits_of_ne hx]
      exact abs_toGrid_sub_le (ulp_pos (by norm_num) _ _) _
    rcases (log_le_of_quantizeKcu hx (hdiff ▸ hquant)).lt_or_eq with hlog | hlog
    · have hulp := ulp_le_of_log hlog
      calc |delta - x| ≤ |delta - diff| + |diff - x| := abs_sub_le _ _ _
        _ ≤ kcuQuantum / 2 + 1 / 10 ^ 5 / 2 := by linarith
        _ = 55 / 10 ^ 6 := by norm_num [kcuQuantum]
    · have hulp := ulp_of_log hlog
      have hexact : delta = diff := by
        rw [hdelta, hdiff, toDigits_of_ne hx, hulp]
        exact toGrid_of_onGrid kcuQuantum_pos.ne' (onGrid_toGrid _ _)
      rw [hexact]
      rw [hulp] at hround
      norm_num [kcuQuantum] at hround ⊢
      linarith

end Kdive
