import Mathlib.Data.Int.Log
import Mathlib.Data.Rat.Floor
import Mathlib.Algebra.Order.Field.Power
import Mathlib.Algebra.Ring.Int.Parity
import Mathlib.Tactic.FieldSimp
import Mathlib.Tactic.Linarith
import Mathlib.Tactic.Positivity
import Mathlib.Tactic.Ring

/-! # Rounding a rational: to a grid, and to a number of significant digits

The one rounding, half to even, that a decimal context and a binary float share, over the exact rationals, and what a
caller needs of it: what is representable is unchanged, the error is bounded, order and sign survive. Exponent ranges
are left out; a format that bounds its coefficient says so with `fitsDigits`.
-/

namespace Rounding
open Int

/-- The integer nearest to `q`; of two equally near, the even one. -/
def halfEven (q : ℚ) : ℤ :=
  if q - ⌊q⌋ < 1 / 2 then ⌊q⌋
  else if 1 / 2 < q - ⌊q⌋ then ⌊q⌋ + 1
  else if ⌊q⌋ % 2 = 0 then ⌊q⌋ else ⌊q⌋ + 1

theorem halfEven_cases (q : ℚ) : (halfEven q = ⌊q⌋ ∧ q - ⌊q⌋ ≤ 1 / 2) ∨ (halfEven q = ⌊q⌋ + 1 ∧ 1 / 2 ≤ q - ⌊q⌋) := by
  unfold halfEven
  by_cases hlow : q - ⌊q⌋ < 1 / 2
  · exact .inl ⟨if_pos hlow, hlow.le⟩
  · rw [if_neg hlow]
    by_cases hhigh : 1 / 2 < q - ⌊q⌋
    · exact .inr ⟨if_pos hhigh, hhigh.le⟩
    · rw [if_neg hhigh]
      by_cases heven : ⌊q⌋ % 2 = 0
      · exact .inl ⟨if_pos heven, not_lt.mp hhigh⟩
      · exact .inr ⟨if_neg heven, not_lt.mp hlow⟩

theorem halfEven_intCast (n : ℤ) : halfEven n = n := by
  simp [halfEven]

theorem abs_halfEven_sub_le (q : ℚ) : |(halfEven q : ℚ) - q| ≤ 1 / 2 := by
  have hfl := floor_le q
  have hlt := lt_floor_add_one q
  rcases halfEven_cases q with ⟨h, hq⟩ | ⟨h, hq⟩
  · rw [h, abs_le]
    constructor <;> linarith
  · rw [h, abs_le]
    push_cast
    constructor <;> linarith

variable {q : ℚ}

theorem le_halfEven {n : ℤ} (h : (n : ℚ) ≤ q) : n ≤ halfEven q := by
  have hn : n ≤ ⌊q⌋ := le_floor.mpr h
  rcases halfEven_cases q with ⟨hq, -⟩ | ⟨hq, -⟩ <;> omega

theorem halfEven_le {n : ℤ} (h : q ≤ n) : halfEven q ≤ n := by
  have hfl : ⌊q⌋ ≤ n := floor_le_iff.mpr (by linarith)
  rcases halfEven_cases q with ⟨hq, -⟩ | ⟨hq, hhalf⟩
  · omega
  · -- rounded up, so `q` is not an integer
    have hlt : (⌊q⌋ : ℚ) < n := by linarith
    have hlt' : ⌊q⌋ < n := by exact_mod_cast hlt
    omega

/-! ## To a grid -/

/-- `q` rounded to a multiple of `u`. -/
def toGrid (u q : ℚ) : ℚ := halfEven (q / u) * u

/-- `q` is a multiple of `u`. -/
def OnGrid (u q : ℚ) : Prop := ∃ n : ℤ, q = n * u

theorem onGrid_toGrid (u q : ℚ) : OnGrid u (toGrid u q) := ⟨halfEven (q / u), rfl⟩

theorem OnGrid.zero (u : ℚ) : OnGrid u 0 := ⟨0, by simp⟩

variable {u : ℚ}

theorem OnGrid.add {p : ℚ} (hp : OnGrid u p) (hq : OnGrid u q) : OnGrid u (p + q) := by
  obtain ⟨m, rfl⟩ := hp
  obtain ⟨n, rfl⟩ := hq
  exact ⟨m + n, by push_cast; ring⟩

theorem OnGrid.sub {p : ℚ} (hp : OnGrid u p) (hq : OnGrid u q) : OnGrid u (p - q) := by
  obtain ⟨m, rfl⟩ := hp
  obtain ⟨n, rfl⟩ := hq
  exact ⟨m - n, by push_cast; ring⟩

theorem OnGrid.neg (hq : OnGrid u q) : OnGrid u (-q) := by
  obtain ⟨n, rfl⟩ := hq
  exact ⟨-n, by push_cast; ring⟩

theorem OnGrid.sum_filter {α : Type} {l : List α} {f : α → ℚ} {p : α → Bool}
    (h : ∀ x ∈ l, p x = true → OnGrid u (f x)) : OnGrid u ((l.filter p).map f).sum := by
  refine List.sum_induction _ (fun _ _ => .add) (.zero u) ?_
  intro q hq
  obtain ⟨x, hx, rfl⟩ := List.mem_map.mp hq
  obtain ⟨hmem, hp⟩ := List.mem_filter.mp hx
  exact h x hmem hp

theorem OnGrid.nonneg_of_neg_lt (hu : 0 < u) (hq : OnGrid u q) (h : -u < q) : 0 ≤ q := by
  obtain ⟨n, rfl⟩ := hq
  have hn : (-1 : ℚ) < n := by
    by_contra hle
    have := mul_le_mul_of_nonneg_right (not_lt.mp hle) hu.le
    linarith
  have hn' : 0 ≤ n := by
    have : (-1 : ℤ) < n := by exact_mod_cast hn
    omega
  positivity

theorem toGrid_of_onGrid (hu : u ≠ 0) (h : OnGrid u q) : toGrid u q = q := by
  obtain ⟨n, rfl⟩ := h
  unfold toGrid
  rw [mul_div_assoc, div_self hu, mul_one, halfEven_intCast]

theorem abs_toGrid_sub_le (hu : 0 < u) (q : ℚ) : |toGrid u q - q| ≤ u / 2 := by
  have hq : q = q / u * u := by field_simp
  calc |toGrid u q - q| = |((halfEven (q / u) : ℚ) - q / u) * u| := by
        rw [sub_mul, ← hq]; rfl
    _ = |(halfEven (q / u) : ℚ) - q / u| * u := by rw [abs_mul, abs_of_pos hu]
    _ ≤ 1 / 2 * u := mul_le_mul_of_nonneg_right (abs_halfEven_sub_le _) hu.le
    _ = u / 2 := by ring

theorem le_toGrid {m : ℚ} (hu : 0 < u) (hm : OnGrid u m) (h : m ≤ q) : m ≤ toGrid u q := by
  obtain ⟨n, rfl⟩ := hm
  have hn : (n : ℚ) ≤ halfEven (q / u) := by
    exact_mod_cast le_halfEven ((le_div_iff₀ hu).mpr h)
  exact mul_le_mul_of_nonneg_right hn hu.le

theorem toGrid_le {m : ℚ} (hu : 0 < u) (hm : OnGrid u m) (h : q ≤ m) : toGrid u q ≤ m := by
  obtain ⟨n, rfl⟩ := hm
  have hn : (halfEven (q / u) : ℚ) ≤ n := by
    exact_mod_cast halfEven_le ((div_le_iff₀ hu).mpr h)
  exact mul_le_mul_of_nonneg_right hn hu.le

/-! ## To a number of significant digits -/

/-- The weight of the last of the `p` base-`b` digits kept of `q`. -/
def ulp (b p : ℕ) (q : ℚ) : ℚ := (b : ℚ) ^ (log b |q| - p + 1)

/-- `q` rounded to `p` significant base-`b` digits. -/
def toDigits (b p : ℕ) (q : ℚ) : ℚ := if q = 0 then 0 else toGrid (ulp b p q) q

variable {b : ℕ}

theorem ulp_pos (hb : 1 < b) (p : ℕ) (q : ℚ) : 0 < ulp b p q :=
  zpow_pos (by exact_mod_cast (by omega : 0 < b)) _

theorem ulp_le (hb : 1 < b) (p : ℕ) (hq : q ≠ 0) : ulp b p q ≤ |q| * (b : ℚ) ^ (1 - p : ℤ) := by
  have hb0 : (b : ℚ) ≠ 0 := by exact_mod_cast (by omega : b ≠ 0)
  have hlog := zpow_log_le_self hb (abs_pos.mpr hq)
  have hsplit : ulp b p q = (b : ℚ) ^ log b |q| * (b : ℚ) ^ (1 - p : ℤ) := by
    rw [← zpow_add₀ hb0]
    unfold ulp
    congr 1
    ring
  rw [hsplit]
  exact mul_le_mul_of_nonneg_right hlog (zpow_nonneg (by positivity) _)

/-- **The error of keeping `p` digits** is half a unit in the last place, relative to the value. -/
theorem abs_toDigits_sub_le (hb : 1 < b) (p : ℕ) (q : ℚ) :
    |toDigits b p q - q| ≤ |q| * (b : ℚ) ^ (1 - p : ℤ) / 2 := by
  by_cases hq : q = 0
  · simp [toDigits, hq]
  · unfold toDigits
    rw [if_neg hq]
    calc |toGrid (ulp b p q) q - q| ≤ ulp b p q / 2 := abs_toGrid_sub_le (ulp_pos hb p q) q
      _ ≤ |q| * (b : ℚ) ^ (1 - p : ℤ) / 2 := by linarith [ulp_le hb p hq]

theorem toDigits_nonneg (hb : 1 < b) (p : ℕ) (hq : 0 ≤ q) : 0 ≤ toDigits b p q := by
  unfold toDigits
  split
  · exact le_refl 0
  · exact le_toGrid (ulp_pos hb p q) (.zero _) hq

variable {p : ℕ}

theorem toDigits_of_ne (hq : q ≠ 0) : toDigits b p q = toGrid (ulp b p q) q :=
  if_neg hq

theorem onGrid_zpow_log (hb : 1 < b) (hp : 1 ≤ p) (q : ℚ) : OnGrid (ulp b p q) ((b : ℚ) ^ log b |q|) := by
  have hb0 : (b : ℚ) ≠ 0 := by exact_mod_cast (by omega : b ≠ 0)
  refine ⟨(b : ℤ) ^ (p - 1), ?_⟩
  rw [ulp, cast_pow, cast_natCast, ← zpow_natCast, ← zpow_add₀ hb0]
  congr 1
  omega

theorem zpow_le_toDigits (hb : 1 < b) (hp : 1 ≤ p) (hq : 0 < q) : (b : ℚ) ^ log b |q| ≤ toDigits b p q := by
  rw [toDigits_of_ne hq.ne']
  refine le_toGrid (ulp_pos hb p q) (onGrid_zpow_log hb hp q) ?_
  rw [abs_of_pos hq]
  exact zpow_log_le_self hb hq

theorem toDigits_le_neg_zpow (hb : 1 < b) (hp : 1 ≤ p) (hq : q < 0) : toDigits b p q ≤ -(b : ℚ) ^ log b |q| := by
  rw [toDigits_of_ne hq.ne]
  refine toGrid_le (ulp_pos hb p q) (onGrid_zpow_log hb hp q).neg ?_
  have hlog := zpow_log_le_self hb (abs_pos.mpr hq.ne)
  rw [abs_of_neg hq] at hlog ⊢
  linarith

/-- **Few enough digits are kept as they are**: a multiple of `b ^ e` below `b ^ (e + p)` is
    returned unchanged. -/
theorem toDigits_of_onGrid (hb : 1 < b) {e : ℤ}
    (hgrid : OnGrid ((b : ℚ) ^ e) q) (hlt : |q| < (b : ℚ) ^ (e + p)) : toDigits b p q = q := by
  have hb0 : (b : ℚ) ≠ 0 := by exact_mod_cast (by omega : b ≠ 0)
  by_cases hq : q = 0
  · simp [toDigits, hq]
  · have hlog : log b |q| < e + p := (lt_zpow_iff_log_lt hb (abs_pos.mpr hq)).mp hlt
    obtain ⟨n, hn⟩ := hgrid
    -- the grid of the last kept digit is at least as fine as the grid `q` lies on
    obtain ⟨k, hk⟩ : ∃ k : ℕ, e = (log b |q| - p + 1) + k :=
      ⟨(e - (log b |q| - p + 1)).toNat, by omega⟩
    unfold toDigits
    rw [if_neg hq]
    refine toGrid_of_onGrid (ulp_pos hb p q).ne' ⟨n * (b : ℤ) ^ k, ?_⟩
    have hpow : (b : ℚ) ^ e = (b : ℚ) ^ k * ulp b p q := by
      rw [ulp, hk, zpow_add₀ hb0, zpow_natCast, mul_comm]
    calc q = n * (b : ℚ) ^ e := hn
      _ = n * ((b : ℚ) ^ k * ulp b p q) := by rw [hpow]
      _ = ((n * (b : ℤ) ^ k : ℤ) : ℚ) * ulp b p q := by push_cast; ring

/-- `q`, a multiple of `u`, has a coefficient of at most `p` decimal digits on that grid. -/
def fitsDigits (p : ℕ) (u q : ℚ) : Bool := decide (|q / u| < 10 ^ p)

/-! ## Rounding what has been shifted by an integer -/

end Rounding
