import Mathlib.Data.Int.Log
import Mathlib.Data.Rat.Floor
import Mathlib.Tactic.Linarith

/-!
# Binary floating point

A finite value of `f64` is a rational number, and an operation of `f64` is the exact operation followed
by the rounding to 53 significant bits with ties to even. The exponent is not bounded here, so `f64` is
the rounding of the normal range.
-/

namespace Lib

/-! ## The nearest integer -/

/-- Ties go to the even neighbour. -/
def roundEven (x : ℚ) : ℤ :=
  let n := ⌊x⌋
  if x - n < 1 / 2 then n
  else if 1 / 2 < x - n then n + 1
  else if n % 2 = 0 then n else n + 1

theorem roundEven_intCast (n : ℤ) : roundEven n = n := by
  simp [roundEven]

theorem floor_le_roundEven (x : ℚ) : ⌊x⌋ ≤ roundEven x := by
  unfold roundEven
  dsimp only
  split_ifs <;> omega

theorem roundEven_le_floor_add_one (x : ℚ) : roundEven x ≤ ⌊x⌋ + 1 := by
  unfold roundEven
  dsimp only
  split_ifs <;> omega

theorem sub_half_le_roundEven (x : ℚ) : x - 1 / 2 ≤ roundEven x := by
  have hfloor := Int.lt_floor_add_one x
  unfold roundEven
  dsimp only
  split_ifs <;> push_cast <;> linarith

theorem roundEven_mono {x y : ℚ} (h : x ≤ y) : roundEven x ≤ roundEven y := by
  have hfloor : ⌊x⌋ ≤ ⌊y⌋ := Int.floor_mono h
  rcases hfloor.lt_or_eq with hlt | heq
  · have hx := roundEven_le_floor_add_one x
    have hy := floor_le_roundEven y
    omega
  · unfold roundEven
    dsimp only
    rw [← heq]
    split_ifs <;> first | omega | linarith

/-! ## The nearest multiple of a power of two -/

def roundAt (k : ℤ) (x : ℚ) : ℚ := roundEven (x / 2 ^ k) * 2 ^ k

theorem two_zpow_pos (k : ℤ) : (0 : ℚ) < 2 ^ k := zpow_pos two_pos k

theorem roundAt_mono {k : ℤ} {x y : ℚ} (h : x ≤ y) : roundAt k x ≤ roundAt k y := by
  have hpos := two_zpow_pos k
  refine mul_le_mul_of_nonneg_right (Int.cast_le.mpr (roundEven_mono ?_)) hpos.le
  exact div_le_div_of_nonneg_right h hpos.le

theorem roundAt_intCast_mul (n k : ℤ) : roundAt k (n * 2 ^ k) = n * 2 ^ k := by
  rw [roundAt, mul_div_cancel_right₀ _ (two_zpow_pos k).ne', roundEven_intCast]

theorem roundAt_zpow {k e : ℤ} (h : k ≤ e) : roundAt k (2 ^ e) = 2 ^ e := by
  obtain ⟨d, rfl⟩ := Int.le.dest h
  have hsplit : (2 : ℚ) ^ (k + d) = ((2 ^ d : ℤ) : ℚ) * 2 ^ k := by
    rw [zpow_add₀ two_ne_zero, mul_comm, zpow_natCast]
    push_cast
    rfl
  rw [hsplit, roundAt_intCast_mul]

theorem sub_le_roundAt (k : ℤ) (x : ℚ) : x - 2 ^ k / 2 ≤ roundAt k x := by
  have hpos := two_zpow_pos k
  have hround := mul_le_mul_of_nonneg_right (sub_half_le_roundEven (x / 2 ^ k)) hpos.le
  rw [sub_mul, div_mul_cancel₀ _ hpos.ne'] at hround
  unfold roundAt
  linarith

/-! ## 53 significant bits -/

def f64 (x : ℚ) : ℚ := roundAt (Int.log 2 |x| - 52) x

variable {x y : ℚ}

theorem f64_of_nonneg (hx : 0 ≤ x) : f64 x = roundAt (Int.log 2 x - 52) x := by
  rw [f64, abs_of_nonneg hx]

theorem f64_zero : f64 0 = 0 := by decide +kernel

theorem zpow_log_le_f64 (hx : 0 < x) : 2 ^ Int.log 2 x ≤ f64 x := by
  rw [f64_of_nonneg hx.le, ← roundAt_zpow (show Int.log 2 x - 52 ≤ Int.log 2 x by omega)]
  exact roundAt_mono (by exact_mod_cast Int.zpow_log_le_self one_lt_two hx)

theorem f64_le_zpow_log (hx : 0 < x) : f64 x ≤ 2 ^ (Int.log 2 x + 1) := by
  rw [f64_of_nonneg hx.le, ← roundAt_zpow (show Int.log 2 x - 52 ≤ Int.log 2 x + 1 by omega)]
  exact roundAt_mono (by exact_mod_cast (Int.lt_zpow_succ_log_self one_lt_two x).le)

/-- Rounding keeps the order. -/
theorem f64_mono (hx : 0 ≤ x) (h : x ≤ y) : f64 x ≤ f64 y := by
  rcases hx.eq_or_lt with rfl | hx
  · rcases h.eq_or_lt with rfl | hy
    · exact le_rfl
    · rw [f64_zero]
      exact (two_zpow_pos _).le.trans (zpow_log_le_f64 hy)
  · have hy := hx.trans_le h
    rcases (Int.log_mono_right hx h : Int.log 2 x ≤ Int.log 2 y).lt_or_eq with hlt | heq
    · -- a power of two lies between the two
      calc f64 x ≤ 2 ^ (Int.log 2 x + 1) := f64_le_zpow_log hx
        _ ≤ 2 ^ Int.log 2 y := zpow_le_zpow_right₀ one_le_two hlt
        _ ≤ f64 y := zpow_log_le_f64 hy
    · rw [f64_of_nonneg hx.le, f64_of_nonneg hy.le, heq]
      exact roundAt_mono h

theorem f64_nonneg (hx : 0 ≤ x) : 0 ≤ f64 x := by
  rw [← f64_zero]
  exact f64_mono le_rfl hx

/-- The relative error is at most `2 ^ -53`. -/
theorem sub_le_f64 (hx : 0 ≤ x) : x - x / 2 ^ 53 ≤ f64 x := by
  rcases hx.eq_or_lt with rfl | hx
  · norm_num [f64_zero]
  · have hround := sub_le_roundAt (Int.log 2 x - 52) x
    have hlog : (2 : ℚ) ^ Int.log 2 x ≤ x := by exact_mod_cast Int.zpow_log_le_self one_lt_two hx
    rw [zpow_sub₀ two_ne_zero] at hround
    rw [f64_of_nonneg hx.le]
    norm_num at hround ⊢
    linarith

/-- The integers up to `2 ^ 53` are exact. -/
theorem f64_natCast {n : ℕ} (h : n ≤ 2 ^ 53) : f64 n = n := by
  rcases h.eq_or_lt with rfl | hlt
  · decide +kernel
  · rw [f64_of_nonneg n.cast_nonneg, Int.log_natCast]
    obtain ⟨d, hd⟩ : ∃ d : ℕ, (Nat.log 2 n : ℤ) - 52 = -d := by
      have hlog := Nat.log_lt_of_lt_pow' (by norm_num) hlt
      exact ⟨52 - Nat.log 2 n, by omega⟩
    have hsplit : (n : ℚ) = ((n * 2 ^ d : ℤ) : ℚ) * 2 ^ (-d : ℤ) := by
      push_cast
      rw [mul_assoc, zpow_neg, zpow_natCast, mul_inv_cancel₀ (by positivity), mul_one]
    rw [hd, hsplit, roundAt_intCast_mul]

example : f64 (2 ^ 53 + 1) = 2 ^ 53 := by decide +kernel

end Lib
