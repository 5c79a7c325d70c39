import TradingEngine.Base.Run

/-!
# Relative errors

A value is near another when it is off by at most a number of relative errors of one size.
-/

namespace TradingEngine.Base

structure Near (δ : ℝ) (m : ℕ) (x y : ℝ) : Prop where
  lower : y * (1 - δ) ^ m ≤ x
  upper : x ≤ y * (1 + δ) ^ m

section Near

variable {δ x x' y y' : ℝ} {m n : ℕ}

theorem Near.refl (δ y : ℝ) : Near δ 0 y y := ⟨by simp, by simp⟩

theorem Near.mono (small : 0 ≤ δ) (part : δ ≤ 1) (nonneg : 0 ≤ y) (near : Near δ m x y) (le : m ≤ n) : Near δ n x y := by
  obtain ⟨lower, upper⟩ := near
  constructor
  · refine le_trans (mul_le_mul_of_nonneg_left ?_ nonneg) lower
    exact pow_le_pow_of_le_one (by linarith) (by linarith) le
  · refine upper.trans (mul_le_mul_of_nonneg_left ?_ nonneg)
    exact pow_le_pow_right₀ (by linarith) le

theorem Near.nonneg (part : δ ≤ 1) (nonneg : 0 ≤ y) (near : Near δ m x y) : 0 ≤ x :=
  (mul_nonneg nonneg (pow_nonneg (by linarith) m)).trans near.lower

theorem Near.mul (small : 0 ≤ δ) (part : δ ≤ 1) (nonneg : 0 ≤ y) (nonneg' : 0 ≤ y') (first : Near δ m x y)
    (second : Near δ n x' y') : Near δ (m + n) (x * x') (y * y') := by
  have left := first.nonneg part nonneg
  have right := second.nonneg part nonneg'
  have low : ∀ k : ℕ, 0 ≤ (1 - δ) ^ k := fun k => pow_nonneg (by linarith) k
  have high : ∀ k : ℕ, 0 ≤ (1 + δ) ^ k := fun k => pow_nonneg (by linarith) k
  constructor
  · calc y * y' * (1 - δ) ^ (m + n) = y * (1 - δ) ^ m * (y' * (1 - δ) ^ n) := by ring
      _ ≤ x * x' := mul_le_mul first.lower second.lower (mul_nonneg nonneg' (low n)) left
  · calc x * x' ≤ y * (1 + δ) ^ m * (y' * (1 + δ) ^ n) :=
          mul_le_mul first.upper second.upper right (mul_nonneg nonneg (high m))
      _ = y * y' * (1 + δ) ^ (m + n) := by ring

theorem Near.trans (small : 0 ≤ δ) (part : δ ≤ 1) {z : ℝ} (first : Near δ m x y) (second : Near δ n y z) :
    Near δ (m + n) x z := by
  have low : 0 ≤ (1 - δ) ^ m := pow_nonneg (by linarith) m
  have high : 0 ≤ (1 + δ) ^ m := pow_nonneg (by linarith) m
  constructor
  · calc z * (1 - δ) ^ (m + n) = z * (1 - δ) ^ n * (1 - δ) ^ m := by ring
      _ ≤ y * (1 - δ) ^ m := mul_le_mul_of_nonneg_right second.lower low
      _ ≤ x := first.lower
  · calc x ≤ y * (1 + δ) ^ m := first.upper
      _ ≤ z * (1 + δ) ^ n * (1 + δ) ^ m := mul_le_mul_of_nonneg_right second.upper high
      _ = z * (1 + δ) ^ (m + n) := by ring

theorem Near.div {a b : ℕ} (large : 1 ≤ δ * (a / b : ℝ)) : Near δ 1 ((a / b : ℕ) : ℝ) (a / b : ℝ) := by
  have below : ((a / b : ℕ) : ℝ) ≤ (a / b : ℝ) := Nat.cast_div_le
  have above : (a / b : ℝ) < ((a / b : ℕ) : ℝ) + 1 := by
    have := Nat.lt_floor_add_one (a / b : ℝ)
    rwa [Nat.floor_div_eq_div] at this
  have nonneg : (0 : ℝ) ≤ a / b := by positivity
  have reach : 0 ≤ δ * (a / b : ℝ) := by linarith
  constructor
  · linarith
  · linarith

theorem one_sub_le_pow (part : δ ≤ 1) (m : ℕ) : 1 - m * δ ≤ (1 - δ) ^ m := by
  have := one_add_mul_le_pow (show (-2 : ℝ) ≤ -δ by linarith) m
  calc 1 - m * δ = 1 + m * -δ := by ring
    _ ≤ (1 + -δ) ^ m := this
    _ = (1 - δ) ^ m := by ring

theorem pow_le_one_add (small : 0 ≤ δ) (few : m * δ ≤ 1 / 2) : (1 + δ) ^ m ≤ 1 + 2 * (m * δ) := by
  rcases Nat.eq_zero_or_pos m with rfl | some
  · simp
  have part : δ ≤ 1 := by
    have : (1 : ℝ) ≤ m := by exact_mod_cast some
    nlinarith
  have below := one_sub_le_pow part m
  have product : (1 + δ) ^ m * (1 - δ) ^ m ≤ 1 := by
    rw [← mul_pow]
    exact pow_le_one₀ (mul_nonneg (by linarith) (by linarith)) (by nlinarith)
  have positive : 0 ≤ (1 + δ) ^ m := pow_nonneg (by linarith) m
  have bounded : (1 + δ) ^ m * (1 - m * δ) ≤ 1 := (mul_le_mul_of_nonneg_left below positive).trans product
  have room : 1 ≤ (1 + 2 * (m * δ)) * (1 - m * δ) := by
    have := mul_nonneg (mul_nonneg (Nat.cast_nonneg m) small) (by linarith : (0 : ℝ) ≤ 1 - 2 * (m * δ))
    nlinarith
  exact le_of_mul_le_mul_right (bounded.trans room) (by linarith)

end Near

end TradingEngine.Base
