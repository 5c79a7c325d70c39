import TradingEngine.Base.Run

/-!
# Quotients rounded up and down

The two roundings of a quotient of naturals by their adjunctions with the product.
-/

namespace TradingEngine.Base

variable {x y d e k : ℕ}

theorem le_ceilDiv_mul (positive : 0 < d) : x ≤ d * (x ⌈/⌉ d) := (ceilDiv_le_iff_le_mul positive).mp le_rfl

theorem lt_ceilDiv_iff (positive : 0 < d) : k < x ⌈/⌉ d ↔ d * k < x := by
  rw [← not_le, ceilDiv_le_iff_le_mul positive, not_le]

theorem ceilDiv_ceilDiv (positive : 0 < d) (positive' : 0 < e) : (x ⌈/⌉ d) ⌈/⌉ e = x ⌈/⌉ (d * e) := by
  refine eq_of_forall_ge_iff fun k => ?_
  rw [ceilDiv_le_iff_le_mul positive', ceilDiv_le_iff_le_mul positive,
    ceilDiv_le_iff_le_mul (Nat.mul_pos positive positive'), Nat.mul_assoc]

theorem ceilDiv_eq_div (positive : 0 < d) : x ⌈/⌉ d = if x % d = 0 then x / d else x / d + 1 := by
  have split := Nat.div_add_mod x d
  have less := Nat.mod_lt x positive
  refine eq_of_forall_ge_iff fun k => ?_
  rw [ceilDiv_le_iff_le_mul positive]
  split_ifs with whole
  · rw [Nat.div_le_iff_le_mul_add_pred positive]
    constructor
    · omega
    intro le
    have : d * (x / d) < d * (k + 1) := by rw [Nat.mul_add]; omega
    have := Nat.lt_of_mul_lt_mul_left this
    calc x = d * (x / d) := by omega
      _ ≤ d * k := Nat.mul_le_mul_left d (by omega)
  · rw [Nat.succ_le_iff, Nat.div_lt_iff_lt_mul positive, Nat.mul_comm k d]
    constructor
    · intro le
      rcases Nat.lt_or_eq_of_le le with lt | rfl
      · exact lt
      · simp at whole
    · exact Nat.le_of_lt

theorem div_le_ceilDiv : x / d ≤ x ⌈/⌉ d := floorDiv_le_ceilDiv (α := ℕ) (β := ℕ)

end TradingEngine.Base
