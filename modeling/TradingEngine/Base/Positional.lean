import Mathlib

/-!
# Positional numbers

The value of the first limbs of a number written in any radix, least first, and the estimate of one digit of a
quotient from the leading limbs.
-/

namespace TradingEngine.Base

open Finset Function

section Value

variable {B : ℕ} {f g : ℕ → ℕ} {n k x : ℕ}

def value (B : ℕ) (f : ℕ → ℕ) (n : ℕ) : ℕ := ∑ i ∈ range n, f i * B ^ i

@[simp] theorem value_zero : value B f 0 = 0 := rfl

theorem value_succ (B : ℕ) (f : ℕ → ℕ) (n : ℕ) : value B f (n + 1) = value B f n + f n * B ^ n := sum_range_succ _ n

theorem value_congr (same : ∀ i < n, f i = g i) : value B f n = value B g n :=
  sum_congr rfl fun i member => by rw [same i (mem_range.mp member)]

theorem value_add (B : ℕ) (f : ℕ → ℕ) (m n : ℕ) :
    value B f (m + n) = value B f m + B ^ m * value B (fun i => f (m + i)) n := by
  induction n with
  | zero => rfl
  | succ n ih =>
    rw [← Nat.add_assoc, value_succ, ih, value_succ, Nat.mul_add, pow_add]
    ring

theorem value_lt (digits : ∀ i < n, f i < B) : value B f n < B ^ n := by
  induction n with
  | zero => exact Nat.one_pos
  | succ n ih =>
    have low := ih fun i less => digits i (by omega)
    have top := Nat.mul_le_mul_right (B ^ n) (Nat.succ_le_of_lt (digits n (by omega)))
    rw [value_succ, pow_succ, Nat.mul_comm (B ^ n)]
    rw [Nat.succ_mul] at top
    omega

theorem value_limbs (B a n : ℕ) : value B (fun i => a / B ^ i % B) n = a % B ^ n := by
  induction n with
  | zero => rw [value_zero, pow_zero, Nat.mod_one]
  | succ n ih => rw [value_succ, ih, Nat.mod_pow_succ, Nat.mul_comm (B ^ n)]

theorem value_update_of_le (le : n ≤ k) : value B (update f k x) n = value B f n :=
  value_congr fun i less => update_of_ne (by omega) _ _

theorem value_eq_zero (zero : ∀ i < n, f i = 0) : value B f n = 0 :=
  sum_eq_zero fun i member => by rw [zero i (mem_range.mp member), Nat.zero_mul]

theorem value_of_clear (le : k ≤ n) (clear : ∀ i < n, k ≤ i → f i = 0) : value B f n = value B f k := by
  obtain ⟨rest, rfl⟩ := Nat.exists_eq_add_of_le le
  rw [value_add, value_eq_zero fun i less => clear (k + i) (by omega) (Nat.le_add_right k i), Nat.mul_zero, Nat.add_zero]

theorem le_value (B : ℕ) (f : ℕ → ℕ) (inside : k < n) : f k * B ^ k ≤ value B f n :=
  single_le_sum (f := fun i => f i * B ^ i) (fun _ _ => Nat.zero_le _) (mem_range.mpr inside)

end Value

section Estimate

variable {U V num top S : ℕ}

theorem le_estimate (numerator : num = U / S) (divisor : top * S ≤ V) (positive : 0 < top) (place : 0 < S) :
    U / V ≤ num / top := by
  rw [numerator, Nat.div_div_eq_div_mul, Nat.mul_comm S]
  exact Nat.div_le_div_left divisor (Nat.mul_pos positive place)

theorem estimate_le {B : ℕ} (numerator : num = U / S) (divisor : V < (top + 1) * S) (normal : B ≤ 2 * top)
    (small : num / top ≤ B + 2) (some_divisor : 0 < V) : num / top ≤ U / V + 2 := by
  rcases Nat.lt_or_ge (num / top) 2 with less | more
  · exact less.le.trans (Nat.le_add_left 2 _)
  obtain ⟨q, sum⟩ := Nat.exists_eq_add_of_le' more
  have low : num * S ≤ U := by
    rw [numerator]
    exact Nat.div_mul_le_self U S
  have part : (q + 2) * top ≤ num := by
    rw [← sum]
    exact Nat.div_mul_le_self num top
  rw [sum]
  refine Nat.add_le_add_right ((Nat.le_div_iff_mul_le some_divisor).mpr ?_) 2
  calc q * V ≤ q * ((top + 1) * S) := Nat.mul_le_mul_left q divisor.le
    _ = (q * top + q) * S := by ring
    _ ≤ (q + 2) * top * S := Nat.mul_le_mul_right S (by rw [Nat.add_mul]; omega)
    _ ≤ num * S := Nat.mul_le_mul_right S part
    _ ≤ U := low

variable {B next low qhat T : ℕ}

theorem lt_of_refuted (window : U < (num * B + low + 1) * T) (divisor : (top * B + next) * T ≤ V)
    (refuted : num * B + low < qhat * (top * B + next)) (some_divisor : 0 < V) : U / V < qhat := by
  rw [Nat.div_lt_iff_lt_mul some_divisor]
  calc U < (num * B + low + 1) * T := window
    _ ≤ qhat * (top * B + next) * T := Nat.mul_le_mul_right T refuted
    _ = qhat * ((top * B + next) * T) := Nat.mul_assoc _ _ _
    _ ≤ qhat * V := Nat.mul_le_mul_left qhat divisor

theorem le_of_unrefuted (window : (num * B + low) * T ≤ U) (divisor : top * B * T ≤ V)
    (rest : V < (top * B + next + 1) * T) (unrefuted : qhat * (top * B + next) ≤ num * B + low) (digit : qhat ≤ top * B)
    (some_divisor : 0 < V) : qhat ≤ U / V + 1 := by
  rcases Nat.eq_zero_or_pos qhat with rfl | positive
  · exact Nat.zero_le _
  obtain ⟨q, rfl⟩ := Nat.exists_eq_add_of_le' positive
  refine Nat.add_le_add_right ((Nat.le_div_iff_mul_le some_divisor).mpr ?_) 1
  have whole : (q + 1) * V ≤ U + (q + 1) * T := by
    calc (q + 1) * V ≤ (q + 1) * ((top * B + next + 1) * T) := Nat.mul_le_mul_left _ rest.le
      _ = (q + 1) * (top * B + next) * T + (q + 1) * T := by ring
      _ ≤ (num * B + low) * T + (q + 1) * T := Nat.add_le_add_right (Nat.mul_le_mul_right T unrefuted) _
      _ ≤ U + (q + 1) * T := Nat.add_le_add_right window _
  have covered : (q + 1) * T ≤ V := (Nat.mul_le_mul_right T digit).trans divisor
  rw [Nat.succ_mul] at whole
  omega

end Estimate

end TradingEngine.Base
