import TradingEngine.Amm.Price
import TradingEngine.Base.Saturating

/-!
# The price of a time average

The samples still to come are a walk from the price now, and a table gives the chance that the average ends over the
strike.
-/

namespace TradingEngine.Twap

open Base Finset

def secNs : Int := 1000000000

def twapSamples : Int := 60

def latePhiPoints : Nat := 4097

def latePhiStep1e6 : Int := 2000

def lateZClamp1e6 : Int := 8192000

/-- The entries below `latePhiPoints` are read. -/
structure LateLut where
  phi : Nat → Nat

def LateLut.flat : LateLut := ⟨fun _ => 500000⟩

def LateLut.phi1e6 (lut : LateLut) (z : Int) : Int :=
  let idx := (z / latePhiStep1e6).toNat
  if latePhiPoints - 1 ≤ idx then lut.phi (latePhiPoints - 1)
  else lut.phi idx + (lut.phi (idx + 1) - lut.phi idx) * (z - idx * latePhiStep1e6) / latePhiStep1e6

def zClamp (z : Int) : Int := max (-lateZClamp1e6) (min z lateZClamp1e6)

def LateLut.pOfZ (lut : LateLut) (z : Int) : Int :=
  if 0 ≤ zClamp z then lut.phi1e6 (zClamp z) else 1000000 - lut.phi1e6 (-zClamp z)

def isqrtI128 (v : Int) : Int :=
  if v ≤ 0 then 0 else if v < 4 then 1 else min (Amm.newtonRoot v.toNat (v.toNat / 2 + 1)) i64Max

def trapTailVar4Ns (n aNs : Int) : Int :=
  if n ≤ 0 then 0
  else
    let m := n - 1
    4 * (aNs * m * m + (m * (m - 1) * (2 * m - 1) / 6) * secNs + m * aNs + (m * (m - 1) / 2) * secNs) + aNs + m * secNs

/-- The variance of the sum of the samples to come. -/
def walkVarNs (n aNs : Int) : Int := aNs * n * n + (n * (n - 1) * (2 * n - 1) / 6) * secNs

/-- The product wraps where it does not fit. -/
def sd1e6 (n aNs mNow sigma k1e3 : Int) : Int :=
  (k1e3 * sigma * mNow * isqrtI128 (walkVarNs n aNs / 3600 * 1000000000)).bmod (2 ^ 128) / 10 ^ 21

def zOf (sd num : Int) : Int :=
  if 0 < sd then zClamp (num * 1000000 / (twapSamples * sd))
  else if 0 ≤ num then lateZClamp1e6
  else -lateZClamp1e6

structure LateFair where
  pYes1e6 : Int
  z1e6 : Int
  sigma1e9 : Int
  basis1e9 : Int
  mNow1e6 : Int
  nObs : Nat

def priceTwap (lut : LateLut) (obs : Int) (nObs : Nat) (aNs mNow sigma basis k1e3 strike1e6 : Int) : LateFair :=
  let n := twapSamples - nObs
  let z := zOf (sd1e6 n aNs mNow sigma k1e3) (obs + n * mNow - twapSamples * strike1e6)
  ⟨lut.pOfZ z, z, sigma, basis, i64Wrap mNow, nObs⟩

def label (aNs : Int) (k : Nat) : Int := aNs + k * secNs

/-- One, but for the last of `n`. -/
def weight (n k : Nat) : ℚ := if k + 1 = n then 1 / 2 else 1

theorem square_succ {R : Type*} [CommRing R] (f : Nat → Nat → R) (n : Nat) :
    ∑ i ∈ range (n + 1), ∑ j ∈ range (n + 1), f i j =
      ∑ i ∈ range n, ∑ j ∈ range n, f i j + ∑ i ∈ range n, f i n + ∑ j ∈ range n, f n j + f n n := by
  simp only [sum_range_succ, sum_add_distrib]
  ring

theorem min_label {aNs : Int} {i n : Nat} (earlier : i < n) :
    min (label aNs i) (label aNs n) = label aNs i ∧ min (label aNs n) (label aNs i) = label aNs i := by
  unfold label secNs
  omega

variable (aNs : Int) (n : Nat)

theorem sum_label : ∑ i ∈ range n, label aNs i = n * aNs + ((n : Int) * (n - 1) / 2) * secNs := by
  induction n with
  | zero => simp
  | succ n ih =>
    have next : ((n : Int) + 1) * (n + 1 - 1) / 2 = n * (n - 1) / 2 + n := by
      rw [show ((n : Int) + 1) * (n + 1 - 1) = n * (n - 1) + n * 2 by ring, Int.add_mul_ediv_right _ _ two_ne_zero]
    rw [sum_range_succ, ih, Nat.cast_succ, next, label]
    ring

theorem sum_walk : ∑ i ∈ range n, ∑ j ∈ range n, min (label aNs i) (label aNs j) = walkVarNs n aNs := by
  induction n with
  | zero => simp [walkVarNs]
  | succ n ih =>
    have next : ((n : Int) + 1) * (n + 1 - 1) * (2 * (n + 1) - 1) / 6 = n * (n - 1) * (2 * n - 1) / 6 + n * n := by
      rw [show ((n : Int) + 1) * (n + 1 - 1) * (2 * (n + 1) - 1) = n * (n - 1) * (2 * n - 1) + n * n * 6 by ring,
        Int.add_mul_ediv_right _ _ (by decide)]
    have even : (n : Int) * (n - 1) / 2 * 2 = n * (n - 1) := Int.ediv_mul_cancel (Int.even_mul_pred_self _).two_dvd
    rw [square_succ, ih, sum_congr rfl fun i less => (min_label (mem_range.mp less)).1,
      sum_congr rfl fun i less => (min_label (mem_range.mp less)).2, sum_label, min_self, Nat.cast_succ, walkVarNs, walkVarNs,
      next, label]
    linear_combination secNs * even

theorem sum_trap :
    (trapTailVar4Ns n aNs : ℚ) =
      4 * ∑ i ∈ range n, ∑ j ∈ range n, weight n i * weight n j * (min (label aNs i) (label aNs j) : Int) := by
  cases n with
  | zero => simp [trapTailVar4Ns]
  | succ m =>
    have inner : ∀ i ∈ range m, weight (m + 1) i = 1 := fun i less => if_neg (by have := mem_range.mp less; omega)
    have last : weight (m + 1) m = 1 / 2 := if_pos rfl
    have square : ∑ i ∈ range m, ∑ j ∈ range m, weight (m + 1) i * weight (m + 1) j * (min (label aNs i) (label aNs j) : Int)
        = (walkVarNs m aNs : ℚ) := by
      rw [← sum_walk, Int.cast_sum]
      refine sum_congr rfl fun i less => ?_
      rw [Int.cast_sum]
      exact sum_congr rfl fun j less' => by rw [inner i less, inner j less', one_mul, one_mul]
    have column : ∑ i ∈ range m, weight (m + 1) i * weight (m + 1) m * (min (label aNs i) (label aNs m) : Int) =
        1 / 2 * (∑ i ∈ range m, label aNs i : Int) := by
      rw [Int.cast_sum, mul_sum]
      exact sum_congr rfl fun i less => by rw [inner i less, last, (min_label (mem_range.mp less)).1, one_mul]
    have row : ∑ j ∈ range m, weight (m + 1) m * weight (m + 1) j * (min (label aNs m) (label aNs j) : Int) =
        1 / 2 * (∑ i ∈ range m, label aNs i : Int) := by
      rw [← column]
      exact sum_congr rfl fun j _ => by rw [min_comm, mul_comm (weight _ m)]
    have formula : trapTailVar4Ns (m + 1 : Nat) aNs = 4 * (walkVarNs m aNs + ∑ i ∈ range m, label aNs i) + label aNs m := by
      rw [trapTailVar4Ns, if_neg (by omega), sum_label, walkVarNs, label, Nat.cast_succ, Int.add_sub_cancel]
      ring
    rw [square_succ, square, column, row, last, min_self, formula]
    push_cast
    ring

/-- A table that never falls, of values no less than one half. -/
structure LateLut.Proper (lut : LateLut) : Prop where
  rises : ∀ i, i + 1 < latePhiPoints → lut.phi i ≤ lut.phi (i + 1)
  half : ∀ i < latePhiPoints, 500000 ≤ lut.phi i

namespace LateLut.Proper

variable {lut : LateLut} {z z' : Int}

section

variable (proper : lut.Proper)

include proper

theorem phi_le {i j : Nat} (order : i ≤ j) (inside : j < latePhiPoints) : lut.phi i ≤ lut.phi j := by
  induction j, order using Nat.le_induction with
  | base => exact le_rfl
  | succ j _ ih => exact (ih (by omega)).trans (proper.rises j inside)

theorem phi1e6_between (nonneg : 0 ≤ z) {i : Nat} (cell : (z / latePhiStep1e6).toNat = i) :
    (lut.phi (min i (latePhiPoints - 1)) ≤ lut.phi1e6 z) ∧ (i + 1 < latePhiPoints → lut.phi1e6 z ≤ lut.phi (i + 1)) := by
  unfold phi1e6
  dsimp only
  rw [cell]
  split
  · rename_i past
    rw [min_eq_right past]
    exact ⟨le_rfl, by omega⟩
  rename_i inside
  have step := proper.rises i (by omega)
  rw [min_eq_left (by omega)]
  unfold latePhiStep1e6 at *
  have low : 0 ≤ ((lut.phi (i + 1) : Int) - lut.phi i) * (z - i * 2000) := Int.mul_nonneg (by omega) (by omega)
  have high : ((lut.phi (i + 1) : Int) - lut.phi i) * (z - i * 2000) ≤ (lut.phi (i + 1) - lut.phi i) * 2000 :=
    Int.mul_le_mul_of_nonneg_left (by omega) (by omega)
  omega

theorem phi1e6_mono (nonneg : 0 ≤ z) (order : z ≤ z') : lut.phi1e6 z ≤ lut.phi1e6 z' := by
  obtain ⟨i, cell⟩ : ∃ i, (z / latePhiStep1e6).toNat = i := ⟨_, rfl⟩
  obtain ⟨j, cell'⟩ : ∃ j, (z' / latePhiStep1e6).toNat = j := ⟨_, rfl⟩
  have cells : i ≤ j := cell ▸ cell' ▸ Int.toNat_le_toNat (Int.ediv_le_ediv (by decide) order)
  by_cases past : latePhiPoints - 1 ≤ i
  · simp only [phi1e6, cell, cell', if_pos past, if_pos (past.trans cells), le_refl]
  rcases Nat.eq_or_lt_of_le cells with rfl | apart
  · have step := proper.rises i (by omega)
    simp only [phi1e6, cell, cell', if_neg past]
    refine Int.add_le_add_left (Int.ediv_le_ediv (by decide) ?_) _
    exact Int.mul_le_mul_of_nonneg_left (by omega) (by omega)
  · have upper := (proper.phi1e6_between nonneg cell).2 (by omega)
    have lower := (proper.phi1e6_between (nonneg.trans order) cell').1
    have between := proper.phi_le (show i + 1 ≤ min j (latePhiPoints - 1) by omega) (by unfold latePhiPoints; omega)
    omega

theorem half_le (nonneg : 0 ≤ z) : 500000 ≤ lut.phi1e6 z := by
  have lower := (proper.phi1e6_between nonneg rfl).1
  have half := proper.half (min (z / latePhiStep1e6).toNat (latePhiPoints - 1)) (by unfold latePhiPoints; omega)
  omega

theorem pOfZ_mono (order : z ≤ z') : lut.pOfZ z ≤ lut.pOfZ z' := by
  have clamped : zClamp z ≤ zClamp z' := by
    unfold zClamp
    omega
  unfold pOfZ
  split <;> split
  · exact proper.phi1e6_mono (by assumption) clamped
  · omega
  · have low := proper.half_le (show 0 ≤ -zClamp z by omega)
    have high := proper.half_le (show 0 ≤ zClamp z' by omega)
    omega
  · have := proper.phi1e6_mono (show 0 ≤ -zClamp z' by omega) (show -zClamp z' ≤ -zClamp z by omega)
    omega

end

end LateLut.Proper

theorem pOfZ_neg {lut : LateLut} {z : Int} (away : z ≠ 0 ∨ lut.phi 0 = 500000) :
    lut.pOfZ z + lut.pOfZ (-z) = 1000000 := by
  have negated : zClamp (-z) = -zClamp z := by
    unfold zClamp lateZClamp1e6
    omega
  have zero : zClamp z = 0 → z = 0 := by
    unfold zClamp lateZClamp1e6
    omega
  unfold LateLut.pOfZ
  rw [negated, neg_neg]
  rcases lt_trichotomy (zClamp z) 0 with below | middle | above
  · rw [if_neg (by omega), if_pos (by omega)]
    omega
  · have half := away.resolve_left (not_not.mpr (zero middle))
    rw [middle]
    simp [LateLut.phi1e6, half, latePhiPoints]
  · rw [if_pos (by omega), if_neg (by omega)]
    omega

theorem zOf_mono (sd : Int) {num num' : Int} (order : num ≤ num') : zOf sd num ≤ zOf sd num' := by
  unfold zOf
  split
  · rename_i positive
    have ratio := Int.ediv_le_ediv (c := twapSamples * sd) (Int.mul_pos (by decide) positive)
      (Int.mul_le_mul_of_nonneg_right order (show (0 : Int) ≤ 1000000 by decide))
    unfold zClamp
    omega
  · unfold lateZClamp1e6
    omega

end TradingEngine.Twap
