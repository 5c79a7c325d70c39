import Mathlib

/-!
# Saturating and wrapping words

Signed 64-bit values are integers.
-/

namespace TradingEngine.Base

def i64Max : Int := 9223372036854775807

def i64Min : Int := -9223372036854775808

def u16Size : Nat := 65536

def u32Max : Nat := 4294967295

def u64Max : Nat := 18446744073709551615

def u64Size : Nat := 18446744073709551616

def i64Clamp (x : Int) : Int := max i64Min (min x i64Max)

def satAdd (a b : Int) : Int := i64Clamp (a + b)

def satSub (a b : Int) : Int := i64Clamp (a - b)

/-- `saturating_abs`: the least value has no negation, so it becomes the largest. -/
def satAbs (a : Int) : Int := i64Clamp |a|

def i64Wrap (x : Int) : Int := (x - i64Min) % 18446744073709551616 + i64Min

def bump (top n : Nat) : Nat := min (n + 1) top

def InI64 (x : Int) : Prop := i64Min ≤ x ∧ x ≤ i64Max

instance (x : Int) : Decidable (InI64 x) := inferInstanceAs (Decidable (_ ∧ _))

theorem clamp_inI64 (x : Int) : InI64 (i64Clamp x) := by
  simp only [InI64, i64Clamp, i64Min, i64Max]; omega

theorem clamp_of_inI64 {x : Int} (fits : InI64 x) : i64Clamp x = x := by
  simp only [InI64, i64Clamp, i64Min, i64Max] at *; omega

theorem wrap_of_inI64 {x : Int} (fits : InI64 x) : i64Wrap x = x := by
  simp only [InI64, i64Wrap, i64Min, i64Max] at *; omega

theorem satAdd_inI64 (a b : Int) : InI64 (satAdd a b) := clamp_inI64 _

theorem satSub_inI64 (a b : Int) : InI64 (satSub a b) := clamp_inI64 _

theorem satAdd_exact {a b : Int} (fits : InI64 (a + b)) : satAdd a b = a + b := clamp_of_inI64 fits

theorem satSub_exact {a b : Int} (fits : InI64 (a - b)) : satSub a b = a - b := clamp_of_inI64 fits

theorem le_satAdd {a b : Int} (fits : a ≤ i64Max) (nonneg : 0 ≤ b) : a ≤ satAdd a b := by
  simp only [satAdd, i64Clamp, i64Min, i64Max] at *; omega

theorem satAdd_of_nonneg {a b : Int} (ha : 0 ≤ a) (hb : 0 ≤ b) : satAdd a b = min (a + b) i64Max := by
  simp only [satAdd, i64Clamp, i64Min, i64Max]; omega

theorem satAdd_mono {a a' b b' : Int} (ha : a ≤ a') (hb : b ≤ b') : satAdd a b ≤ satAdd a' b' := by
  simp only [satAdd, i64Clamp, i64Min, i64Max]; omega

theorem satSub_covers {u sum old : Int} (covered : sum ≤ u) (top : u ≤ i64Max) (nonneg : 0 ≤ old) (part : old ≤ sum) :
    sum - old ≤ satSub u old ∧ satSub u old ≤ i64Max ∧ (u = sum → satSub u old = sum - old) := by
  simp only [satSub, i64Clamp, i64Min, i64Max] at *; omega

theorem satAdd_covers {u sum new : Int} (covered : sum ≤ u) (start : 0 ≤ sum) (nonneg : 0 ≤ new)
    (fits : sum + new ≤ i64Max) :
    sum + new ≤ satAdd u new ∧ satAdd u new ≤ i64Max ∧ (u = sum → satAdd u new = sum + new) := by
  simp only [satAdd, i64Clamp, i64Min, i64Max] at *; omega

theorem satAbs_nonneg (a : Int) : 0 ≤ satAbs a := by
  have := abs_nonneg a
  simp only [satAbs, i64Clamp, i64Min, i64Max]; omega

theorem satAbs_le (a : Int) : satAbs a ≤ |a| := by
  have := abs_nonneg a
  simp only [satAbs, i64Clamp, i64Min, i64Max]; omega

theorem bump_le {top n : Nat} (h : n ≤ top) : bump top n ≤ top := by
  simp only [bump]; omega

theorem bump_of_lt {top n : Nat} (h : n < top) : bump top n = n + 1 := by
  simp only [bump]; omega

end TradingEngine.Base
