import Mathlib

/-!
# Little-endian words

The number that the first `k` of a sequence of bytes write, the bytes of a number, and two's complement.
-/

namespace TradingEngine.Base

def word (f : Nat → UInt8) : Nat → Nat
  | 0 => 0
  | k + 1 => word f k + (f k).toNat * 256 ^ k

def byte (n j : Nat) : UInt8 := UInt8.ofNat (n / 256 ^ j)

variable {f g : Nat → UInt8} {k n m j : Nat}

theorem word_lt (f : Nat → UInt8) (k : Nat) : word f k < 256 ^ k := by
  induction k with
  | zero => simp [word]
  | succ k ih =>
    have top : (f k).toNat * 256 ^ k ≤ 255 * 256 ^ k := Nat.mul_le_mul_right _ (by have := (f k).toNat_lt; omega)
    rw [word, pow_succ]
    omega

theorem word_congr (same : ∀ j < k, f j = g j) : word f k = word g k := by
  induction k with
  | zero => rfl
  | succ k ih => rw [word, word, ih fun j before => same j (by omega), same k (by omega)]

theorem byte_toNat (n j : Nat) : (byte n j).toNat = n / 256 ^ j % 256 := UInt8.toNat_ofNat'

theorem word_byte (n k : Nat) : word (byte n) k = n % 256 ^ k := by
  induction k with
  | zero => simp [word, Nat.mod_one]
  | succ k ih => rw [word, ih, byte_toNat, pow_succ, Nat.mod_mul, mul_comm]

theorem byte_word (inside : j < k) : byte (word f k) j = f j := by
  induction k with
  | zero => exact absurd inside (Nat.not_lt_zero j)
  | succ k ih =>
    apply UInt8.toNat_inj.mp
    rw [byte_toNat, word]
    rcases Nat.lt_succ_iff_lt_or_eq.mp inside with before | rfl
    · have own := congrArg UInt8.toNat (ih before)
      rw [byte_toNat] at own
      obtain ⟨d, rfl⟩ := Nat.exists_eq_add_of_lt before
      rw [show (f (j + d + 1)).toNat * 256 ^ (j + d + 1) = 256 ^ j * (256 * ((f (j + d + 1)).toNat * 256 ^ d)) by ring,
        Nat.add_mul_div_left _ _ (by positivity), Nat.add_mul_mod_self_left, own]
    · have small := word_lt f j
      rw [Nat.add_mul_div_right _ _ (by positivity), Nat.div_eq_of_lt small, zero_add]
      exact Nat.mod_eq_of_lt (f j).toNat_lt

def bigEndian (bytes : List UInt8) : Nat := bytes.foldl (fun n b => n * 256 + b.toNat) 0

def bigEndianBytes : Nat → Nat → List UInt8
  | 0, _ => []
  | k + 1, n => byte n k :: bigEndianBytes k n

@[simp] theorem bigEndianBytes_length (k n : Nat) : (bigEndianBytes k n).length = k := by
  induction k with
  | zero => rfl
  | succ k ih => rw [bigEndianBytes, List.length_cons, ih]

theorem bigEndian_bytes (k n : Nat) : bigEndian (bigEndianBytes k n) = n % 256 ^ k := by
  have from_ : ∀ acc, (bigEndianBytes k n).foldl (fun n b => n * 256 + b.toNat) acc = acc * 256 ^ k + n % 256 ^ k := by
    induction k with
    | zero => intro acc; simp [bigEndianBytes, Nat.mod_one]
    | succ k ih =>
      intro acc
      rw [bigEndianBytes, List.foldl_cons, ih, byte_toNat, pow_succ, Nat.mod_mul]
      ring
  simpa [bigEndian] using from_ 0

/-- An integer modulo `m`, as the natural number that stands for it. -/
def toTwos (m : Nat) (z : Int) : Nat := (z % m).toNat

def ofTwos (m n : Nat) : Int := if 2 * n < m then n else (n : Int) - m

theorem ofTwos_toTwos {z : Int} (low : -(m : Int) ≤ 2 * z) (high : 2 * z < m) : ofTwos m (toTwos m z) = z := by
  unfold ofTwos toTwos
  rcases lt_or_ge z 0 with negative | positive
  · have wrapped : z % m = z + m := by
      rw [← Int.add_emod_right z m]
      exact Int.emod_eq_of_lt (by omega) (by omega)
    rw [wrapped, if_neg (by omega)]
    omega
  · rw [Int.emod_eq_of_lt positive (by omega), if_pos (by omega)]
    omega

theorem toTwos_ofTwos (small : n < m) : toTwos m (ofTwos m n) = n := by
  unfold ofTwos toTwos
  split
  · rw [Int.emod_eq_of_lt (by omega) (by omega)]
    omega
  · rw [← Int.add_emod_right, sub_add_cancel, Int.emod_eq_of_lt (by omega) (by omega)]
    omega

theorem ofTwos_bounds (small : n < m) : -(m : Int) ≤ 2 * ofTwos m n ∧ 2 * ofTwos m n < m := by
  unfold ofTwos
  split <;> omega

end TradingEngine.Base
