import TradingEngine.Amm.TickMath
import TradingEngine.Base.Near

/-!
# Tick and price are inverse

The ladder and the logarithm are compared with the real powers of `sqrt 1.0001`.
-/

namespace TradingEngine.Amm

open Base Real

variable {r n p : ℕ} {t u : ℤ}

noncomputable section

/-! ### The base -/

def tickBase : ℝ := sqrt (10001 / 10000)

theorem tickBase_sq : tickBase ^ 2 = 10001 / 10000 := sq_sqrt (by norm_num)

theorem tickBase_pos : 0 < tickBase := sqrt_pos.mpr (by norm_num)

theorem lt_tickBase : 1 + 4 / 100000 < tickBase := by
  refine lt_of_pow_lt_pow_left₀ 2 tickBase_pos.le ?_
  rw [tickBase_sq]
  norm_num

theorem one_lt_tickBase : 1 < tickBase := lt_trans (by norm_num) lt_tickBase

theorem log_tickBase : log tickBase = log (10001 / 10000) / 2 := log_sqrt (by norm_num)

theorem log_tickBase_bounds : 4.99975001665e-5 < log tickBase ∧ log tickBase < 4.99975001668e-5 := by
  have series := abs_log_sub_add_sum_range_le (x := -(1 / 10000)) (by norm_num [abs_lt]) 3
  rw [abs_le] at series
  have argument : (1 : ℝ) - -(1 / 10000) = 10001 / 10000 := by norm_num
  simp only [Finset.sum_range_succ, Finset.sum_range_zero, argument] at series
  rw [abs_neg, abs_of_pos (by norm_num : (0 : ℝ) < 1 / 10000)] at series
  obtain ⟨low, high⟩ := series
  rw [log_tickBase]
  constructor
  · norm_num at low ⊢
    linarith
  · norm_num at high ⊢
    linarith

theorem zpow_eq_exp (t : ℤ) : tickBase ^ t = exp (t * log tickBase) := by
  rw [mul_comm, exp_mul, exp_log tickBase_pos, rpow_intCast]

/-! ### The ladder -/

def ladderError : ℝ := 1 / 2 ^ 62

theorem ladderError_nonneg : 0 ≤ ladderError := by norm_num [ladderError]

theorem ladderError_le_one : ladderError ≤ 1 := by norm_num [ladderError]

/-- A constant is the square of the one before it, within an error. -/
def Squares (c d : Nat) : Prop :=
  c ^ 2 * (2 ^ 62 - 1) ≤ d * 2 ^ 128 * 2 ^ 62 ∧ d * 2 ^ 128 * 2 ^ 62 ≤ c ^ 2 * (2 ^ 62 + 1)

instance (c d : Nat) : Decidable (Squares c d) := inferInstanceAs (Decidable (_ ∧ _))

theorem sqrtLadder_squares : sqrtLadder.IsChain Squares := by decide +kernel

theorem Squares.near {c d : Nat} (squares : Squares c d) :
    Near ladderError 1 (d / 2 ^ 128 : ℝ) ((c / 2 ^ 128 : ℝ) ^ 2) := by
  obtain ⟨low, high⟩ := squares
  have low' : (c : ℝ) ^ 2 * (2 ^ 62 - 1) ≤ d * 2 ^ 128 * 2 ^ 62 := by
    have cast : ((2 ^ 62 - 1 : ℕ) : ℝ) = 2 ^ 62 - 1 := by norm_num
    rw [← cast]
    exact_mod_cast low
  have high' : (d : ℝ) * 2 ^ 128 * 2 ^ 62 ≤ (c : ℝ) ^ 2 * (2 ^ 62 + 1) := by exact_mod_cast high
  unfold ladderError
  constructor
  · norm_num at low' ⊢
    linarith
  · norm_num at high' ⊢
    linarith

theorem Squares.next {c d m : ℕ} {Q : ℝ} (nonneg : 0 ≤ Q) (squares : Squares c d)
    (near : Near ladderError m (c / 2 ^ 128 : ℝ) Q) : Near ladderError (2 * m + 1) (d / 2 ^ 128 : ℝ) (Q ^ 2) := by
  have square := near.mul ladderError_nonneg ladderError_le_one nonneg nonneg near
  rw [← sq, ← sq] at square
  have all := squares.near.trans ladderError_nonneg ladderError_le_one square
  rwa [show 1 + (m + m) = 2 * m + 1 by ring] at all

theorem climb_near {ladder : List Nat} (chain : ladder.IsChain Squares) {m j bits : ℕ} {Q y : ℝ} (positive : 0 < Q)
    (part : Q ≤ 1) (start : 0 ≤ y) (head : ∀ c ∈ ladder.head?, Near ladderError m (c / 2 ^ 128 : ℝ) Q)
    (near : Near ladderError j r y) (short : bits < 2 ^ ladder.length)
    (few : ((j + (m + 1) * (2 ^ ladder.length - 1) : ℕ) : ℝ) * ladderError ≤ 1 / 2) (large : 2 ^ 63 ≤ y * Q ^ bits) :
    Near ladderError (j + (m + 1) * (2 ^ ladder.length - 1)) (climb ladder bits r) (y * Q ^ bits) := by
  induction ladder generalizing m j bits r Q y with
  | nil =>
    obtain rfl : bits = 0 := by simpa using short
    simpa [climb] using near
  | cons c rest ih =>
    have here := head c (by simp)
    have length : 2 ^ (c :: rest).length = 2 * 2 ^ rest.length := by rw [List.length_cons, pow_succ, mul_comm]
    have one : 1 ≤ 2 ^ rest.length := Nat.one_le_two_pow
    have count : j + (2 * m + 1 + 1) * (2 ^ rest.length - 1) + (m + 1) = j + (m + 1) * (2 ^ (c :: rest).length - 1) := by
      obtain ⟨e, same⟩ : ∃ e, 2 ^ rest.length = e + 1 := ⟨2 ^ rest.length - 1, by omega⟩
      rw [length, same, show 2 * (e + 1) - 1 = 2 * e + 1 by omega, show e + 1 - 1 = e by omega]
      ring
    have next : ∀ d ∈ rest.head?, Near ladderError (2 * m + 1) (d / 2 ^ 128 : ℝ) (Q ^ 2) := by
      intro d first
      cases rest with
      | nil => exact nomatch first
      | cons d' rest =>
        obtain rfl := Option.some.inj first
        exact (List.isChain_cons_cons.mp chain).1.next positive.le here
    have half : bits / 2 < 2 ^ rest.length := by omega
    have square : 0 < Q ^ 2 := by positivity
    have square' : Q ^ 2 ≤ 1 := pow_le_one₀ positive.le part
    rw [climb]
    split
    · rename_i odd
      have bit : Q * (Q ^ 2) ^ (bits / 2) = Q ^ bits := by
        rw [← pow_mul, ← pow_succ']
        congr 1
        omega
      have fewer : j + m + 1 + (2 * m + 1 + 1) * (2 ^ rest.length - 1) = j + (m + 1) * (2 ^ (c :: rest).length - 1) := by
        omega
      have whole : y * Q ^ bits ≤ y * Q := by
        rw [← bit]
        exact mul_le_mul_of_nonneg_left (mul_le_of_le_one_right positive.le (pow_le_one₀ square.le square')) start
      have product := near.mul ladderError_nonneg ladderError_le_one start positive.le here
      have half' : 1 / 2 ≤ (1 - ladderError) ^ (j + m) := by
        refine le_trans ?_ (one_sub_le_pow ladderError_le_one (j + m))
        have most : ((j + m : ℕ) : ℝ) ≤ ((j + (m + 1) * (2 ^ (c :: rest).length - 1) : ℕ) : ℝ) := by
          rw [← fewer]
          exact_mod_cast by omega
        have := mul_le_mul_of_nonneg_right most ladderError_nonneg
        linarith
      -- the product is at least half of `2 ^ 63`, so dropping its fraction costs one error
      have floor : Near ladderError 1 ((r * c / 2 ^ 128 : ℕ) : ℝ) (r * (c / 2 ^ 128 : ℝ)) := by
        have quotient : (r * (c / 2 ^ 128 : ℝ)) = ((r * c : ℕ) : ℝ) / ((2 ^ 128 : ℕ) : ℝ) := by
          push_cast
          ring
        rw [quotient]
        refine Near.div ?_
        rw [← quotient]
        have low : y * Q * (1 / 2) ≤ r * (c / 2 ^ 128 : ℝ) :=
          (mul_le_mul_of_nonneg_left half' (mul_nonneg start positive.le)).trans product.lower
        have reach : (2 : ℝ) ^ 62 ≤ r * (c / 2 ^ 128 : ℝ) := by
          norm_num at large low ⊢
          linarith
        have := mul_le_mul_of_nonneg_left reach ladderError_nonneg
        rwa [show ladderError * 2 ^ 62 = 1 by norm_num [ladderError]] at this
      have stepped := floor.trans ladderError_nonneg ladderError_le_one product
      rw [show 1 + (j + m) = j + m + 1 by ring] at stepped
      rw [← bit, ← mul_assoc] at large ⊢
      rw [← fewer] at few ⊢
      exact ih chain.tail square square' (mul_nonneg start positive.le) next stepped half few large
    · rename_i even
      have bit : (Q ^ 2) ^ (bits / 2) = Q ^ bits := by
        rw [← pow_mul]
        congr 1
        omega
      have fewer : j + (2 * m + 1 + 1) * (2 ^ rest.length - 1) ≤ j + (m + 1) * (2 ^ (c :: rest).length - 1) := by omega
      rw [← bit] at large ⊢
      refine (ih chain.tail square square' start next near half ?_ large).mono ladderError_nonneg ladderError_le_one
        (by positivity) fewer
      refine le_trans (mul_le_mul_of_nonneg_right ?_ ladderError_nonneg) few
      exact_mod_cast fewer

theorem inv_tickBase_sq : tickBase⁻¹ ^ 2 = 10000 / 10001 := by
  rw [inv_pow, tickBase_sq]
  norm_num

theorem first_near : ∀ c ∈ sqrtLadder.head?, Near ladderError 1 (c / 2 ^ 128 : ℝ) tickBase⁻¹ := by
  intro c first
  obtain rfl := Option.some.inj first
  have base : 0 ≤ tickBase⁻¹ := inv_nonneg.mpr tickBase_pos.le
  unfold ladderError
  constructor
  · rw [pow_one]
    refine le_of_sq_le_sq ?_ (by norm_num)
    rw [mul_pow, inv_tickBase_sq]
    norm_num
  · rw [pow_one]
    refine le_of_sq_le_sq ?_ (mul_nonneg base (by norm_num))
    rw [mul_pow, inv_tickBase_sq]
    norm_num

theorem lowest_price (inside : n ≤ 887272) : 4000000000 ≤ 2 ^ 96 * tickBase⁻¹ ^ n := by
  have base : 0 < tickBase⁻¹ := inv_pos.mpr tickBase_pos
  rw [← log_le_log_iff (by norm_num) (by positivity), log_mul (by positivity) (by positivity), log_pow, log_pow, log_inv]
  have digits : 10 * log 4000000000 ≤ 11 * (29 * log 2) := by
    have powers := log_le_log (x := (4000000000 : ℝ) ^ 10) (y := (2 ^ 29) ^ 11) (by norm_num) (by norm_num)
    rw [log_pow, log_pow, log_pow] at powers
    exact_mod_cast powers
  have steps : (n : ℝ) * log tickBase ≤ 887272 * 4.99975001668e-5 :=
    mul_le_mul (by exact_mod_cast inside) log_tickBase_bounds.2.le (log_nonneg one_lt_tickBase.le) (by norm_num)
  have two := log_two_gt_d9
  norm_num at digits steps two ⊢
  linarith

theorem ladder_near (inside : n ≤ 887272) :
    Near ladderError 2097150 (climb sqrtLadder n (2 ^ 128)) (2 ^ 128 * tickBase⁻¹ ^ n) := by
  have base : 0 < tickBase⁻¹ := inv_pos.mpr tickBase_pos
  have length : sqrtLadder.length = 20 := rfl
  have start : Near ladderError 0 ((2 ^ 128 : ℕ) : ℝ) (2 ^ 128) := by
    rw [Nat.cast_pow, Nat.cast_ofNat]
    exact Near.refl _ _
  have large : 2 ^ 63 ≤ (2 ^ 128 : ℝ) * tickBase⁻¹ ^ n := by
    have := lowest_price inside
    norm_num at this ⊢
    linarith
  have climbs := climb_near sqrtLadder_squares base (inv_le_one_of_one_le₀ one_lt_tickBase.le) (by norm_num) first_near
    start (by rw [length]; omega) (by rw [length]; norm_num [ladderError]) large
  rw [length] at climbs
  exact climbs

/-! ### Prices of ticks -/

def realPrice (t : ℤ) : ℝ := 2 ^ 96 * tickBase ^ t

def priceError : ℝ := 3 / 10 ^ 10

theorem realPrice_pos (t : ℤ) : 0 < realPrice t := mul_pos (by norm_num) (zpow_pos tickBase_pos t)

theorem ladder_bounds (inside : n ≤ 887272) :
    2 ^ 128 * tickBase⁻¹ ^ n * (1 - 1 / 10 ^ 12) ≤ climb sqrtLadder n (2 ^ 128) ∧
      climb sqrtLadder n (2 ^ 128) ≤ 2 ^ 128 * tickBase⁻¹ ^ n * (1 + 1 / 10 ^ 12) := by
  obtain ⟨low, high⟩ := ladder_near inside
  have nonneg : 0 ≤ 2 ^ 128 * tickBase⁻¹ ^ n := mul_nonneg (by norm_num) (pow_nonneg (inv_nonneg.mpr tickBase_pos.le) n)
  have below := one_sub_le_pow ladderError_le_one 2097150
  have above := pow_le_one_add (m := 2097150) ladderError_nonneg (by norm_num [ladderError])
  constructor
  · refine le_trans (mul_le_mul_of_nonneg_left (le_trans ?_ below) nonneg) low
    norm_num [ladderError]
  · refine high.trans (mul_le_mul_of_nonneg_left (above.trans ?_) nonneg)
    norm_num [ladderError]

theorem roundUp_bounds (ratio : ℕ) :
    (ratio : ℝ) ≤ 2 ^ 32 * (roundUp ratio : ℝ) ∧ 2 ^ 32 * (roundUp ratio : ℝ) ≤ ratio + 2 ^ 32 := by
  have whole : ratio ≤ 2 ^ 32 * roundUp ratio ∧ 2 ^ 32 * roundUp ratio ≤ ratio + 2 ^ 32 := by
    unfold roundUp
    split <;> omega
  exact ⟨by exact_mod_cast whole.1, by exact_mod_cast whole.2⟩

theorem inverted_bounds (inside : n ≤ 887272) :
    let ratio := (u256Size - 1) / climb sqrtLadder n (2 ^ 128)
    2 ^ 128 * tickBase ^ n * (1 - 2 / 10 ^ 12) ≤ ratio ∧ (ratio : ℝ) ≤ 2 ^ 128 * tickBase ^ n * (1 + 2 / 10 ^ 12) := by
  intro ratio
  obtain ⟨low, high⟩ := ladder_bounds inside
  have floor := lowest_price inside
  set r := climb sqrtLadder n (2 ^ 128) with climbed
  have inverse : tickBase ^ n * tickBase⁻¹ ^ n = 1 := by rw [← mul_pow, mul_inv_cancel₀ tickBase_pos.ne', one_pow]
  have one : 1 ≤ tickBase ^ n := one_le_pow₀ one_lt_tickBase.le
  set y := tickBase ^ n
  set z := tickBase⁻¹ ^ n
  have z_pos : 0 < z := by
    norm_num at floor ⊢
    linarith
  have positive : 0 < r := by
    have : (0 : ℝ) < r := (mul_pos (mul_pos (by norm_num) z_pos) (by norm_num)).trans_le low
    exact_mod_cast this
  have below : (ratio : ℝ) * r ≤ 2 ^ 256 := by
    have := Nat.div_mul_le_self (u256Size - 1) r
    have : ratio * r ≤ 2 ^ 256 := this.trans (by decide)
    exact_mod_cast this
  have above : (2 : ℝ) ^ 256 ≤ (ratio + 1) * r := by
    have := Nat.lt_div_mul_add (a := u256Size - 1) positive
    have : 2 ^ 256 ≤ (ratio + 1) * r := by
      have size : u256Size = 2 ^ 256 := rfl
      rw [show ratio = (u256Size - 1) / r from rfl, Nat.add_mul, Nat.one_mul]
      omega
    exact_mod_cast this
  have nonneg : (0 : ℝ) ≤ ratio := Nat.cast_nonneg ratio
  constructor
  · -- `(ratio + 1) * z * (1 + e) * 2 ^ 128 ≥ 2 ^ 256 = 2 ^ 256 * y * z`
    have all : (2 : ℝ) ^ 128 * y * z ≤ (ratio + 1) * (1 + 1 / 10 ^ 12) * z := by
      have := mul_le_mul_of_nonneg_left high (by linarith : (0 : ℝ) ≤ ratio + 1)
      rw [mul_assoc, inverse]
      norm_num at this above ⊢
      linarith
    have := le_of_mul_le_mul_right all z_pos
    norm_num at this one ⊢
    linarith
  · have all : (ratio : ℝ) * (1 - 1 / 10 ^ 12) * z ≤ 2 ^ 128 * y * z := by
      have := mul_le_mul_of_nonneg_left low nonneg
      rw [mul_assoc _ y z, inverse]
      norm_num at this below ⊢
      linarith
    have := le_of_mul_le_mul_right all z_pos
    norm_num at this one ⊢
    linarith

theorem clampTick_inside (low : minTick ≤ t) (high : t ≤ maxTick) : clampTick t = t := by
  unfold clampTick
  rw [if_neg (by omega), if_neg (by omega)]

theorem realPrice_natAbs (t : ℤ) :
    realPrice t = if t > 0 then 2 ^ 96 * tickBase ^ t.natAbs else 2 ^ 96 * tickBase⁻¹ ^ t.natAbs := by
  unfold realPrice
  split
  · have same : (t.natAbs : ℤ) = t := by omega
    rw [← zpow_natCast tickBase, same]
  · have same : -(t.natAbs : ℤ) = t := by omega
    rw [inv_pow, ← zpow_natCast tickBase, ← zpow_neg, same]

theorem sqrtRatio_bounds (low : minTick ≤ t) (high : t ≤ maxTick) :
    realPrice t * (1 - priceError) ≤ sqrtRatioAtTick t ∧ (sqrtRatioAtTick t : ℝ) ≤ realPrice t * (1 + priceError) := by
  have inside : t.natAbs ≤ 887272 := by
    unfold minTick at low
    unfold maxTick at high
    omega
  have floor := lowest_price inside
  unfold sqrtRatioAtTick
  rw [clampTick_inside low high, realPrice_natAbs]
  dsimp only
  split
  · obtain ⟨lower, upper⟩ := inverted_bounds inside
    have one : 1 ≤ tickBase ^ t.natAbs := one_le_pow₀ one_lt_tickBase.le
    generalize (u256Size - 1) / climb sqrtLadder t.natAbs (2 ^ 128) = ratio at lower upper ⊢
    obtain ⟨up, down⟩ := roundUp_bounds ratio
    unfold priceError
    constructor
    · norm_num at up lower ⊢
      linarith
    · norm_num at down upper one ⊢
      linarith
  · obtain ⟨lower, upper⟩ := ladder_bounds inside
    generalize climb sqrtLadder t.natAbs (2 ^ 128) = ratio at lower upper ⊢
    obtain ⟨up, down⟩ := roundUp_bounds ratio
    unfold priceError
    constructor
    · norm_num at up lower floor ⊢
      linarith
    · norm_num at down upper floor ⊢
      linarith

theorem sqrtRatio_lt (low : minTick ≤ t) (lt : t < u) (high : u ≤ maxTick) : sqrtRatioAtTick t < sqrtRatioAtTick u := by
  have before := (sqrtRatio_bounds low (by omega)).2
  have after := (sqrtRatio_bounds (by omega) high).1
  have step : realPrice t * tickBase ≤ realPrice u := by
    unfold realPrice
    rw [mul_assoc, ← zpow_add_one₀ tickBase_pos.ne']
    exact mul_le_mul_of_nonneg_left (zpow_le_zpow_right₀ one_lt_tickBase.le (by omega)) (by norm_num)
  have positive := realPrice_pos t
  have move := mul_lt_mul_of_pos_left lt_tickBase positive
  unfold priceError at before after
  have : (sqrtRatioAtTick t : ℝ) < sqrtRatioAtTick u := by
    norm_num at before after move
    linarith
  exact_mod_cast this

/-! ### The logarithm -/

def wordError : ℝ := 1 / 2 ^ 127

theorem wordError_nonneg : 0 ≤ wordError := by norm_num [wordError]

theorem square_step (low : 2 ^ 127 ≤ r) (high : r < 2 ^ 128) :
    let sq : ℕ := r * r / 2 ^ 127
    let f : ℕ := sq / 2 ^ 128
    let next : ℕ := if f = 1 then sq / 2 else sq
    2 ^ 127 ≤ next ∧ next < 2 ^ 128 ∧ 2 ^ f * (next / 2 ^ 127 : ℝ) ≤ (r / 2 ^ 127 : ℝ) ^ 2 ∧
      (r / 2 ^ 127 : ℝ) ^ 2 ≤ 2 ^ f * (next / 2 ^ 127 : ℝ) * (1 + wordError) := by
  intro sq f next
  have least : 2 ^ 127 * 2 ^ 127 ≤ r * r := Nat.mul_le_mul low low
  have most : r * r < 2 ^ 128 * 2 ^ 128 := Nat.mul_lt_mul'' high high
  have below : sq * 2 ^ 127 ≤ r * r := Nat.div_mul_le_self _ _
  have above : r * r < (sq + 1) * 2 ^ 127 := by
    have := Nat.lt_div_mul_add (a := r * r) (b := 2 ^ 127) (by norm_num)
    rw [Nat.add_mul, Nat.one_mul]
    exact this
  have below' : (sq : ℝ) * 2 ^ 127 ≤ r * r := by exact_mod_cast below
  have above' : (r : ℝ) * r ≤ (sq + 1) * 2 ^ 127 := by exact_mod_cast above.le
  have from' : 2 ^ 127 ≤ sq := by omega
  have upto : sq < 2 ^ 129 := by omega
  have square : (r / 2 ^ 127 : ℝ) ^ 2 = r * r / 2 ^ 254 := by ring
  rw [square]
  unfold wordError
  by_cases bit : f = 1
  · have next' : next = sq / 2 := if_pos bit
    have halves : sq ≤ 2 * next + 1 ∧ 2 * next ≤ sq := by omega
    have small : (sq : ℝ) ≤ 2 * next + 1 := by exact_mod_cast halves.1
    have large : 2 * (next : ℝ) ≤ sq := by exact_mod_cast halves.2
    have least' : (170141183460469231731687303715884105728 : ℝ) ≤ next := by
      have : 170141183460469231731687303715884105728 ≤ next := by omega
      exact_mod_cast this
    refine ⟨by omega, by omega, ?_, ?_⟩
    · rw [bit]
      norm_num at below' ⊢
      linarith
    · rw [bit]
      norm_num at above' ⊢
      linarith
  · have next' : next = sq := if_neg bit
    have none : f = 0 := by omega
    have least' : (170141183460469231731687303715884105728 : ℝ) ≤ sq := by exact_mod_cast from'
    refine ⟨by omega, by omega, ?_, ?_⟩
    · rw [none, next']
      norm_num at below' ⊢
      linarith
    · rw [none, next']
      norm_num at above' ⊢
      linarith

theorem squareLog_spec (n : ℕ) (low : 2 ^ 127 ≤ r) (high : r < 2 ^ 128) (log : ℤ) :
    ∃ m : ℕ, squareLog n r log = log + m * 2 ^ 50 ∧ (2 : ℝ) ^ m ≤ (r / 2 ^ 127 : ℝ) ^ 2 ^ n ∧
      (r / 2 ^ 127 : ℝ) ^ 2 ^ n ≤ 2 ^ (m + 1) * (1 + wordError) ^ 2 ^ n := by
  induction n generalizing r log with
  | zero =>
    have low' : (170141183460469231731687303715884105728 : ℝ) ≤ r := by exact_mod_cast low
    have high' : (r : ℝ) ≤ 340282366920938463463374607431768211456 := by exact_mod_cast high.le
    refine ⟨0, by simp [squareLog], ?_, ?_⟩
    · norm_num
      linarith
    · norm_num [wordError]
      linarith
  | succ n ih =>
    obtain ⟨low', high', below, above⟩ := square_step low high
    rw [squareLog]
    generalize r * r / 2 ^ 127 / 2 ^ 128 = f at *
    generalize (if f = 1 then r * r / 2 ^ 127 / 2 else r * r / 2 ^ 127) = next at *
    obtain ⟨m, value, under, beyond⟩ := ih low' high' (log + f * 2 ^ (n + 50))
    have nonneg : (0 : ℝ) ≤ next / 2 ^ 127 := by positivity
    have square : (r / 2 ^ 127 : ℝ) ^ 2 ^ (n + 1) = ((r / 2 ^ 127 : ℝ) ^ 2) ^ 2 ^ n := by rw [← pow_mul, ← pow_succ']
    have error : (0 : ℝ) ≤ 1 + wordError := by linarith [wordError_nonneg]
    refine ⟨f * 2 ^ n + m, ?_, ?_, ?_⟩
    · rw [value]
      push_cast
      ring
    · calc (2 : ℝ) ^ (f * 2 ^ n + m) = (2 ^ f) ^ 2 ^ n * 2 ^ m := by rw [pow_add, pow_mul]
        _ ≤ (2 ^ f) ^ 2 ^ n * (next / 2 ^ 127 : ℝ) ^ 2 ^ n := mul_le_mul_of_nonneg_left under (by positivity)
        _ = (2 ^ f * (next / 2 ^ 127 : ℝ)) ^ 2 ^ n := (mul_pow _ _ _).symm
        _ ≤ (r / 2 ^ 127 : ℝ) ^ 2 ^ (n + 1) := by
          rw [square]
          exact pow_le_pow_left₀ (by positivity) below _
    · calc (r / 2 ^ 127 : ℝ) ^ 2 ^ (n + 1) ≤ (2 ^ f * (next / 2 ^ 127 : ℝ) * (1 + wordError)) ^ 2 ^ n := by
            rw [square]
            exact pow_le_pow_left₀ (by positivity) above _
        _ = (2 ^ f) ^ 2 ^ n * (next / 2 ^ 127 : ℝ) ^ 2 ^ n * (1 + wordError) ^ 2 ^ n := by rw [mul_pow, mul_pow]
        _ ≤ (2 ^ f) ^ 2 ^ n * (2 ^ (m + 1) * (1 + wordError) ^ 2 ^ n) * (1 + wordError) ^ 2 ^ n := by
          refine mul_le_mul_of_nonneg_right (mul_le_mul_of_nonneg_left beyond (by positivity)) ?_
          exact pow_nonneg error _
        _ = 2 ^ (f * 2 ^ n + m + 1) * (1 + wordError) ^ 2 ^ (n + 1) := by
          rw [show 2 ^ (n + 1) = 2 ^ n + 2 ^ n by ring, add_assoc, pow_add, pow_add, pow_mul]
          ring

theorem normalised {ratio : ℕ} (positive : 0 < ratio) :
    let msb := Nat.log2 ratio
    let r : ℕ := if msb ≥ 128 then ratio / 2 ^ (msb - 127) else ratio * 2 ^ (127 - msb)
    2 ^ 127 ≤ r ∧ r < 2 ^ 128 ∧ (r / 2 ^ 127 : ℝ) * 2 ^ msb ≤ ratio ∧
      (ratio : ℝ) ≤ r / 2 ^ 127 * 2 ^ msb * (1 + wordError) := by
  intro msb r
  have least : 2 ^ msb ≤ ratio := Nat.log2_self_le positive.ne'
  have most : ratio < 2 ^ (msb + 1) := Nat.lt_log2_self
  by_cases wide : msb ≥ 128
  · have short : r = ratio / 2 ^ (msb - 127) := if_pos wide
    have power : 2 ^ msb = 2 ^ 127 * 2 ^ (msb - 127) := by rw [← pow_add, show 127 + (msb - 127) = msb by omega]
    have unit : 0 < 2 ^ (msb - 127) := by positivity
    have low : 2 ^ 127 ≤ r := by
      rw [short, Nat.le_div_iff_mul_le unit, ← power]
      exact least
    have high : r < 2 ^ 128 := by
      rw [short, Nat.div_lt_iff_lt_mul unit]
      rw [pow_succ, power] at most
      calc ratio < 2 ^ 127 * 2 ^ (msb - 127) * 2 := most
        _ = 2 ^ 128 * 2 ^ (msb - 127) := by ring
    have below : r * 2 ^ (msb - 127) ≤ ratio := by
      rw [short]
      exact Nat.div_mul_le_self _ _
    have above : ratio ≤ (r + 1) * 2 ^ (msb - 127) := by
      have := Nat.lt_div_mul_add (a := ratio) unit
      rw [Nat.add_mul, Nat.one_mul, short]
      exact this.le
    have power' : (2 : ℝ) ^ msb = 2 ^ 127 * 2 ^ (msb - 127) := by exact_mod_cast power
    have low' : (170141183460469231731687303715884105728 : ℝ) ≤ r := by exact_mod_cast low
    have unit' : (0 : ℝ) < 2 ^ (msb - 127) := by positivity
    refine ⟨low, high, ?_, ?_⟩
    · have : (r : ℝ) * 2 ^ (msb - 127) ≤ ratio := by exact_mod_cast below
      calc (r / 2 ^ 127 : ℝ) * 2 ^ msb = r * 2 ^ (msb - 127) := by rw [power']; ring
        _ ≤ ratio := this
    have : (ratio : ℝ) ≤ (r + 1) * 2 ^ (msb - 127) := by exact_mod_cast above
    calc (ratio : ℝ) ≤ (r + 1) * 2 ^ (msb - 127) := this
      _ ≤ r * (1 + wordError) * 2 ^ (msb - 127) := by
        refine mul_le_mul_of_nonneg_right ?_ unit'.le
        norm_num [wordError]
        linarith
      _ = r / 2 ^ 127 * 2 ^ msb * (1 + wordError) := by rw [power']; ring
  · have long : r = ratio * 2 ^ (127 - msb) := if_neg wide
    have power : 2 ^ msb * 2 ^ (127 - msb) = 2 ^ 127 := by rw [← pow_add, show msb + (127 - msb) = 127 by omega]
    have twice : 2 ^ 128 = 2 ^ (msb + 1) * 2 ^ (127 - msb) := by
      rw [← pow_add, show msb + 1 + (127 - msb) = 128 by omega]
    have low : 2 ^ 127 ≤ r := by
      rw [long, ← power]
      exact Nat.mul_le_mul_right _ least
    have high : r < 2 ^ 128 := by
      rw [long, twice]
      exact Nat.mul_lt_mul_of_pos_right most (by positivity)
    have power' : (2 : ℝ) ^ msb * 2 ^ (127 - msb) = 2 ^ 127 := by exact_mod_cast power
    have exact' : (r / 2 ^ 127 : ℝ) * 2 ^ msb = ratio := by
      rw [long, Nat.cast_mul, Nat.cast_pow, Nat.cast_ofNat, ← power']
      field_simp
    refine ⟨low, high, exact'.le, ?_⟩
    rw [exact']
    exact le_mul_of_one_le_right (Nat.cast_nonneg _) (by linarith [wordError_nonneg])

theorem logTwo_spec (positive : 0 < p) :
    ∃ M : ℤ, logTwo p = M * 2 ^ 50 ∧ M * log 2 ≤ 2 ^ 14 * log (p / 2 ^ 96) ∧
      2 ^ 14 * log (p / 2 ^ 96) ≤ (M + 1) * log 2 + 1 / 2 ^ 111 := by
  have whole : 0 < p * 2 ^ 32 := by positivity
  obtain ⟨low, high, below, above⟩ := normalised whole
  unfold logTwo
  dsimp only
  set msb := Nat.log2 (p * 2 ^ 32)
  generalize (if msb ≥ 128 then p * 2 ^ 32 / 2 ^ (msb - 127) else p * 2 ^ 32 * 2 ^ (127 - msb)) = r at *
  obtain ⟨m, value, under, beyond⟩ := squareLog_spec 14 low high (((msb : ℤ) - 128) * 2 ^ 64)
  have pos : (0 : ℝ) < r / 2 ^ 127 := by
    have : (0 : ℝ) < r := by exact_mod_cast (lt_of_lt_of_le (by norm_num) low)
    positivity
  have error : 0 < 1 + wordError := by linarith [wordError_nonneg]
  have small : log (1 + wordError) ≤ wordError := by linarith [log_le_sub_one_of_pos error]
  have ratio : log (p / 2 ^ 96) = log ((p * 2 ^ 32 : ℕ) : ℝ) - 128 * log 2 := by
    have same : (p / 2 ^ 96 : ℝ) = ((p * 2 ^ 32 : ℕ) : ℝ) / 2 ^ 128 := by
      push_cast
      ring
    rw [same, log_div (by positivity) (by positivity), log_pow]
    norm_num
  have from' : log (r / 2 ^ 127) + msb * log 2 ≤ log ((p * 2 ^ 32 : ℕ) : ℝ) := by
    rw [← log_pow, ← log_mul pos.ne' (by positivity)]
    exact log_le_log (by positivity) below
  have upto : log ((p * 2 ^ 32 : ℕ) : ℝ) ≤ log (r / 2 ^ 127) + msb * log 2 + wordError := by
    have := log_le_log (by positivity) above
    rw [log_mul (by positivity) error.ne', log_mul pos.ne' (by positivity), log_pow] at this
    linarith
  have least := log_le_log (by positivity) under
  have most := log_le_log (by positivity) beyond
  rw [log_pow, log_pow] at least
  rw [log_mul (by positivity) (by positivity), log_pow, log_pow, log_pow] at most
  rw [ratio]
  generalize log ((p * 2 ^ 32 : ℕ) : ℝ) = x at *
  refine ⟨((msb : ℤ) - 128) * 2 ^ 14 + m, ?_, ?_, ?_⟩
  · rw [value]
    ring
  · push_cast at least ⊢
    linarith
  push_cast at most ⊢
  unfold wordError at *
  norm_num at most small upto ⊢
  linarith

/-! ### From the logarithm to the tick -/

theorem realPrice_eq_exp (t : ℤ) : realPrice t = 2 ^ 96 * exp (t * log tickBase) := by
  rw [realPrice, zpow_eq_exp]

theorem price_eq_exp (positive : 0 < p) : (p : ℝ) = 2 ^ 96 * exp (log (p / 2 ^ 96)) := by
  have pos : (0 : ℝ) < p := by exact_mod_cast positive
  rw [exp_log (by positivity)]
  ring

theorem realPrice_le (positive : 0 < p)
    (below : t * log tickBase + priceError ≤ log (p / 2 ^ 96)) : realPrice t * (1 + priceError) ≤ p := by
  rw [realPrice_eq_exp, price_eq_exp positive, mul_assoc]
  refine mul_le_mul_of_nonneg_left ?_ (by norm_num)
  calc exp (t * log tickBase) * (1 + priceError)
      ≤ exp (t * log tickBase) * exp priceError := by
        refine mul_le_mul_of_nonneg_left ?_ (exp_nonneg _)
        linarith [add_one_le_exp priceError]
    _ = exp (t * log tickBase + priceError) := (exp_add _ _).symm
    _ ≤ exp (log (p / 2 ^ 96)) := exp_le_exp.mpr below

theorem lt_realPrice (positive : 0 < p)
    (above : log (p / 2 ^ 96) + 2 * priceError < t * log tickBase) : p < realPrice t * (1 - priceError) := by
  have room : 1 ≤ exp (2 * priceError) * (1 - priceError) := by
    have small : (0 : ℝ) ≤ 1 - priceError := by norm_num [priceError]
    refine le_trans ?_ (mul_le_mul_of_nonneg_right (add_one_le_exp _) small)
    norm_num [priceError]
  have rest : (0 : ℝ) < 1 - priceError := by norm_num [priceError]
  rw [realPrice_eq_exp, price_eq_exp positive, mul_assoc]
  refine mul_lt_mul_of_pos_left ?_ (by norm_num)
  calc exp (log (p / 2 ^ 96))
      ≤ exp (log (p / 2 ^ 96)) * (exp (2 * priceError) * (1 - priceError)) := le_mul_of_one_le_right (exp_nonneg _) room
    _ = exp (log (p / 2 ^ 96) + 2 * priceError) * (1 - priceError) := by rw [exp_add]; ring
    _ < exp (t * log tickBase) * (1 - priceError) := mul_lt_mul_of_pos_right (exp_lt_exp.mpr above) rest

theorem logSqrt10001_near : |(logSqrt10001 : ℝ) * log tickBase / 2 ^ 64 - log 2| ≤ 2 / 10 ^ 9 := by
  obtain ⟨low, high⟩ := log_tickBase_bounds
  have two := log_two_gt_d9
  have two' := log_two_lt_d9
  unfold logSqrt10001
  rw [abs_le]
  norm_num at low high two two' ⊢
  constructor <;> linarith

theorem digits_bounded (low : minSqrt ≤ p) (high : p < maxSqrt) {M : ℤ} (below : M * log 2 ≤ 2 ^ 14 * log (p / 2 ^ 96))
    (above : 2 ^ 14 * log (p / 2 ^ 96) ≤ (M + 1) * log 2 + 1 / 2 ^ 111) : |(M : ℝ)| ≤ 2 ^ 20 + 2 := by
  have two := log_two_gt_d9
  have least : (2 : ℝ) ^ 32 ≤ p := by
    have : 2 ^ 32 ≤ p := le_trans (by decide) low
    exact_mod_cast this
  have most : (p : ℝ) ≤ 2 ^ 160 := by
    have : p ≤ 2 ^ 160 := high.le.trans (by decide)
    exact_mod_cast this
  have from' : -(64 * log 2) ≤ log (p / 2 ^ 96) := by
    have := log_le_log (by norm_num) (div_le_div_of_nonneg_right least (by norm_num : (0 : ℝ) ≤ 2 ^ 96))
    rw [log_div (by norm_num) (by norm_num), log_pow, log_pow] at this
    norm_num at this ⊢
    linarith
  have upto : log (p / 2 ^ 96) ≤ 64 * log 2 := by
    have pos : (0 : ℝ) < p := lt_of_lt_of_le (by norm_num) least
    have := log_le_log (by positivity) (div_le_div_of_nonneg_right most (by norm_num : (0 : ℝ) ≤ 2 ^ 96))
    rw [show (2 : ℝ) ^ 160 / 2 ^ 96 = 2 ^ 64 by norm_num, log_pow] at this
    exact_mod_cast this
  rw [abs_le]
  constructor
  · refine le_of_mul_le_mul_right ?_ (by linarith : 0 < log 2)
    norm_num at above two ⊢
    linarith
  · refine le_of_mul_le_mul_right ?_ (by linarith : 0 < log 2)
    norm_num at below ⊢
    linarith

theorem candidate_prices (low : minSqrt ≤ p) (high : p < maxSqrt) :
    realPrice ((logTwo p * logSqrt10001 - tickLowErr) / 2 ^ 128) * (1 + priceError) ≤ p ∧
      p < realPrice ((logTwo p * logSqrt10001 + tickHiErr) / 2 ^ 128 + 1) * (1 - priceError) := by
  have positive : 0 < p := lt_of_lt_of_le (by decide) low
  obtain ⟨M, value, below, above⟩ := logTwo_spec positive
  have digits := digits_bounded low high below above
  have scale := logSqrt10001_near
  obtain ⟨least, most⟩ := log_tickBase_bounds
  have two := log_two_lt_d9
  rw [value]
  set σ := log tickBase
  -- the error of the scale over all digits
  have drift : |(M : ℝ) * ((logSqrt10001 : ℝ) * σ / 2 ^ 64 - log 2)| ≤ (2 ^ 20 + 2) * (2 / 10 ^ 9) := by
    rw [abs_mul]
    exact mul_le_mul digits scale (abs_nonneg _) (by norm_num)
  rw [abs_le] at drift
  constructor
  · refine realPrice_le positive ?_
    set t := (M * 2 ^ 50 * logSqrt10001 - tickLowErr) / 2 ^ 128 with tick
    have bound : t * 2 ^ 128 ≤ M * 2 ^ 50 * logSqrt10001 - tickLowErr := Int.ediv_mul_le _ (by norm_num)
    have bound' : (t : ℝ) * 2 ^ 128 ≤ M * 2 ^ 50 * logSqrt10001 - tickLowErr := by exact_mod_cast bound
    have scaled := mul_le_mul_of_nonneg_right bound' (by linarith : 0 ≤ σ)
    unfold tickLowErr at scaled
    unfold priceError
    norm_num at drift scaled below least ⊢
    linarith
  · refine lt_realPrice positive ?_
    set t := (M * 2 ^ 50 * logSqrt10001 + tickHiErr) / 2 ^ 128 with tick
    have bound : M * 2 ^ 50 * logSqrt10001 + tickHiErr < (t + 1) * 2 ^ 128 := Int.lt_ediv_add_one_mul_self _ (by norm_num)
    have bound' : (M : ℝ) * 2 ^ 50 * logSqrt10001 + tickHiErr ≤ (t + 1) * 2 ^ 128 := by exact_mod_cast bound.le
    have scaled := mul_le_mul_of_nonneg_right bound' (by linarith : 0 ≤ σ)
    unfold tickHiErr at scaled
    unfold priceError
    push_cast
    norm_num at drift scaled above least two ⊢
    linarith

end

/-! ### Brackets -/

theorem sqrtRatio_min : sqrtRatioAtTick minTick = minSqrt := by decide +kernel

theorem sqrtRatio_max : sqrtRatioAtTick maxTick = maxSqrt := by decide +kernel

theorem lt_of_realPrice_lt (lt : realPrice t < realPrice u) : t < u := by
  unfold realPrice at lt
  exact (zpow_lt_zpow_iff_right₀ one_lt_tickBase).mp (lt_of_mul_lt_mul_left lt (by norm_num))

theorem tickAt_bracket (low : minSqrt ≤ p) (high : p < maxSqrt) :
    minTick ≤ tickAtSqrtRatio p ∧ tickAtSqrtRatio p < maxTick ∧ sqrtRatioAtTick (tickAtSqrtRatio p) ≤ p ∧
      p < sqrtRatioAtTick (tickAtSqrtRatio p + 1) := by
  obtain ⟨lower, upper⟩ := candidate_prices low high
  unfold tickAtSqrtRatio
  rw [if_neg (by omega), if_neg (by omega)]
  dsimp only
  have near : (logTwo p * logSqrt10001 - tickLowErr) / 2 ^ 128 ≤ (logTwo p * logSqrt10001 + tickHiErr) / 2 ^ 128 ∧
      (logTwo p * logSqrt10001 + tickHiErr) / 2 ^ 128 ≤ (logTwo p * logSqrt10001 - tickLowErr) / 2 ^ 128 + 1 := by
    unfold tickLowErr tickHiErr
    omega
  generalize (logTwo p * logSqrt10001 - tickLowErr) / 2 ^ 128 = tickLow at lower near ⊢
  generalize (logTwo p * logSqrt10001 + tickHiErr) / 2 ^ 128 = tickHi at upper near ⊢
  have error : (0 : ℝ) < 1 - priceError ∧ (0 : ℝ) < 1 + priceError := by constructor <;> norm_num [priceError]
  have least : minTick ≤ tickHi := by
    have bound := (sqrtRatio_bounds le_rfl (by decide : minTick ≤ maxTick)).1
    rw [sqrtRatio_min] at bound
    have : (minSqrt : ℝ) ≤ p := by exact_mod_cast low
    exact Int.lt_add_one_iff.mp
      (lt_of_realPrice_lt (lt_of_mul_lt_mul_right ((bound.trans this).trans_lt upper) error.1.le))
  have most : tickLow < maxTick := by
    have bound := (sqrtRatio_bounds (by decide : minTick ≤ maxTick) le_rfl).2
    rw [sqrtRatio_max] at bound
    have : (p : ℝ) < maxSqrt := by exact_mod_cast high
    exact lt_of_realPrice_lt (lt_of_mul_lt_mul_right ((lower.trans_lt this).trans_le bound) error.2.le)
  have from' : minTick ≤ tickLow → sqrtRatioAtTick tickLow ≤ p := by
    intro inside
    exact_mod_cast (sqrtRatio_bounds inside most.le).2.trans lower
  have upto : tickHi < maxTick → p < sqrtRatioAtTick (tickHi + 1) := by
    intro inside
    exact_mod_cast upper.trans_le (sqrtRatio_bounds (by omega) (by omega)).1
  split
  · rename_i same
    subst same
    exact ⟨least, most, from' least, upto most⟩
  rename_i apart
  obtain rfl : tickHi = tickLow + 1 := by omega
  split
  · rename_i reached
    have inside : tickLow + 1 < maxTick := by
      by_contra top
      rw [show tickLow + 1 = maxTick by omega, sqrtRatio_max] at reached
      omega
    exact ⟨least, inside, reached, upto inside⟩
  · rename_i short
    have inside : minTick ≤ tickLow := by
      by_contra bottom
      rw [show tickLow + 1 = minTick by omega, sqrtRatio_min] at short
      omega
    exact ⟨inside, most, from' inside, by omega⟩

theorem sqrtRatio_le (low : minTick ≤ t) (le : t ≤ u) (high : u ≤ maxTick) : sqrtRatioAtTick t ≤ sqrtRatioAtTick u := by
  rcases le.eq_or_lt with rfl | lt
  · exact Nat.le_refl _
  · exact (sqrtRatio_lt low lt high).le

theorem le_of_sqrtRatio_le (low : minTick ≤ u) (high : t ≤ maxTick)
    (le : sqrtRatioAtTick t ≤ sqrtRatioAtTick u) : t ≤ u := by
  by_contra lt
  exact absurd le (Nat.not_le.mpr (sqrtRatio_lt low (by omega) high))

/-! ### Clamped ticks -/

theorem clampTick_bounds (t : ℤ) : minTick ≤ clampTick t ∧ clampTick t ≤ maxTick := by
  unfold clampTick minTick maxTick
  split
  · omega
  · split <;> omega

theorem clampTick_mono (le : t ≤ u) : clampTick t ≤ clampTick u := by
  unfold clampTick minTick maxTick
  split_ifs <;> omega

theorem sqrtRatio_clamp (t : ℤ) : sqrtRatioAtTick (clampTick t) = sqrtRatioAtTick t := by
  obtain ⟨low, high⟩ := clampTick_bounds t
  unfold sqrtRatioAtTick
  rw [clampTick_inside low high]

theorem sqrtRatio_mono (le : t ≤ u) : sqrtRatioAtTick t ≤ sqrtRatioAtTick u := by
  rw [← sqrtRatio_clamp t, ← sqrtRatio_clamp u]
  exact sqrtRatio_le (clampTick_bounds t).1 (clampTick_mono le) (clampTick_bounds u).2

theorem lt_of_sqrtRatio_lt (lt : sqrtRatioAtTick t < sqrtRatioAtTick u) : t < u := by
  by_contra ge
  exact absurd (sqrtRatio_mono (not_lt.mp ge)) (not_le.mpr lt)

theorem sqrtRatio_range (t : ℤ) : minSqrt ≤ sqrtRatioAtTick t ∧ sqrtRatioAtTick t ≤ maxSqrt := by
  obtain ⟨low, high⟩ := clampTick_bounds t
  rw [← sqrtRatio_clamp, ← sqrtRatio_min, ← sqrtRatio_max]
  exact ⟨sqrtRatio_mono low, sqrtRatio_mono high⟩

theorem tickAt_sqrtRatio (low : minTick ≤ t) (high : t < maxTick) : tickAtSqrtRatio (sqrtRatioAtTick t) = t := by
  have below : sqrtRatioAtTick t < maxSqrt := by
    rw [← sqrtRatio_max]
    exact sqrtRatio_lt low high le_rfl
  obtain ⟨_, most, above, under⟩ := tickAt_bracket (sqrtRatio_range t).1 below
  have not_above := le_of_sqrtRatio_le low most.le above
  have not_below := lt_of_sqrtRatio_lt under
  omega

/-- The ratio grows with every tick, and the tick of a price is the only one whose ratio is not above it while the next
one's is. -/
theorem tick_and_price_inverse :
    (∀ t u : ℤ, minTick ≤ t → t < u → u ≤ maxTick → sqrtRatioAtTick t < sqrtRatioAtTick u) ∧
      (∀ p : ℕ, minSqrt ≤ p → p < maxSqrt → minTick ≤ tickAtSqrtRatio p ∧ tickAtSqrtRatio p < maxTick ∧
        sqrtRatioAtTick (tickAtSqrtRatio p) ≤ p ∧ p < sqrtRatioAtTick (tickAtSqrtRatio p + 1)) ∧
      ∀ t : ℤ, minTick ≤ t → t < maxTick → tickAtSqrtRatio (sqrtRatioAtTick t) = t :=
  ⟨fun _ _ low lt high => sqrtRatio_lt low lt high, fun _ low high => tickAt_bracket low high,
    fun _ low high => tickAt_sqrtRatio low high⟩

theorem tick_and_price_inverse_at_one :
    minSqrt ≤ 2 ^ 96 ∧ 2 ^ 96 < maxSqrt ∧ sqrtRatioAtTick 0 < sqrtRatioAtTick 1 ∧
      sqrtRatioAtTick (tickAtSqrtRatio (2 ^ 96)) ≤ 2 ^ 96 ∧ tickAtSqrtRatio (sqrtRatioAtTick 0) = 0 :=
  ⟨by decide, by decide, tick_and_price_inverse.1 0 1 (by decide) (by decide) (by decide),
    (tick_and_price_inverse.2.1 (2 ^ 96) (by decide) (by decide)).2.2.1,
    tick_and_price_inverse.2.2 0 (by decide) (by decide)⟩

end TradingEngine.Amm
