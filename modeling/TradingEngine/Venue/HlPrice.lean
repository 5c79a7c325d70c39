import TradingEngine.Base.Run

/-!
# Perp prices on Hyperliquid

A perp price has at most five significant figures and at most `6 - szDecimals` decimals, or is a whole number. Prices
are integers in millionths.
-/

namespace TradingEngine.Venue

def scale : Int := 1000000

def pow10 : Nat → Int
  | 0 => 1
  | k + 1 => pow10 k * 10

/-- The decimal digits of a positive number; no number has more digits than its value. -/
def digitsFrom : Nat → Int → Nat → Nat
  | 0, _, n => n
  | fuel + 1, x, n => if x ≥ 10 then digitsFrom fuel (x / 10) (n + 1) else n

def digits (v : Int) : Nat := digitsFrom v.toNat v 1

/-- The coarser of the decimal limit and the five-figure limit. -/
def quantum (px : Int) (szDecimals : Nat) : Int :=
  let dec := pow10 szDecimals
  let n := digits px
  let sig := if n > 5 then pow10 (n - 5) else 1
  if dec > sig then dec else sig

def hlPerpPxLegal (px : Int) (szDecimals : Nat) : Bool :=
  if px ≤ 0 ∨ szDecimals > 6 then false else px % scale = 0 ∨ px % quantum px szDecimals = 0

def hlPerpRoundPx (px : Int) (szDecimals : Nat) (up : Bool) : Int :=
  if px ≤ 0 ∨ szDecimals > 6 then 0
  else if hlPerpPxLegal px szDecimals then px
  else
    let q := quantum px szDecimals
    let down := px - px % q
    let r := if up then down + q else down
    if r > 0 ∧ ¬ hlPerpPxLegal r szDecimals then
      let q2 := quantum r szDecimals
      let d2 := r - r % q2
      if up then d2 + q2 else d2
    else r

theorem pow10_eq (k : Nat) : pow10 k = 10 ^ k := by
  induction k with
  | zero => rfl
  | succ k ih => rw [pow10, ih, pow_succ]

theorem digitsFrom_spec {fuel : Nat} {x : Int} (positive : 0 < x) (enough : x ≤ fuel) (n : Nat) :
    ∃ d, digitsFrom fuel x n = n + d ∧ 10 ^ d ≤ x ∧ x < 10 ^ (d + 1) := by
  induction fuel generalizing x n with
  | zero => omega
  | succ fuel ih =>
    rw [digitsFrom]
    split
    · rename_i more
      obtain ⟨d, same, low, high⟩ := ih (x := x / 10) (by omega) (by omega) (n + 1)
      refine ⟨d + 1, by omega, ?_, ?_⟩
      · rw [pow_succ]
        omega
      · rw [pow_succ]
        omega
    · exact ⟨0, rfl, by rw [pow_zero]; omega, by rw [zero_add, pow_one]; omega⟩

theorem digits_spec {v : Int} (positive : 0 < v) : ∃ d, digits v = d + 1 ∧ 10 ^ d ≤ v ∧ v < 10 ^ (d + 1) := by
  obtain ⟨d, same, low, high⟩ := digitsFrom_spec positive (Int.self_le_toNat v) 1
  exact ⟨d, by rw [digits, same, Nat.add_comm], low, high⟩

def grid (px : Int) (szDecimals : Nat) : Nat := max szDecimals (digits px - 5)

theorem quantum_eq (px : Int) (szDecimals : Nat) : quantum px szDecimals = 10 ^ grid px szDecimals := by
  have mono : ∀ {a b : Nat}, a ≤ b → (10 : Int) ^ a ≤ 10 ^ b := fun le => pow_le_pow_right₀ (by norm_num) le
  have sig : (if digits px > 5 then pow10 (digits px - 5) else 1) = (10 : Int) ^ (digits px - 5) := by
    split
    · exact pow10_eq _
    · rw [show digits px - 5 = 0 by omega, pow_zero]
  unfold quantum grid
  dsimp only
  rw [sig, pow10_eq]
  rcases Nat.le_total szDecimals (digits px - 5) with le | le
  · rw [max_eq_right le, if_neg (not_lt.mpr (mono le))]
  rw [max_eq_left le]
  split
  · rfl
  · rename_i not_more
    exact le_antisymm (mono le) (not_lt.mp not_more)

theorem legal_iff {px : Int} {szDecimals : Nat} (known : szDecimals ≤ 6) :
    hlPerpPxLegal px szDecimals = true ↔ 0 < px ∧ ((10 : Int) ^ 6 ∣ px ∨ (10 : Int) ^ grid px szDecimals ∣ px) := by
  unfold hlPerpPxLegal
  split
  · rename_i bad
    simp only [Bool.false_eq_true, false_iff]
    omega
  · rename_i good
    rw [decide_eq_true_eq, quantum_eq, ← Int.dvd_iff_emod_eq_zero, ← Int.dvd_iff_emod_eq_zero]
    have positive : 0 < px := by omega
    simp only [positive, true_and]
    rfl

section Grid

variable {px p : Int} {szDecimals : Nat}

theorem pow_dvd {a b : Nat} (le : a ≤ b) : (10 : Int) ^ a ∣ 10 ^ b := pow_dvd_pow 10 le

theorem lt_of_pow_lt {a b : Nat} (lt : (10 : Int) ^ a < 10 ^ b) : a < b := (pow_lt_pow_iff_right₀ (by norm_num)).mp lt

section

variable (positive : 0 < px)

include positive

theorem digits_mono (le : px ≤ p) : digits px ≤ digits p := by
  obtain ⟨d, same, low, _⟩ := digits_spec positive
  obtain ⟨e, same', _, high⟩ := digits_spec (positive.trans_le le)
  have := lt_of_pow_lt ((low.trans le).trans_lt high)
  omega

theorem grid_mono (le : px ≤ p) : grid px szDecimals ≤ grid p szDecimals := by
  have := digits_mono positive le
  unfold grid
  omega

theorem grid_le_six (known : szDecimals ≤ 6) (below : px < 10 ^ 11) : grid px szDecimals ≤ 6 := by
  obtain ⟨d, same, low, _⟩ := digits_spec positive
  have := lt_of_pow_lt (low.trans_lt below)
  unfold grid
  omega

theorem legal_above (known : szDecimals ≤ 6) (below : px < 10 ^ 11) (le : px ≤ p)
    (legal : hlPerpPxLegal p szDecimals = true) : (10 : Int) ^ grid px szDecimals ∣ p := by
  obtain ⟨_, whole | figures⟩ := (legal_iff known).mp legal
  · exact (pow_dvd (grid_le_six positive known below)).trans whole
  · exact (pow_dvd (grid_mono positive le)).trans figures

end

theorem digits_eq {d : Nat} (low : (10 : Int) ^ d ≤ p) (high : p < 10 ^ (d + 1)) : digits p = d + 1 := by
  obtain ⟨e, same, low', high'⟩ := digits_spec (lt_of_lt_of_le (by positivity) low)
  have := lt_of_pow_lt (low.trans_lt high')
  have := lt_of_pow_lt (low'.trans_lt high)
  omega

theorem next_le {q : Int} (positive : 0 < q) (grid : q ∣ p) (lt : px < p) : px - px % q + q ≤ p := by
  obtain ⟨k, rfl⟩ := grid
  have down : px - px % q = q * (px / q) := by
    have := Int.mul_ediv_add_emod px q
    omega
  have : px / q < k := Int.ediv_lt_of_lt_mul positive (by rwa [Int.mul_comm])
  calc px - px % q + q = q * (px / q + 1) := by rw [down]; ring
    _ ≤ q * k := Int.mul_le_mul_of_nonneg_left (by omega) positive.le

theorem le_down {q : Int} (positive : 0 < q) (grid : q ∣ p) (le : p ≤ px) : p ≤ px - px % q := by
  obtain ⟨k, rfl⟩ := grid
  have split := Int.mul_ediv_add_emod px q
  have fits : k ≤ px / q := Int.le_ediv_of_mul_le positive (by rwa [Int.mul_comm])
  have := Int.mul_le_mul_of_nonneg_left fits positive.le
  omega

theorem up_legal (positive : 0 < px) (known : szDecimals ≤ 6) :
    hlPerpPxLegal (px - px % 10 ^ grid px szDecimals + 10 ^ grid px szDecimals) szDecimals = true := by
  obtain ⟨d, same, low, high⟩ := digits_spec positive
  have unit : (0 : Int) < 10 ^ grid px szDecimals := by positivity
  have rest := Int.emod_lt_of_pos px unit
  have part : px % 10 ^ grid px szDecimals ≤ px := by
    have := Int.mul_ediv_add_emod px (10 ^ grid px szDecimals)
    have := mul_nonneg unit.le (Int.ediv_nonneg positive.le unit.le)
    omega
  have point : (10 : Int) ^ grid px szDecimals ∣ px - px % 10 ^ grid px szDecimals + 10 ^ grid px szDecimals :=
    dvd_add_self_right.mpr (Int.dvd_self_sub_emod)
  -- the next power of ten on the grid bounds the point
  have room : px < 10 ^ max (grid px szDecimals) (d + 1) := high.trans_le (pow_le_pow_right₀ (by norm_num) (le_max_right _ _))
  have most := next_le unit (pow_dvd (le_max_left (grid px szDecimals) (d + 1))) room
  generalize up : px - px % 10 ^ grid px szDecimals + 10 ^ grid px szDecimals = r at point most
  refine (legal_iff known).mpr ⟨by omega, .inr ?_⟩
  rcases most.lt_or_eq with less | top
  · have finer : grid px szDecimals < max (grid px szDecimals) (d + 1) := lt_of_pow_lt (lt_of_le_of_lt (by omega) less)
    have width : max (grid px szDecimals) (d + 1) = d + 1 := by omega
    rw [width] at less
    have : digits r = digits px := by rw [same, digits_eq (low.trans (by omega)) less]
    unfold grid at point ⊢
    rwa [this]
  · have digits : digits r = max (grid px szDecimals) (d + 1) + 1 :=
      digits_eq top.ge (by rw [top]; exact pow_lt_pow_right₀ (by norm_num) (by omega))
    rw [top]
    refine pow_dvd ?_
    have : szDecimals ≤ grid px szDecimals := le_max_left _ _
    rw [← top, grid, digits]
    omega

theorem down_legal (known : szDecimals ≤ 6) (some_left : 0 < px - px % 10 ^ grid px szDecimals) :
    hlPerpPxLegal (px - px % 10 ^ grid px szDecimals) szDecimals = true := by
  have rest := Int.emod_nonneg px (show (10 : Int) ^ grid px szDecimals ≠ 0 by positivity)
  refine (legal_iff known).mpr ⟨some_left, .inr ((pow_dvd (grid_mono some_left (by omega))).trans Int.dvd_self_sub_emod)⟩

theorem legal_below (positive : 0 < px) (known : szDecimals ≤ 6) (below : px < 10 ^ 11) (le : p ≤ px)
    (legal : hlPerpPxLegal p szDecimals = true) : p ≤ px - px % 10 ^ grid px szDecimals := by
  have unit : (0 : Int) < 10 ^ grid px szDecimals := by positivity
  obtain ⟨positive', on⟩ := (legal_iff known).mp legal
  obtain ⟨d, same, low, high⟩ := digits_spec positive
  obtain ⟨e, same', low', high'⟩ := digits_spec positive'
  have order := digits_mono positive' le
  have six := grid_le_six positive known below
  by_cases coarse : grid px szDecimals = grid p szDecimals
  · refine le_down unit ?_ le
    rcases on with whole | figures
    · exact (pow_dvd six).trans whole
    · rwa [coarse]
  · -- fewer digits on a finer grid: the power of ten between them is a grid point
    have fewer : e < d ∧ grid px szDecimals ≤ d := by
      unfold grid at coarse ⊢
      omega
    have power : (10 : Int) ^ d ≤ px - px % 10 ^ grid px szDecimals := le_down unit (pow_dvd fewer.2) low
    have : p < 10 ^ d := high'.trans_le (pow_le_pow_right₀ (by norm_num) (by omega))
    omega

end Grid

section Round

variable {px : Int} {szDecimals : Nat}

theorem round_legal {up : Bool} (legal : hlPerpPxLegal px szDecimals = true) : hlPerpRoundPx px szDecimals up = px := by
  have valid : ¬ (px ≤ 0 ∨ szDecimals > 6) := by
    intro bad
    simp [hlPerpPxLegal, bad] at legal
  rw [hlPerpRoundPx, if_neg valid, if_pos legal]

theorem round_eq (positive : 0 < px) (known : szDecimals ≤ 6) (illegal : ¬ hlPerpPxLegal px szDecimals = true)
    (up : Bool) : hlPerpRoundPx px szDecimals up =
      px - px % 10 ^ grid px szDecimals + if up then 10 ^ grid px szDecimals else 0 := by
  rw [hlPerpRoundPx, if_neg (by omega), if_neg illegal]
  simp only [quantum_eq]
  cases up
  · simp only [Bool.false_eq_true, if_false, add_zero]
    exact if_neg fun bad => bad.2 (down_legal known bad.1)
  · simp only [if_true]
    exact if_neg fun bad => bad.2 (up_legal positive known)

end Round

end TradingEngine.Venue
