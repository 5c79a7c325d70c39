import TradingEngine.Amm.TickMath

/-!
# Human prices

A price is token 1 per token 0 in human units, times ten to the eighteen.
-/

namespace TradingEngine.Amm

open Option

def pow10 (e : Nat) : Option Nat := if e > 77 then none else some (10 ^ e)

def scale10 (x : Nat) (e : Int) (roundUp : Bool) : Option Nat :=
  if 0 ≤ e then (pow10 e.toNat).bind (U256.checkedMul x)
  else
    match pow10 e.natAbs with
    | none => some 0
    | some p => if roundUp then U256.mulDivRoundingUp x 1 p else U256.mulDiv x 1 p

/-- Newton's step from above, until it no longer falls. -/
def newtonRoot (n x : Nat) : Nat :=
  if x ≤ (x + n / x) / 2 then x else newtonRoot n ((x + n / x) / 2)
termination_by x
decreasing_by omega

def isqrt (n : Nat) : Nat := if n < 2 then n else newtonRoot n (2 ^ ((n.log2 + 1 + 1) / 2))

/-- Half of a sum; the carry of the sum is the top bit of the half. -/
def U256.halfSum (x q : Nat) : Nat :=
  let s := wrappingAdd x q
  if u256Size ≤ x + q then wrappingAdd (s / 2) (2 ^ 255) else s / 2

/-- The loop of `U256.isqrt` in words. -/
def U256.isqrtFrom (n x : Nat) : Nat :=
  match checkedDiv n x with
  | none => 0
  | some q => if x ≤ halfSum x q then x else isqrtFrom n (halfSum x q)
termination_by x
decreasing_by omega

def U256.isqrt (n : Nat) : Nat := if n < 2 then n else isqrtFrom n (2 ^ ((n.log2 + 1 + 1) / 2))

/-- What the root is taken of; nothing when it does not fit. -/
def squaredPrice (px1e18 : Nat) (dec0 dec1 : Nat) : Option Nat :=
  let e : Int := 18 + dec0 - dec1
  if 0 ≤ e then
    match pow10 e.toNat with
    | none => some 0
    | some p => U256.mulDiv px1e18 (2 ^ 192) p
  else (scale10 px1e18 (-e) false).bind fun v => U256.checkedMul v (2 ^ 192)

def sqrtFromPrice (px1e18 : Nat) (dec0 dec1 : Nat) : Nat :=
  let s := (squaredPrice px1e18 dec0 dec1).elim maxSqrt isqrt
  if s < minSqrt then minSqrt else if maxSqrt ≤ s then maxSqrt - 1 else s

/-- The price of a root; a price that does not fit is the largest word. -/
def price1e18U (s dec0 dec1 : Nat) : Nat :=
  match U256.mulDiv s s (2 ^ 96) with
  | none => u256Size - 1
  | some p96 =>
    let e : Int := 18 + dec0 - dec1
    if 0 ≤ e then ((pow10 e.toNat).bind fun p => U256.mulDiv p96 p (2 ^ 96)).getD (u256Size - 1)
    else
      match (pow10 e.natAbs).bind fun p => U256.checkedMul p (2 ^ 96) with
      | none => 0
      | some d => (U256.mulDiv p96 1 d).getD (u256Size - 1)

def price1e18FromSqrt (s dec0 dec1 : Nat) : Nat := U256.saturatingU128 (price1e18U s dec0 dec1)

section Root

variable {n x : Nat}

theorem U256.halfSum_eq {q : Nat} (word : x < u256Size) (word' : q < u256Size) : halfSum x q = (x + q) / 2 := by
  unfold halfSum wrappingAdd u256Size at *
  dsimp only
  split <;> omega

theorem sqrt_le_step (n : Nat) (positive : 0 < x) : n.sqrt ≤ (x + n / x) / 2 := by
  have root := Nat.sqrt_le n
  have above := Nat.lt_div_mul_add (a := n) positive
  generalize n / x = q at above ⊢
  generalize n.sqrt = r at root ⊢
  by_contra low
  have less : x + (q + 1) ≤ 2 * r := by omega
  zify at *
  nlinarith only [root, above, less, sq_nonneg ((x : Int) - (q + 1))]

theorem newtonRoot_words (word : n < u256Size) (some : 0 < n) (above : n.sqrt ≤ x) (fits : x < u256Size) :
    U256.isqrtFrom n x = n.sqrt ∧ newtonRoot n x = n.sqrt := by
  -- the iterates fall and none passes the root
  induction x using Nat.strong_induction_on with
  | _ x ih =>
    have positive : 0 < x := (Nat.sqrt_pos.mpr some).trans_le above
    have step := sqrt_le_step n positive
    rw [U256.isqrtFrom, newtonRoot, U256.checkedDiv, if_neg positive.ne']
    dsimp only
    rw [U256.halfSum_eq fits ((Nat.div_le_self n x).trans_lt word)]
    by_cases stop : x ≤ (x + n / x) / 2
    · have root : x = n.sqrt := by
        refine (Nat.le_antisymm above (Nat.le_sqrt.mpr ?_)).symm
        calc x * x ≤ n / x * x := Nat.mul_le_mul_right x (by omega)
          _ ≤ n := Nat.div_mul_le_self n x
      rw [if_pos stop, if_pos stop]
      exact ⟨root, root⟩
    · rw [if_neg stop, if_neg stop]
      exact ih _ (by omega) step (by omega)

theorem sqrt_le_start (n : Nat) : n.sqrt ≤ 2 ^ ((n.log2 + 1 + 1) / 2) := by
  refine Nat.le_of_lt (Nat.sqrt_lt.mpr ?_)
  calc n < 2 ^ (n.log2 + 1) := Nat.lt_log2_self
    _ ≤ 2 ^ ((n.log2 + 1 + 1) / 2 + (n.log2 + 1 + 1) / 2) := Nat.pow_le_pow_right Nat.two_pos (by omega)
    _ = _ := Nat.pow_add ..

theorem isqrt_words (word : n < u256Size) : U256.isqrt n = n.sqrt ∧ isqrt n = n.sqrt := by
  unfold U256.isqrt isqrt
  by_cases small : n < 2
  · interval_cases n <;> simp
  have log : n.log2 < 256 := (Nat.log2_lt (by omega)).mpr word
  rw [if_neg small, if_neg small]
  exact newtonRoot_words word (by omega) (sqrt_le_start n) (Nat.pow_lt_pow_right (by decide) (by omega))

/-- The root is the floor; the loop ends there from every start that is not below it, also from those whose sum
with the quotient carries. -/
theorem isqrt_floor (n : Nat) (word : n < u256Size) :
    U256.isqrt n * U256.isqrt n ≤ n ∧ n < (U256.isqrt n + 1) * (U256.isqrt n + 1) ∧
    ∀ x < u256Size, 0 < n → n < (x + 1) * (x + 1) → U256.isqrtFrom n x = U256.isqrt n := by
  rw [(isqrt_words word).1]
  refine ⟨Nat.sqrt_le n, Nat.lt_succ_sqrt n, fun x fits some above => ?_⟩
  exact (newtonRoot_words word some (Nat.le_of_lt_succ (Nat.sqrt_lt.mpr above)) fits).1

theorem isqrt_floor_greatest : u256Size ≤ (u256Size - 1) + (u256Size - 1) / (u256Size - 1) ∧
    U256.isqrtFrom (u256Size - 1) (u256Size - 1) = U256.isqrt (u256Size - 1) ∧
    u256Size - 1 < (U256.isqrt (u256Size - 1) + 1) * (U256.isqrt (u256Size - 1) + 1) :=
  have root := isqrt_floor (u256Size - 1) (by decide)
  ⟨by decide, root.2.2 _ (by decide) (by decide) (by decide), root.2.1⟩

end Root

theorem sqrtFromPrice_lt (px1e18 dec0 dec1 : Nat) : sqrtFromPrice px1e18 dec0 dec1 < maxSqrt := by
  unfold sqrtFromPrice
  have apart : minSqrt < maxSqrt := by decide
  have some_price : 0 < maxSqrt := by decide
  dsimp only
  split
  · exact apart
  · split
    · omega
    · omega

theorem pow10_eq {e p : Nat} (fits : pow10 e = some p) : p = 10 ^ e := by
  unfold pow10 at fits
  split at fits
  · cases fits
  · exact (some.inj fits).symm

theorem U256.mulDiv_some {a b d q : Nat} (found : U256.mulDiv a b d = some q) : 0 < d ∧ q = a * b / d := by
  unfold U256.mulDiv at found
  split_ifs at found with zero fits
  exact ⟨Nat.pos_of_ne_zero zero, (some.inj found).symm⟩

theorem U256.checkedMul_some {a b q : Nat} (found : U256.checkedMul a b = some q) : q = a * b := by
  unfold U256.checkedMul at found
  split_ifs at found
  exact (some.inj found).symm

theorem scale10_back {x y z : Nat} {e : Int} {most : Nat} (there : scale10 x e false = some y) (less : most ≤ y)
    (back : scale10 most (-e) false = some z) : z ≤ x := by
  rcases lt_trichotomy e 0 with low | rfl | high
  · have p_eq : (-e).toNat = e.natAbs := by omega
    unfold scale10 at there back
    rw [if_neg (by omega)] at there
    rw [if_pos (by omega), p_eq] at back
    cases power : pow10 e.natAbs with
    | none =>
      rw [power] at back
      cases back
    | some p =>
      rw [power] at there back
      obtain ⟨positive, rfl⟩ := U256.mulDiv_some there
      rw [U256.checkedMul_some back, Nat.mul_one] at *
      calc most * p ≤ x / p * p := Nat.mul_le_mul_right p less
        _ ≤ x := Nat.div_mul_le_self x p
  · have one : scale10 most 0 false = some z := back
    obtain ⟨p, power, same⟩ := bind_eq_some_iff.mp (show (pow10 0).bind (U256.checkedMul most) = some z from one)
    obtain ⟨p', power', same'⟩ := bind_eq_some_iff.mp (show (pow10 0).bind (U256.checkedMul x) = some y from there)
    rw [pow10_eq power] at same
    rw [pow10_eq power'] at same'
    rw [U256.checkedMul_some same]
    rw [U256.checkedMul_some same'] at less
    simpa using less
  · have p_eq : (-e).natAbs = e.toNat := by omega
    unfold scale10 at there back
    rw [if_pos high.le] at there
    rw [if_neg (by omega), p_eq] at back
    obtain ⟨p, power, whole⟩ := bind_eq_some_iff.mp there
    rw [power] at back
    obtain ⟨positive, rfl⟩ := U256.mulDiv_some back
    rw [U256.checkedMul_some whole] at less
    rw [Nat.mul_one]
    exact Nat.div_le_of_le_mul (by rwa [Nat.mul_comm p])

section Scaling

variable {x y : Nat} {e : Int}

theorem U256.le_mulDivRoundingUp {a b d q : Nat} (found : U256.mulDivRoundingUp a b d = some q) : a * b ≤ q * d := by
  obtain ⟨floor, whole, raised⟩ := bind_eq_some_iff.mp found
  obtain ⟨positive, rfl⟩ := U256.mulDiv_some whole
  have rest := Nat.div_add_mod (a * b) d
  have less := Nat.mod_lt (a * b) positive
  rw [Nat.mul_comm d] at rest
  split_ifs at raised with even
  · cases raised
    omega
  unfold U256.checkedAdd at raised
  split_ifs at raised
  cases raised
  rw [Nat.add_mul]
  omega

theorem pow10_zpow {n : Nat} (same : e = n) : (10 : ℚ) ^ e = ((10 ^ n : Nat) : ℚ) := by
  rw [same, zpow_natCast]
  push_cast
  rfl

theorem pow10_zpow_neg {n : Nat} (same : e = -n) : (10 : ℚ) ^ e = 1 / ((10 ^ n : Nat) : ℚ) := by
  rw [same, zpow_neg, zpow_natCast, one_div]
  push_cast
  rfl

theorem scale10_up {roundUp : Bool} (up : 0 ≤ e) (scaled : scale10 x e roundUp = some y) : (y : ℚ) = x * 10 ^ e := by
  unfold scale10 at scaled
  rw [if_pos up] at scaled
  obtain ⟨power, ten, product⟩ := bind_eq_some_iff.mp scaled
  rw [U256.checkedMul_some product, pow10_eq ten, pow10_zpow (show e = e.toNat by omega)]
  push_cast
  rfl

theorem scale10_le (scaled : scale10 x e false = some y) : (y : ℚ) ≤ x * 10 ^ e := by
  rcases le_or_gt 0 e with up | down
  · exact (scale10_up up scaled).le
  rw [pow10_zpow_neg (show e = -e.natAbs by omega), mul_one_div]
  unfold scale10 at scaled
  rw [if_neg (not_le.mpr down)] at scaled
  cases ten : pow10 e.natAbs with
  | none =>
    rw [ten] at scaled
    cases scaled
    positivity
  | some power =>
    rw [ten] at scaled
    obtain ⟨_, rfl⟩ := U256.mulDiv_some scaled
    rw [pow10_eq ten, Nat.mul_one]
    exact Nat.cast_div_le

theorem le_scale10 (fits : -77 ≤ e) (scaled : scale10 x e true = some y) : x * (10 : ℚ) ^ e ≤ y := by
  rcases le_or_gt 0 e with up | down
  · exact (scale10_up up scaled).ge
  rw [pow10_zpow_neg (show e = -e.natAbs by omega), mul_one_div]
  unfold scale10 at scaled
  rw [if_neg (not_le.mpr down), pow10, if_neg (by omega)] at scaled
  have covers := U256.le_mulDivRoundingUp scaled
  rw [Nat.mul_one] at covers
  rw [div_le_iff₀ (by positivity)]
  exact_mod_cast covers

end Scaling

end TradingEngine.Amm
