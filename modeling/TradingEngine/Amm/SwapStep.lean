import TradingEngine.Amm.SqrtPrice

/-!
# What a swap step does

Inside the domain of prices and liquidities no step fails.
-/

namespace TradingEngine.Amm

open Base Option

theorem U256.mulDiv_eq {a b d : Nat} (positive : 0 < d) (fits : a * b / d < u256Size) :
    mulDiv a b d = some (a * b / d) := by
  rw [mulDiv, if_neg positive.ne', if_pos fits]

theorem U256.mulDivRoundingUp_eq {a b d : Nat} (positive : 0 < d) (fits : a * b ⌈/⌉ d < u256Size) :
    mulDivRoundingUp a b d = some (a * b ⌈/⌉ d) := by
  rw [ceilDiv_eq_div positive] at fits ⊢
  have low : a * b / d < u256Size := by split at fits <;> omega
  rw [mulDivRoundingUp, mulDiv_eq positive low, bind_some]
  split_ifs at fits ⊢ with whole
  · rfl
  · rw [checkedAdd, if_pos fits]

theorem U256.divRoundingUp_eq {a d : Nat} (positive : 0 < d) (fits : a ⌈/⌉ d < u256Size) :
    divRoundingUp a d = some (a ⌈/⌉ d) := by
  rw [ceilDiv_eq_div positive] at fits ⊢
  rw [divRoundingUp, checkedDiv, if_neg positive.ne', bind_some]
  split_ifs at fits ⊢ with whole
  · rfl
  · rw [checkedAdd, if_pos fits]

theorem scaled_lt {L : Nat} (fits : L < u128Size) : L * 2 ^ 96 < 2 ^ 224 := by
  unfold u128Size at fits
  omega

theorem U256.shl_eq {L : Nat} (fits : L < u128Size) : shl L 96 = L * 2 ^ 96 :=
  Nat.mod_eq_of_lt ((scaled_lt fits).trans (by decide))

/-! ### The exact amounts -/

/-- Token 0 between two prices, rounded up. -/
def owed0 (L lo hi : Nat) : Nat := L * 2 ^ 96 * (hi - lo) ⌈/⌉ (hi * lo)

/-- Token 0 between two prices, rounded down. -/
def paid0 (L lo hi : Nat) : Nat := L * 2 ^ 96 * (hi - lo) / (hi * lo)

/-- Token 1 between two prices, rounded up. -/
def owed1 (L lo hi : Nat) : Nat := L * (hi - lo) ⌈/⌉ 2 ^ 96

/-- Token 1 between two prices, rounded down. -/
def paid1 (L lo hi : Nat) : Nat := L * (hi - lo) / 2 ^ 96

def owed (zeroForOne : Bool) (L current next : Nat) : Nat :=
  if zeroForOne then owed0 L next current else owed1 L current next

def paid (zeroForOne : Bool) (L current next : Nat) : Nat :=
  if zeroForOne then paid1 L next current else paid0 L current next

section Sides

variable (L current next : Nat)

@[simp] theorem owed_up : owed false L current next = owed1 L current next := if_neg Bool.false_ne_true

@[simp] theorem owed_down : owed true L current next = owed0 L next current := if_pos rfl

@[simp] theorem paid_up : paid false L current next = paid0 L current next := if_neg Bool.false_ne_true

@[simp] theorem paid_down : paid true L current next = paid1 L next current := if_pos rfl

end Sides

section Amounts

variable {L lo hi : Nat}

theorem owed0_le (positive : 0 < lo) (le : lo ≤ hi) : owed0 L lo hi ≤ L * 2 ^ 96 := by
  have pos : 0 < hi := by omega
  refine (ceilDiv_le_iff_le_mul (Nat.mul_pos pos positive)).mpr ?_
  calc L * 2 ^ 96 * (hi - lo) ≤ L * 2 ^ 96 * (hi * lo) :=
        Nat.mul_le_mul_left _ ((Nat.sub_le hi lo).trans (Nat.le_mul_of_pos_right hi positive))
    _ = hi * lo * (L * 2 ^ 96) := Nat.mul_comm _ _

theorem owed1_le (lo : Nat) (liquid : L < u128Size) (priced : hi < u160Size) : owed1 L lo hi ≤ 2 ^ 192 := by
  refine (ceilDiv_le_iff_le_mul (by positivity)).mpr ?_
  unfold u128Size at liquid
  unfold u160Size at priced
  calc L * (hi - lo) ≤ 2 ^ 128 * 2 ^ 160 := Nat.mul_le_mul liquid.le (by omega)
    _ = 2 ^ 96 * 2 ^ 192 := by norm_num

theorem paid1_le_owed1 : paid1 L lo hi ≤ owed1 L lo hi := div_le_ceilDiv

theorem inner_lt (lo : Nat) (pos : 0 < hi) (liquid : L < u128Size) : L * 2 ^ 96 * (hi - lo) ⌈/⌉ hi < u256Size := by
  refine lt_of_le_of_lt ((ceilDiv_le_iff_le_mul pos).mpr ?_) ((scaled_lt liquid).trans (by decide))
  rw [Nat.mul_comm hi]
  exact Nat.mul_le_mul_left _ (Nat.sub_le hi lo)

variable (positive : 0 < lo) (le : lo ≤ hi) (liquid : L < u128Size) (priced : hi < u160Size)

include positive le liquid in

theorem amount0Delta_up : amount0Delta lo hi L true = some (owed0 L lo hi) := by
  have pos : 0 < hi := by omega
  have small := (owed0_le (L := L) positive le).trans_lt ((scaled_lt liquid).trans (show _ < u256Size by decide))
  unfold owed0 at small ⊢
  rw [amount0Delta, if_pos le, U256.shl_eq liquid]
  simp only [positive.ne', if_false, if_true, U256.checkedSub, le, bind_some]
  rw [U256.mulDivRoundingUp_eq pos (inner_lt lo pos liquid), bind_some,
    U256.divRoundingUp_eq positive (by rwa [ceilDiv_ceilDiv pos positive]), ceilDiv_ceilDiv pos positive]

include positive le liquid in

theorem amount0Delta_down : amount0Delta lo hi L false = some (paid0 L lo hi) := by
  have pos : 0 < hi := by omega
  rw [amount0Delta, if_pos le, U256.shl_eq liquid]
  simp only [positive.ne', if_false, U256.checkedSub, le, if_true, bind_some, Bool.false_eq_true]
  rw [U256.mulDiv_eq pos (lt_of_le_of_lt div_le_ceilDiv (inner_lt lo pos liquid)), bind_some, U256.checkedDiv, if_neg positive.ne',
    Nat.div_div_eq_div_mul, paid0]

include le liquid priced in

theorem amount1Delta_up : amount1Delta lo hi L true = some (owed1 L lo hi) := by
  have small := owed1_le lo liquid priced
  unfold owed1 at small ⊢
  rw [amount1Delta, if_pos le]
  simp only [U256.checkedSub, le, if_true, bind_some]
  rw [U256.mulDivRoundingUp_eq (by positivity) (lt_of_le_of_lt small (by unfold u256Size; norm_num))]

include le liquid priced in

theorem amount1Delta_down : amount1Delta lo hi L false = some (paid1 L lo hi) := by
  have small := paid1_le_owed1.trans (owed1_le lo liquid priced)
  unfold paid1 at small ⊢
  rw [amount1Delta, if_pos le]
  simp only [U256.checkedSub, le, if_true, bind_some, Bool.false_eq_true, if_false]
  rw [U256.mulDiv_eq (by positivity) (lt_of_le_of_lt small (by unfold u256Size; norm_num))]

end Amounts

section Prices

variable {L sp amount target : Nat}

theorem nextFromAmount0Up_add (positive : 0 < sp) (priced : sp < u160Size) (liquid : 0 < L) (small : L < u128Size)
    (fits : amount ≤ 2 ^ 224) :
    ∃ next, nextFromAmount0Up sp L amount true = some next ∧ next ≤ sp ∧
      L * 2 ^ 96 * sp ≤ next * (L * 2 ^ 96 + amount * sp) := by
  have bound := scaled_lt small
  unfold nextFromAmount0Up
  by_cases zero : amount = 0
  · exact ⟨sp, if_pos zero, le_rfl, by rw [zero, Nat.zero_mul, Nat.add_zero, Nat.mul_comm]⟩
  rw [if_neg zero, U256.shl_eq small]
  simp only [if_true]
  have npos : 0 < L * 2 ^ 96 := by positivity
  generalize L * 2 ^ 96 = n at npos bound ⊢
  unfold u160Size at priced
  split
  · rename_i den sum
    obtain rfl : n + amount * sp = den := by
      simp only [U256.checkedMul, U256.checkedAdd, bind_eq_some_iff] at sum
      obtain ⟨p, product, sum⟩ := sum
      split at product
      · cases product
        split at sum
        · exact some.inj sum
        · exact absurd sum (by simp)
      · exact absurd product (by simp)
    have dpos : 0 < n + amount * sp := by omega
    have most : n * sp ⌈/⌉ (n + amount * sp) ≤ sp := by
      refine (ceilDiv_le_iff_le_mul dpos).mpr ?_
      exact Nat.mul_le_mul_right sp (by omega)
    refine ⟨_, U256.mulDivRoundingUp_eq dpos (by unfold u256Size; omega), most, ?_⟩
    rw [Nat.mul_comm _ (n + amount * sp)]
    exact le_ceilDiv_mul dpos
  · -- the sum passes 256 bits: divide first, which can only raise the price
    have quotient : n / sp ≤ n := Nat.div_le_self n sp
    have dpos : 0 < n / sp + amount := Nat.add_pos_right _ (Nat.pos_of_ne_zero zero)
    have most : n ⌈/⌉ (n / sp + amount) ≤ sp := by
      refine (ceilDiv_le_iff_le_mul dpos).mpr ?_
      calc n ≤ sp * (n / sp + 1) := (Nat.lt_mul_div_succ n positive).le
        _ ≤ sp * (n / sp + amount) := Nat.mul_le_mul_left sp (Nat.add_le_add_left (Nat.one_le_iff_ne_zero.mpr zero) _)
        _ = (n / sp + amount) * sp := Nat.mul_comm _ _
    refine ⟨n ⌈/⌉ (n / sp + amount), ?_, most, ?_⟩
    · rw [U256.checkedDiv, if_neg positive.ne', bind_some, U256.checkedAdd,
        if_pos (by unfold u256Size; omega), bind_some, U256.divRoundingUp_eq dpos (by unfold u256Size; omega)]
    have up := le_ceilDiv_mul (x := n) dpos
    generalize n ⌈/⌉ (n / sp + amount) = next at up ⊢
    have down : sp * (n / sp) ≤ n := Nat.mul_div_le n sp
    calc n * sp ≤ (n / sp + amount) * next * sp := Nat.mul_le_mul_right sp up
      _ = next * (sp * (n / sp) + amount * sp) := by ring
      _ ≤ next * (n + amount * sp) := Nat.mul_le_mul_left next (by omega)

theorem nextFromAmount0Up_sub (positive : 0 < sp) (priced : target < u160Size) (small : L < u128Size)
    (enough : amount < paid0 L sp target) (le : sp ≤ target) :
    ∃ next, nextFromAmount0Up sp L amount false = some next ∧ sp ≤ next ∧ next ≤ target ∧
      amount * (next * sp) ≤ L * 2 ^ 96 * (next - sp) := by
  have bound := scaled_lt small
  unfold nextFromAmount0Up
  by_cases zero : amount = 0
  · exact ⟨sp, if_pos zero, le_rfl, le, by simp [zero]⟩
  rw [if_neg zero, U256.shl_eq small]
  unfold paid0 at enough
  generalize L * 2 ^ 96 = n at bound enough ⊢
  have tpos : 0 < target := by omega
  obtain ⟨gap, rfl⟩ := Nat.exists_eq_add_of_le le
  have exact : (amount + 1) * ((sp + gap) * sp) ≤ n * gap := by
    have := (Nat.le_div_iff_mul_le (Nat.mul_pos tpos positive)).mp (Nat.succ_le_of_lt enough)
    simpa using this
  have cost : amount * sp * (sp + gap) ≤ n * gap := le_trans (by nlinarith) exact
  have less : amount * sp < n := by
    by_contra more
    have : n * (sp + gap) ≤ amount * sp * (sp + gap) := Nat.mul_le_mul_right _ (by omega)
    have : 0 < (sp + gap) * sp := Nat.mul_pos tpos positive
    nlinarith
  have npos : 0 < n := by omega
  obtain ⟨den, rfl⟩ := Nat.exists_eq_add_of_le less.le
  have dpos : 0 < den := by omega
  have most : (amount * sp + den) * sp ⌈/⌉ den ≤ sp + gap := (ceilDiv_le_iff_le_mul dpos).mpr (by nlinarith)
  have up := le_ceilDiv_mul (x := (amount * sp + den) * sp) dpos
  have above : sp ≤ (amount * sp + den) * sp ⌈/⌉ den :=
    le_of_mul_le_mul_left ((Nat.mul_le_mul_right sp (by omega)).trans up) dpos
  refine ⟨(amount * sp + den) * sp ⌈/⌉ den, ?_, ?_, most, ?_⟩
  · have product : U256.checkedMul amount sp = some (amount * sp) := if_pos (by unfold u256Size; omega)
    have part : U256.checkedSub (amount * sp + den) (amount * sp) = some den := by
      rw [U256.checkedSub, if_pos (by omega), Nat.add_sub_cancel_left]
    simp only [Bool.false_eq_true, if_false, product, bind_some]
    rw [if_neg (by omega), part, bind_some,
      U256.mulDivRoundingUp_eq dpos (by unfold u160Size at priced; unfold u256Size; omega), bind_some, fitPrice,
      if_pos (by omega)]
  · exact above
  · generalize (amount * sp + den) * sp ⌈/⌉ den = next at up above
    obtain ⟨rise, rfl⟩ := Nat.exists_eq_add_of_le above
    rw [Nat.add_sub_cancel_left]
    nlinarith

theorem nextFromAmount1Down_add (priced : target < u160Size) (short : amount < owed1 L sp target) :
    nextFromAmount1Down sp L amount true = some (sp + amount * 2 ^ 96 / L) ∧ sp + amount * 2 ^ 96 / L < target := by
  have exact : 2 ^ 96 * amount < L * (target - sp) := (lt_ceilDiv_iff (by positivity)).mp short
  have liquid : 0 < L := Nat.pos_of_ne_zero (by rintro rfl; simp at exact)
  have rise : amount * 2 ^ 96 / L < target - sp := by
    rw [Nat.div_lt_iff_lt_mul liquid, Nat.mul_comm amount, Nat.mul_comm (target - sp)]
    exact exact
  have fits : amount * 2 ^ 96 / L < u256Size := by
    unfold u160Size at priced
    unfold u256Size
    exact rise.trans (by omega)
  rw [nextFromAmount1Down, if_pos rfl, U256.mulDiv_eq liquid fits, bind_some]
  generalize amount * 2 ^ 96 / L = q at rise
  unfold u160Size at priced
  refine ⟨?_, by omega⟩
  rw [U256.checkedAdd, if_pos (by unfold u256Size; omega), bind_some, fitPrice, if_pos (by unfold u160Size; omega)]

theorem nextFromAmount1Down_sub (positive : 0 < target) (priced : sp < u160Size) (enough : amount < paid1 L target sp) :
    nextFromAmount1Down sp L amount false = some (sp - amount * 2 ^ 96 ⌈/⌉ L) ∧ amount * 2 ^ 96 ⌈/⌉ L ≤ sp - target ∧
      amount * 2 ^ 96 ≤ L * (amount * 2 ^ 96 ⌈/⌉ L) := by
  have exact : (amount + 1) * 2 ^ 96 ≤ L * (sp - target) :=
    (Nat.le_div_iff_mul_le (by positivity)).mp (Nat.succ_le_of_lt enough)
  have liquid : 0 < L := Nat.pos_of_ne_zero (by rintro rfl; simp at exact)
  have fall : amount * 2 ^ 96 ⌈/⌉ L ≤ sp - target := (ceilDiv_le_iff_le_mul liquid).mpr
    ((Nat.mul_le_mul_right _ (Nat.le_succ amount)).trans exact)
  unfold u160Size at priced
  refine ⟨?_, fall, le_ceilDiv_mul liquid⟩
  have less : ¬ sp ≤ amount * 2 ^ 96 ⌈/⌉ L := by
    intro all
    have : sp - target = 0 := by omega
    rw [this, Nat.mul_zero] at exact
    omega
  rw [nextFromAmount1Down, if_neg Bool.false_ne_true, U256.mulDivRoundingUp_eq liquid (by unfold u256Size; omega),
    bind_some, if_neg less, U256.checkedSub, if_pos (by omega)]

end Prices

/-! ### The step -/

/-- The second price lies on the trading side of the first. -/
def Toward (zeroForOne : Bool) (p q : Nat) : Prop := if zeroForOne then q ≤ p else p ≤ q

theorem toward_up {p q : Nat} : Toward false p q ↔ p ≤ q := by simp [Toward]

theorem toward_down {p q : Nat} : Toward true p q ↔ q ≤ p := by simp [Toward]

theorem Toward.refl (zeroForOne : Bool) (p : Nat) : Toward zeroForOne p p := by
  cases zeroForOne <;> simp [Toward]

theorem Toward.trans {zeroForOne : Bool} {p q r : Nat} (first : Toward zeroForOne p q) (second : Toward zeroForOne q r) :
    Toward zeroForOne p r := by
  unfold Toward at *
  split_ifs at * <;> omega

theorem toward_decide (p q : Nat) : Toward (decide (q ≤ p)) p q := by
  simp only [Toward, decide_eq_true_eq]
  split <;> omega

structure Priced (p : Nat) : Prop where
  positive : 0 < p
  fits : p < u160Size

section Step

variable {zeroForOne : Bool} {current next target L amount : Nat}

theorem Priced.between (start : Priced current) (stop : Priced target) (first : Toward zeroForOne current next)
    (second : Toward zeroForOne next target) : Priced next := by
  obtain ⟨cpos, cfits⟩ := start
  obtain ⟨tpos, tfits⟩ := stop
  unfold Toward at *
  split_ifs at * <;> exact ⟨by omega, by omega⟩

theorem inputDelta_eq (liquid : L < u128Size) (priced : Priced next) (toward : Toward zeroForOne current next) :
    inputDelta zeroForOne current next L = some (owed zeroForOne L current next) := by
  cases zeroForOne
  · rw [inputDelta, if_neg Bool.false_ne_true, owed_up, amount1Delta_up (toward_up.mp toward) liquid priced.fits]
  · rw [inputDelta, if_pos rfl, owed_down, amount0Delta_up priced.positive (toward_down.mp toward) liquid]

theorem outputDelta_eq (start : Priced current) (liquid : L < u128Size) (toward : Toward zeroForOne current next) :
    outputDelta zeroForOne current next L = some (paid zeroForOne L current next) := by
  cases zeroForOne
  · rw [outputDelta, if_neg Bool.false_ne_true, paid_up, amount0Delta_down start.positive (toward_up.mp toward) liquid]
  · rw [outputDelta, if_pos rfl, paid_down, amount1Delta_down (toward_down.mp toward) liquid start.fits]

theorem liquid_of_lt_owed (short : amount < owed zeroForOne L current target) : L ≠ 0 := by
  rintro rfl
  cases zeroForOne <;> simp [owed0, owed1] at short

theorem liquid_of_lt_paid (enough : amount < paid zeroForOne L current target) : L ≠ 0 := by
  rintro rfl
  cases zeroForOne <;> simp [paid0, paid1] at enough

theorem owed_le (liquid : L < u128Size) (priced : Priced next)
    (toward : Toward zeroForOne current next) : owed zeroForOne L current next ≤ 2 ^ 224 := by
  cases zeroForOne
  · rw [owed_up]
    exact (owed1_le _ liquid priced.fits).trans (Nat.pow_le_pow_right (by norm_num) (by norm_num))
  rw [owed_down]
  exact (owed0_le priced.positive (toward_down.mp toward)).trans (scaled_lt liquid).le

variable (start : Priced current) (stop : Priced target) (liquid : L < u128Size)

include start stop liquid in

theorem nextFromInput_short (toward : Toward zeroForOne current target)
    (short : amount < owed zeroForOne L current target) :
    ∃ next, nextFromInput current L amount zeroForOne = some next ∧ Toward zeroForOne current next ∧
      Toward zeroForOne next target ∧ next ≠ target ∧ owed zeroForOne L current next ≤ amount := by
  have positive := Nat.pos_of_ne_zero (liquid_of_lt_owed short)
  have small := short.le.trans (owed_le liquid stop toward)
  have live : ¬ (current = 0 ∨ L = 0) := not_or.mpr ⟨start.positive.ne', positive.ne'⟩
  rw [nextFromInput, if_neg live]
  cases zeroForOne
  · rw [owed_up] at short
    obtain ⟨found, less⟩ := nextFromAmount1Down_add stop.fits short
    refine ⟨_, (if_neg Bool.false_ne_true).trans found, ?_⟩
    rw [toward_up, toward_up, owed_up, owed1, Nat.add_sub_cancel_left, ceilDiv_le_iff_le_mul (by positivity),
      Nat.mul_comm (2 ^ 96)]
    exact ⟨Nat.le_add_right _ _, less.le, less.ne, Nat.mul_div_le _ L⟩
  · rw [owed_down, owed0, lt_ceilDiv_iff (Nat.mul_pos start.positive stop.positive)] at short
    obtain ⟨next, found, le, exact⟩ := nextFromAmount0Up_add start.positive start.fits positive liquid small
    refine ⟨next, (if_pos rfl).trans found, ?_⟩
    rw [toward_down] at toward
    generalize num : L * 2 ^ 96 = n at exact short
    have more : target < next := by
      by_contra not_more
      have : next * (n + amount * current) ≤ target * (n + amount * current) := Nat.mul_le_mul_right _ (by omega)
      obtain ⟨gap, rfl⟩ := Nat.exists_eq_add_of_le toward
      rw [Nat.add_sub_cancel_left] at short
      nlinarith
    rw [toward_down, toward_down, owed_down, owed0, num, ceilDiv_le_iff_le_mul (Nat.mul_pos start.positive (by omega))]
    refine ⟨le, more.le, more.ne', ?_⟩
    obtain ⟨fall, rfl⟩ := Nat.exists_eq_add_of_le le
    rw [Nat.add_sub_cancel_left]
    nlinarith

include start stop liquid in

theorem nextFromOutput_short (toward : Toward zeroForOne current target) (enough : amount < paid zeroForOne L current target) :
    ∃ next, nextFromOutput current L amount zeroForOne = some next ∧ Toward zeroForOne current next ∧
      Toward zeroForOne next target ∧ amount ≤ paid zeroForOne L current next := by
  have live : ¬ (current = 0 ∨ L = 0) := not_or.mpr ⟨start.positive.ne', liquid_of_lt_paid enough⟩
  rw [nextFromOutput, if_neg live]
  cases zeroForOne
  · rw [paid_up] at enough
    rw [toward_up] at toward
    obtain ⟨next, found, above, below, pays⟩ := nextFromAmount0Up_sub start.positive stop.fits liquid enough toward
    refine ⟨next, (if_neg Bool.false_ne_true).trans found, ?_⟩
    rw [toward_up, toward_up, paid_up, paid0,
      Nat.le_div_iff_mul_le (Nat.mul_pos (start.positive.trans_le above) start.positive)]
    exact ⟨above, below, pays⟩
  · rw [paid_down] at enough
    rw [toward_down] at toward
    obtain ⟨found, fall, pays⟩ := nextFromAmount1Down_sub stop.positive start.fits enough
    refine ⟨_, (if_pos rfl).trans found, ?_⟩
    rw [toward_down, toward_down, paid_down, paid1, Nat.le_div_iff_mul_le (by positivity)]
    generalize amount * 2 ^ 96 ⌈/⌉ L = q at fall pays
    refine ⟨Nat.sub_le _ _, by omega, ?_⟩
    rwa [Nat.sub_sub_self (by omega)]

def lessFee (remaining feePips : Nat) : Nat := remaining * (pips - feePips) / pips

structure Stepped (zeroForOne : Bool) (current target L remaining : Nat) (exactIn : Bool) (feePips : Nat) (st : Step) :
    Prop where
  toward : Toward zeroForOne current st.sqrtNext
  within : Toward zeroForOne st.sqrtNext target
  amountIn : st.amountIn = owed zeroForOne L current st.sqrtNext
  amountOut : st.amountOut =
    if exactIn then paid zeroForOne L current st.sqrtNext else min (paid zeroForOne L current st.sqrtNext) remaining
  fee : st.fee = if exactIn ∧ st.sqrtNext ≠ target then remaining - st.amountIn
    else st.amountIn * feePips ⌈/⌉ (pips - feePips)
  spends : exactIn → st.amountIn + st.fee ≤ remaining
  spent : exactIn → st.sqrtNext ≠ target → st.amountIn + st.fee = remaining
  delivers : ¬ exactIn → st.sqrtNext ≠ target → st.amountOut = remaining
  input : exactIn → if st.sqrtNext = target then owed zeroForOne L current target ≤ lessFee remaining feePips
    else lessFee remaining feePips < owed zeroForOne L current target ∧
      nextFromInput current L (lessFee remaining feePips) zeroForOne = some st.sqrtNext
  output : ¬ exactIn → (paid zeroForOne L current target ≤ remaining ∧ st.sqrtNext = target) ∨
    (remaining < paid zeroForOne L current target ∧
      nextFromOutput current L remaining zeroForOne = some st.sqrtNext)

variable {remaining feePips : Nat} {exactIn : Bool}

theorem lessFee_le (remaining feePips : Nat) : lessFee remaining feePips ≤ remaining :=
  Nat.div_le_of_le_mul (by rw [Nat.mul_comm pips]; exact Nat.mul_le_mul_left _ (Nat.sub_le _ _))

theorem add_fee_le (cheap : feePips < pips) (le : amount ≤ lessFee remaining feePips) :
    amount + (amount * feePips ⌈/⌉ (pips - feePips)) ≤ remaining := by
  obtain ⟨feeC, sum⟩ := Nat.exists_eq_add_of_lt cheap
  have left : pips - feePips = feeC + 1 := by omega
  have exact := (Nat.le_div_iff_mul_le (by decide)).mp le
  rw [left, sum] at exact
  have whole : amount ≤ remaining := le.trans (lessFee_le _ _)
  have fee : amount * feePips ⌈/⌉ (pips - feePips) ≤ remaining - amount := by
    rw [left, ceilDiv_le_iff_le_mul (Nat.succ_pos _)]
    obtain ⟨rest, rfl⟩ := Nat.exists_eq_add_of_le whole
    rw [Nat.add_sub_cancel_left]
    nlinarith
  omega

include start stop liquid in

theorem stepPrice_eq (exactIn : Bool) (feePips : Nat) (toward : Toward zeroForOne current target)
    (small : remaining < u256Size) :
    ∃ next, Toward zeroForOne current next ∧ Toward zeroForOne next target ∧
      stepPrice zeroForOne current target L remaining exactIn (pips - feePips) =
        some (next, if exactIn then owed zeroForOne L current target else 0,
          if exactIn then 0 else paid zeroForOne L current target) ∧
      (exactIn → owed zeroForOne L current next ≤ lessFee remaining feePips ∧
        if next = target then owed zeroForOne L current target ≤ lessFee remaining feePips
        else lessFee remaining feePips < owed zeroForOne L current target ∧
          nextFromInput current L (lessFee remaining feePips) zeroForOne = some next) ∧
      (¬ exactIn → (next ≠ target → remaining ≤ paid zeroForOne L current next) ∧
        ((paid zeroForOne L current target ≤ remaining ∧ next = target) ∨
          (remaining < paid zeroForOne L current target ∧ nextFromOutput current L remaining zeroForOne = some next))) := by
  unfold stepPrice
  cases exactIn
  · rw [if_neg Bool.false_ne_true, outputDelta_eq start liquid toward]
    by_cases enough : paid zeroForOne L current target ≤ remaining
    · exact ⟨target, toward, Toward.refl _ _, by simp [enough], by simp, by simp [enough]⟩
    · obtain ⟨next, found, first, second, pays⟩ := nextFromOutput_short start stop liquid toward (not_le.mp enough)
      exact ⟨next, first, second, by simp [enough, found], by simp, by simp [found, pays, not_le.mp enough]⟩
  · have scaled : U256.mulDiv remaining (pips - feePips) pips = some (lessFee remaining feePips) := by
      exact U256.mulDiv_eq (by decide) (lt_of_le_of_lt (lessFee_le remaining feePips) small)
    rw [if_pos rfl, scaled, inputDelta_eq liquid stop toward]
    generalize lessFee remaining feePips = have_
    by_cases enough : owed zeroForOne L current target ≤ have_
    · exact ⟨target, toward, Toward.refl _ _, by simp [enough], by simp [enough], by simp⟩
    · obtain ⟨next, found, first, second, ne, costs⟩ := nextFromInput_short start stop liquid toward (not_le.mp enough)
      exact ⟨next, first, second, by simp [enough, found], by simp [ne, found, costs, not_le.mp enough], by simp⟩

include start stop liquid in

theorem stepped_decide (exactIn : Bool) (cheap : feePips < pips) (small : remaining < u256Size) :
    ∃ st, computeSwapStep current target L remaining exactIn feePips = some st ∧
      Stepped (decide (target ≤ current)) current target L remaining exactIn feePips st := by
  have toward := toward_decide current target
  unfold computeSwapStep
  rw [if_neg (by omega)]
  simp only []
  generalize decide (target ≤ current) = z at toward ⊢
  obtain ⟨next, first, second, price, input, output⟩ := stepPrice_eq start stop liquid exactIn feePips toward small
  have priced := start.between stop first second
  have positive : 0 < pips - feePips := by omega
  have fee : U256.mulDivRoundingUp (owed z L current next) feePips (pips - feePips) =
      some (owed z L current next * feePips ⌈/⌉ (pips - feePips)) := by
    have most := owed_le liquid priced first
    refine U256.mulDivRoundingUp_eq positive (lt_of_le_of_lt ((ceilDiv_le_iff_le_mul positive).mpr ?_)
      (show 2 ^ 224 * 2 ^ 20 < u256Size by unfold u256Size; norm_num))
    calc owed z L current next * feePips ≤ 2 ^ 224 * 2 ^ 20 := Nat.mul_le_mul most (cheap.le.trans (by decide))
      _ ≤ (pips - feePips) * (2 ^ 224 * 2 ^ 20) := Nat.le_mul_of_pos_left _ positive
  rw [price]
  have same_in : (if (!decide (target = next) || !exactIn) = true then inputDelta z current next L
      else some (if exactIn = true then owed z L current target else 0)) = some (owed z L current next) := by
    rw [inputDelta_eq liquid priced first]
    by_cases reached : target = next
    · cases exactIn <;> simp [reached]
    · simp [reached]
  have same_out : (if (!decide (target = next) || exactIn) = true then outputDelta z current next L
      else some (if exactIn = true then 0 else paid z L current target)) = some (paid z L current next) := by
    rw [outputDelta_eq start liquid first]
    by_cases reached : target = next
    · cases exactIn <;> simp [reached]
    · simp [reached]
  simp only [bind_eq_bind, bind_some, same_in, same_out]
  cases exactIn
  · obtain ⟨pays, ends⟩ := output Bool.false_ne_true
    rw [if_neg (by simp), fee, bind_some]
    refine ⟨_, rfl, first, second, rfl, ?_, by simp, by simp, by simp, fun _ ne => ?_, by simp, fun _ => ends⟩
    · simp only [Bool.not_false, Bool.true_and, decide_eq_true_eq, Bool.false_eq_true, if_false]
      split <;> omega
    · simp only [Bool.not_false, Bool.true_and, decide_eq_true_eq]
      have := pays ne
      split <;> omega
  · obtain ⟨costs, ends⟩ := input rfl
    have whole := costs.trans (lessFee_le remaining feePips)
    by_cases reached : target = next
    · rw [if_neg (by simp [reached]), fee, bind_some]
      exact ⟨_, rfl, first, second, rfl, by simp, by simp [reached], fun _ => add_fee_le cheap costs,
        fun _ ne => absurd reached.symm ne, by simp, fun _ => ends, by simp⟩
    · have ne : next ≠ target := fun same => reached same.symm
      rw [if_pos (by simp [reached]), U256.checkedSub, if_pos whole, bind_some]
      refine ⟨_, rfl, first, second, rfl, by simp, by simp [ne], fun _ => ?_, fun _ _ => ?_, by simp, fun _ => ends, by simp⟩
      · exact (Nat.add_sub_cancel' whole).le
      · exact Nat.add_sub_cancel' whole

theorem owed_self (zeroForOne : Bool) (L p : Nat) : owed zeroForOne L p p = 0 := by
  cases zeroForOne <;> simp [owed0, owed1]

theorem paid_self (zeroForOne : Bool) (L p : Nat) : paid zeroForOne L p p = 0 := by
  cases zeroForOne <;> simp [paid0, paid1]

theorem Toward.antisymm {p q : Nat} (first : Toward zeroForOne p q) (second : Toward zeroForOne q p) : p = q := by
  unfold Toward at *
  split_ifs at * <;> omega

theorem Stepped.turn {st : Step} {other : Bool}
    (stepped : Stepped zeroForOne current current L remaining exactIn feePips st) :
    Stepped other current current L remaining exactIn feePips st := by
  have stays : st.sqrtNext = current := stepped.within.antisymm stepped.toward
  obtain ⟨_, _, amountIn, amountOut, fee, spends, spent, delivers, input, output⟩ := stepped
  refine ⟨?_, ?_, ?_, ?_, fee, spends, spent, delivers, fun _ => ?_, fun _ => .inl ⟨?_, stays⟩⟩
  all_goals simp_all [Toward.refl, owed_self, paid_self]

include start stop liquid in

theorem computeSwapStep_spec (exactIn : Bool) (toward : Toward zeroForOne current target) (cheap : feePips < pips)
    (small : remaining < u256Size) :
    ∃ st, computeSwapStep current target L remaining exactIn feePips = some st ∧
      Stepped zeroForOne current target L remaining exactIn feePips st := by
  obtain ⟨st, found, stepped⟩ := stepped_decide start stop liquid exactIn cheap small
  refine ⟨st, found, ?_⟩
  by_cases same : decide (target ≤ current) = zeroForOne
  · rwa [same] at stepped
  obtain rfl : current = target := by
    cases zeroForOne <;> simp [Toward] at toward same <;> omega
  exact stepped.turn

/-- Between any two prices a step ends between them, spends no more than it was given and delivers no more than it was
asked for, all of it when it stops short, and moves no amount without moving the price. -/
theorem swap_step_accounts (current target L remaining : Nat) (exactIn : Bool) (feePips : Nat) (start : Priced current)
    (stop : Priced target) (liquid : L < u128Size) (fits : remaining < u256Size) (cheap : feePips < pips) :
    ∃ st, computeSwapStep current target L remaining exactIn feePips = some st ∧
      min current target ≤ st.sqrtNext ∧ st.sqrtNext ≤ max current target ∧
      (exactIn = true → st.amountIn + st.fee ≤ remaining ∧
        (st.sqrtNext ≠ target → st.amountIn + st.fee = remaining)) ∧
      (exactIn = false → st.amountOut ≤ remaining ∧ (st.sqrtNext ≠ target → st.amountOut = remaining)) ∧
      (st.sqrtNext = current → st.amountIn = 0 ∧ st.amountOut = 0) := by
  obtain ⟨st, found, stepped⟩ := stepped_decide start stop liquid exactIn cheap fits
  have first := stepped.toward
  have second := stepped.within
  refine ⟨st, found, ?_, ?_, fun given => ⟨stepped.spends given, stepped.spent given⟩, fun asked => ?_, fun stays => ?_⟩
  · unfold Toward at first second
    split_ifs at first second <;> omega
  · unfold Toward at first second
    split_ifs at first second <;> omega
  · subst asked
    refine ⟨?_, stepped.delivers Bool.false_ne_true⟩
    rw [stepped.amountOut, if_neg Bool.false_ne_true]
    exact Nat.min_le_right _ _
  · rw [stepped.amountIn, stepped.amountOut, stays, owed_self, paid_self, Nat.zero_min, ite_self]
    exact ⟨rfl, rfl⟩

theorem short_buy_accounts :
    (computeSwapStep (2 ^ 96) (2 ^ 97) (10 ^ 18) 1000 true 3000).any (fun st => st.sqrtNext ≠ 2 ^ 97) ∧
      ∃ st, computeSwapStep (2 ^ 96) (2 ^ 97) (10 ^ 18) 1000 true 3000 = some st ∧
        min (2 ^ 96) (2 ^ 97) ≤ st.sqrtNext ∧ (st.sqrtNext ≠ 2 ^ 97 → st.amountIn + st.fee = 1000) := by
  refine ⟨by decide +kernel, ?_⟩
  obtain ⟨st, found, least, _, spends, _⟩ :=
    swap_step_accounts (2 ^ 96) (2 ^ 97) (10 ^ 18) 1000 true 3000 ⟨by decide, by decide⟩ ⟨by decide, by decide⟩
      (by decide) (by decide) (by decide)
  exact ⟨st, found, least, (spends rfl).2⟩

end Step

end TradingEngine.Amm
