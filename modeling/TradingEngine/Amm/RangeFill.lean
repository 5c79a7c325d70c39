import TradingEngine.Amm.Price
import TradingEngine.Amm.WalkFacts

/-!
# Fills in the active range

The paper judge's swap: human units in and out, within the range of the tick, and the fee that an observed swap paid.
-/

namespace TradingEngine.Amm

variable {q : Nat} {m : FillMeta} {pxLimit1e6 : Int} {r : SwapResult}

structure FillMeta extends PoolMeta where
  feePips : Nat
  dec0 : Nat
  dec1 : Nat
  deriving DecidableEq, Repr

def PoolState.isLive (s : PoolState) : Bool :=
  s.sqrtPrice.val ≠ 0 ∧ s.liquidity.val ≠ 0 ∧ s.flags.stale = false ∧ s.flags.edge = false

structure RangeFlags where
  nothing : Bool
  notLive : Bool
  limit : Bool
  less : Bool
  edge : Bool
  math : Bool
  deriving DecidableEq, Repr

def RangeFlags.clear : RangeFlags := ⟨false, false, false, false, false, false⟩

structure RangeFill where
  qty1e6 : Int
  px1e6 : Int
  flags : RangeFlags
  after : PoolState
  deriving DecidableEq, Repr

inductive NoFill where
  | notLive
  | limit
  | math
  deriving DecidableEq, Repr

/-- Nothing filled: the state stays. -/
def RangeFill.none (state : PoolState) (why : NoFill) : RangeFill where
  qty1e6 := 0
  px1e6 := 0
  flags := { RangeFlags.clear with
    nothing := true
    notLive := why = .notLive
    limit := why = .limit
    math := why = .math }
  after := state

def i64Top : Nat := 2 ^ 63 - 1

/-- A positive `i64`. -/
def toI64 (v : Nat) : Option Nat := if v ≤ i64Top ∧ 0 < v then some v else .none

/-- A positive `u128`. -/
def toU128 (v : Nat) : Option (Fin u128Size) := if fits : v < u128Size then (if 0 < v then some ⟨v, fits⟩ else .none) else .none

/-- The bound on the marginal price that keeps every unit within the limit after the fee. -/
def marginalLimit (pxLimit1e6 feePips : Nat) (sell : Bool) : Option Nat :=
  let px := pxLimit1e6 * 10 ^ 12
  let keep := pips - feePips
  if sell then U256.mulDivRoundingUp px pips keep else U256.mulDiv px keep pips

/-- A sell stops one unit earlier than the floor of the root. -/
def rangeLimit (lim1e18 dec0 dec1 : Nat) (sell : Bool) : Fin u160Size :=
  ⟨if sell ∧ sqrtFromPrice lim1e18 dec0 dec1 < maxSqrt - 1 then sqrtFromPrice lim1e18 dec0 dec1 + 1
    else sqrtFromPrice lim1e18 dec0 dec1, by
    have below := sqrtFromPrice_lt lim1e18 dec0 dec1
    have fits : maxSqrt < u160Size := by decide
    split <;> omega⟩

/-- The swap a fill makes, or why it makes none. -/
def rangeSpec (state : PoolState) (m : FillMeta) (sell : Bool) (qty1e6 pxLimit1e6 : Int) : Except NoFill SwapSpec :=
  if !state.isLive ∨ qty1e6 ≤ 0 ∨ pxLimit1e6 ≤ 0 ∨ m.feePips ≥ pips then .error .notLive
  else
    match (scale10 qty1e6.toNat (m.dec0 - 6) false).bind toU128 with
    | .none => .error .math
    | some raw0 =>
      match (marginalLimit pxLimit1e6.toNat m.feePips sell).bind toU128 with
      | .none => .error .math
      | some lim1e18 =>
        let lim := rangeLimit lim1e18 m.dec0 m.dec1 sell
        let room : Bool := if sell then lim < state.sqrtPrice else state.sqrtPrice < lim
        if !room ∨ lim.val < minSqrt then .error .limit
        else .ok { amount := raw0, limit := lim, feePips := m.feePips, zeroForOne := sell, exactIn := sell }

/-- The size and the price a swap is reported at, rounded against us. -/
def rangeReport (m : FillMeta) (sell : Bool) (pxLimit1e6 : Int) (r : SwapResult) : Except NoFill (Nat × Nat) :=
  if r.flags.refused ∨ r.flags.math ∨ r.flags.saturated then .error .math
  else
    let (t0, t1) := if sell then (r.amountIn, r.amountOut) else (r.amountOut, r.amountIn)
    if t0 = 0 ∨ t1 = 0 then .error .limit
    else
      match (scale10 t0 (6 - m.dec0) false).bind toI64 with
      | .none => .error .math
      | some q =>
        match scale10 t1 (12 - m.dec1) (!sell) with
        | .none => .error .math
        | some num =>
          match (if sell then U256.mulDiv num 1 q else U256.mulDivRoundingUp num 1 q).bind toI64 with
          | .none => .error .math
          | some px =>
            if (sell ∧ (px : Int) < pxLimit1e6) ∨ (¬ sell ∧ pxLimit1e6 < (px : Int)) then .error .limit
            else .ok (q, px)

def fillInRange (state : PoolState) (m : FillMeta) (sell : Bool) (qty1e6 pxLimit1e6 : Int) : RangeFill :=
  match rangeSpec state m sell qty1e6 pxLimit1e6 with
  | .error why => .none state why
  | .ok spec =>
    let r := swapExactInRange state m.toPoolMeta spec
    match rangeReport m sell pxLimit1e6 r with
    | .error why => .none state why
    | .ok (q, px) =>
      { qty1e6 := q
        px1e6 := px
        flags := { RangeFlags.clear with
          less := (q : Int) < qty1e6
          edge := r.flags.edge || r.after.flags.edge }
        after := r.after }

def observedFeePips (pre : PoolState) (m : PoolMeta) (amount0 amount1 : Int) (post : Fin u160Size) : Option Nat :=
  let zeroForOne : Bool := amount0 > 0 ∧ amount1 < 0
  let oneForZero : Bool := amount1 > 0 ∧ amount0 < 0
  if !(zeroForOne || oneForZero) then .none
  else
    let amtIn := if zeroForOne then amount0.toNat else amount1.toNat
    let (t0, t1, after) := swapInRange pre m post ⟨u128Size - 1, by decide⟩ oneForZero
    if after.sqrtPrice ≠ post then .none
    else
      let pfIn := if zeroForOne then t0 else t1
      if pfIn = 0 ∨ pfIn > amtIn then .none
      else (U256.mulDivRoundingUp (amtIn - pfIn) 1000000 amtIn).bind fun p => if p < pips then some p else .none

theorem toI64_some {v : Nat} (found : toI64 v = some q) : q = v ∧ 0 < q := by
  unfold toI64 at found
  split_ifs at found with fits
  cases found
  exact ⟨rfl, fits.2⟩

theorem toU128_some {v : Nat} {n : Fin u128Size} (found : toU128 v = some n) : n.val = v := by
  unfold toU128 at found
  split_ifs at found
  cases found
  rfl

theorem rangeSpec_ok {state : PoolState} {sell : Bool} {qty1e6 : Int} {spec : SwapSpec}
    (made : rangeSpec state m sell qty1e6 pxLimit1e6 = .ok spec) :
    0 < qty1e6 ∧ scale10 qty1e6.toNat (m.dec0 - 6) false = some spec.amount.val ∧ spec.exactIn = sell := by
  unfold rangeSpec at made
  split at made
  · cases made
  rename_i fine
  simp only [not_or, not_le] at fine
  split at made
  · cases made
  rename_i raw0 scaled
  obtain ⟨v, whole, fits⟩ := Option.bind_eq_some_iff.mp scaled
  split at made
  · cases made
  rename_i lim1e18 _
  dsimp only at made
  generalize (if sell = true then decide (rangeLimit lim1e18 m.dec0 m.dec1 sell < state.sqrtPrice)
    else decide (state.sqrtPrice < rangeLimit lim1e18 m.dec0 m.dec1 sell)) = room at made
  split at made
  · cases made
  · cases made
    exact ⟨fine.2.1, by rw [whole, toU128_some fits], rfl⟩

structure Reported (m : FillMeta) (sell : Bool) (pxLimit1e6 : Int) (r : SwapResult) (q px : Nat) : Prop where
  size : scale10 (if sell then r.amountIn else r.amountOut) (6 - m.dec0) false = some q
  positive : 0 < q
  limit : if sell then pxLimit1e6 ≤ px else (px : Int) ≤ pxLimit1e6
  proceeds : ∃ num, scale10 (if sell then r.amountOut else r.amountIn) (12 - m.dec1) (!sell) = some num ∧
    (if sell then U256.mulDiv num 1 q else U256.mulDivRoundingUp num 1 q) = some px
  priced : 0 < px

theorem rangeReport_ok {sell : Bool} {px : Nat}
    (reported : rangeReport m sell pxLimit1e6 r = .ok (q, px)) : Reported m sell pxLimit1e6 r q px := by
  unfold rangeReport at reported
  split at reported
  · cases reported
  have first : (if sell then (r.amountIn, r.amountOut) else (r.amountOut, r.amountIn)).1 =
      if sell then r.amountIn else r.amountOut := by cases sell <;> rfl
  have second : (if sell then (r.amountIn, r.amountOut) else (r.amountOut, r.amountIn)).2 =
      if sell then r.amountOut else r.amountIn := by cases sell <;> rfl
  obtain ⟨t0, token0⟩ : ∃ t0, (if sell then r.amountIn else r.amountOut) = t0 := ⟨_, rfl⟩
  obtain ⟨t1, token1⟩ : ∃ t1, (if sell then r.amountOut else r.amountIn) = t1 := ⟨_, rfl⟩
  dsimp only at reported
  rw [first, second, token0, token1] at reported
  split at reported
  · cases reported
  split at reported
  · cases reported
  rename_i q' scaled
  obtain ⟨v, whole, fits⟩ := Option.bind_eq_some_iff.mp scaled
  obtain ⟨rfl, positive⟩ := toI64_some fits
  split at reported
  · cases reported
  rename_i num converted
  split at reported
  · cases reported
  rename_i px' divided
  obtain ⟨w, quotient, word⟩ := Option.bind_eq_some_iff.mp divided
  obtain ⟨rfl, priced⟩ := toI64_some word
  split at reported
  · cases reported
  rename_i within
  cases reported
  rw [← token0] at whole
  rw [← token1] at converted
  refine ⟨whole, positive, ?_, ⟨num, converted, quotient⟩, priced⟩
  cases sell <;> simpa using within

theorem fillInRange_within (state : PoolState) (m : FillMeta) (sell : Bool) (qty1e6 pxLimit1e6 : Int)
    (filled : (fillInRange state m sell qty1e6 pxLimit1e6).flags.nothing = false) :
    0 < (fillInRange state m sell qty1e6 pxLimit1e6).qty1e6 ∧ (fillInRange state m sell qty1e6 pxLimit1e6).qty1e6 ≤ qty1e6 ∧
    (if sell then pxLimit1e6 ≤ (fillInRange state m sell qty1e6 pxLimit1e6).px1e6
      else (fillInRange state m sell qty1e6 pxLimit1e6).px1e6 ≤ pxLimit1e6) := by
  unfold fillInRange at *
  split at filled
  · cases filled
  rename_i spec made
  dsimp only at *
  split at filled
  · cases filled
  rename_i q px reported
  obtain ⟨size, there, exact⟩ := rangeSpec_ok made
  obtain ⟨back, positive, price, _, _⟩ := rangeReport_ok reported
  have most : (if sell then (swapExactInRange state m.toPoolMeta spec).amountIn
      else (swapExactInRange state m.toPoolMeta spec).amountOut) ≤ spec.amount := by
    rw [← exact]
    exact walk_within ..
  have less := scale10_back there most (by rwa [neg_sub])
  simp only
  exact ⟨by omega, by omega, price⟩

theorem Reported.sale_le {px : Nat}
    (reported : Reported m true pxLimit1e6 r q px) : (px * q : ℚ) ≤ r.amountOut * 10 ^ (12 - m.dec1 : Int) := by
  obtain ⟨num, converted, divided⟩ := reported.proceeds
  obtain ⟨_, rfl⟩ := U256.mulDiv_some (show U256.mulDiv num 1 q = some px from divided)
  have floor : num * 1 / q * q ≤ num := by
    rw [Nat.mul_one]
    exact Nat.div_mul_le_self num q
  refine le_trans ?_ (scale10_le converted)
  exact_mod_cast floor

theorem Reported.le_purchase {px : Nat}
    (reported : Reported m false pxLimit1e6 r q px) : r.amountIn * (10 : ℚ) ^ (12 - m.dec1 : Int) ≤ px * q := by
  obtain ⟨num, converted, divided⟩ := reported.proceeds
  have ceiling := U256.le_mulDivRoundingUp (show U256.mulDivRoundingUp num 1 q = some px from divided)
  rw [Nat.mul_one] at ceiling
  have covered : (num : ℚ) ≤ px * q := by exact_mod_cast ceiling
  refine le_trans (le_scale10 ?_ converted) covered
  -- a power past the words would have made the price zero, which is no report
  by_contra far
  have nothing : num = 0 := by
    unfold scale10 pow10 at converted
    rw [if_neg (by omega), if_pos (by omega)] at converted
    exact (Option.some.inj converted).symm
  have free : U256.mulDivRoundingUp 0 1 q = some 0 := by
    simp [U256.mulDivRoundingUp, U256.mulDiv, reported.positive.ne', u256Size]
  rw [nothing] at divided
  have zero := (show U256.mulDivRoundingUp 0 1 q = some px from divided).symm.trans free
  exact reported.priced.ne' (Option.some.inj zero)

/-- What a fill is: within what was asked and, on the reported size, no better than the swap behind it. -/
structure FillHonest (state : PoolState) (m : FillMeta) (sell : Bool) (qty1e6 pxLimit1e6 : Int) (f : RangeFill)
    (spec : SwapSpec) : Prop where
  made : rangeSpec state m sell qty1e6 pxLimit1e6 = .ok spec
  after : f.after = (swapExactInRange state m.toPoolMeta spec).after
  size : 0 < f.qty1e6 ∧ f.qty1e6 ≤ qty1e6
  limit : if sell then pxLimit1e6 ≤ f.px1e6 else f.px1e6 ≤ pxLimit1e6
  sale : sell = true → (f.px1e6 * f.qty1e6 : ℚ) ≤
    (swapExactInRange state m.toPoolMeta spec).amountOut * 10 ^ (12 - m.dec1 : Int)
  purchase : sell = false → (swapExactInRange state m.toPoolMeta spec).amountIn * (10 : ℚ) ^ (12 - m.dec1 : Int) ≤
    f.px1e6 * f.qty1e6

theorem paper_fill_never_better (state : PoolState) (m : FillMeta) (sell : Bool) (qty1e6 pxLimit1e6 : Int) :
    ((fillInRange state m sell qty1e6 pxLimit1e6).flags.nothing = true ∧
        (fillInRange state m sell qty1e6 pxLimit1e6).after = state) ∨
      ((fillInRange state m sell qty1e6 pxLimit1e6).flags.nothing = false ∧
        ∃ spec, FillHonest state m sell qty1e6 pxLimit1e6 (fillInRange state m sell qty1e6 pxLimit1e6) spec) := by
  have within := fillInRange_within state m sell qty1e6 pxLimit1e6
  unfold fillInRange at within ⊢
  cases made : rangeSpec state m sell qty1e6 pxLimit1e6 with
  | error why => exact .inl ⟨rfl, rfl⟩
  | ok spec =>
    rw [made] at within
    dsimp only at within ⊢
    cases report : rangeReport m sell pxLimit1e6 (swapExactInRange state m.toPoolMeta spec) with
    | error why => exact .inl ⟨rfl, rfl⟩
    | ok pair =>
      obtain ⟨q, px⟩ := pair
      rw [report] at within
      obtain ⟨positive, most, price⟩ := within rfl
      have reported := rangeReport_ok report
      refine .inr ⟨rfl, spec, made, rfl, ⟨positive, most⟩, price, ?_, ?_⟩
      · rintro rfl
        exact_mod_cast reported.sale_le
      · rintro rfl
        exact_mod_cast reported.le_purchase

end TradingEngine.Amm
