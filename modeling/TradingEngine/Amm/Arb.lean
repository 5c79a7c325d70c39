import TradingEngine.Base.Outcome
import TradingEngine.Base.Saturating
import TradingEngine.Amm.RangeFill

/-!
# The single-block arbitrage

The pool is traded toward the price at which its marginal price, fee included, meets the hedge.
-/

namespace TradingEngine.Amm

open Base

structure ArbParams where
  effBid1e18 : Fin u128Size
  effAsk1e18 : Fin u128Size
  px0Usd1e6 : Int
  maxNotionalUsd1e6 : Int
  gasUsd1e6 : Int
  words : InI64 px0Usd1e6 ∧ InI64 maxNotionalUsd1e6 ∧ InI64 gasUsd1e6

inductive ArbSide where
  | none
  | buyToken0
  | sellToken0
  deriving DecidableEq, Repr

structure ArbFlags where
  sizeCapped : Bool
  mapEdge : Bool
  notLive : Bool
  belowGas : Bool
  math : Bool
  deriving DecidableEq, Repr

def ArbFlags.clear : ArbFlags := ⟨false, false, false, false, false⟩

structure ArbQuote where
  side : ArbSide
  flags : ArbFlags
  grossBps1e6 : Int
  token0Raw : Nat
  token1Raw : Nat
  pnlUsd1e6 : Int
  notionalUsd1e6 : Int
  after : PoolState
  deriving DecidableEq, Repr

/-- Why nothing is quoted: the flags, and the result when one was found. -/
structure NoArb where
  flags : ArbFlags
  pnlUsd1e6 : Int
  deriving DecidableEq, Repr

def NoArb.clear : NoArb := ⟨ArbFlags.clear, 0⟩

def NoArb.notLive : NoArb := ⟨{ ArbFlags.clear with notLive := true }, 0⟩

def NoArb.math : NoArb := ⟨{ ArbFlags.clear with math := true }, 0⟩

def NoArb.sizeCapped : NoArb := ⟨{ ArbFlags.clear with sizeCapped := true }, 0⟩

def ArbQuote.none (state : PoolState) (why : NoArb) : ArbQuote where
  side := .none
  flags := why.flags
  grossBps1e6 := 0
  token0Raw := 0
  token1Raw := 0
  pnlUsd1e6 := if why.pnlUsd1e6 > 0 then 0 else why.pnlUsd1e6
  notionalUsd1e6 := 0
  after := state

def saturateU128 (v : Nat) : Fin u128Size :=
  ⟨U256.saturatingU128 v, by
    have some_room : 0 < u128Size := by decide
    unfold U256.saturatingU128
    split <;> omega⟩

/-- The word cut to 128 bits and then to the largest `i64`. -/
def saturateI64 (v : Nat) : Int :=
  if U256.saturatingU128 v > i64Top then i64Top else U256.saturatingU128 v

/-- Raw token 0 as raw token 1, at token 1 per token 0. -/
def t0ToT1Raw (amount0 px1e18 dec0 dec1 : Nat) (roundUp : Bool) : Option Nat :=
  scale10 (amount0 * px1e18) (dec1 - dec0 - 18) roundUp

/-- A signed raw amount of token 1 in dollars, valued through token 0. -/
def t1RawToUsd1e6 (mag : Nat) (negative : Bool) (px0Usd1e6 p1e18 dec1 : Nat) : Int :=
  let num := (scale10 mag (18 - dec1) false).getD (u256Size - 1)
  let v := saturateI64 ((U256.mulDiv num px0Usd1e6 p1e18).getD (u128Size - 1))
  if negative then -v else v

/-- The side that clears the pool fee, and the two prices its edge lies between. -/
structure ArbEdge where
  buy : Bool
  num : Nat
  den : Nat
  deriving DecidableEq, Repr

def arbEdge (m : FillMeta) (p : ArbParams) (pMid : Nat) : Except NoArb ArbEdge := do
  let keep := pips - m.feePips
  let bidNet ← need (U256.checkedMul p.effBid1e18 keep) NoArb.math
  let midX ← need (U256.checkedMul pMid pips) NoArb.math
  let midNet ← need (U256.checkedMul pMid keep) NoArb.math
  let askX ← need (U256.checkedMul p.effAsk1e18 pips) NoArb.math
  if bidNet > midX then return ⟨true, bidNet, midX⟩
  else if midNet > askX then return ⟨false, midNet, askX⟩
  else throw NoArb.clear

def ArbEdge.grossBps1e6 (e : ArbEdge) : Int :=
  match U256.checkedSub e.num e.den with
  | .none => 0
  | some d => (U256.mulDiv d (10 ^ 10) e.den).elim i64Top saturateI64

/-- The root of the price at which the last unit meets the hedge. -/
def arbTarget (m : FillMeta) (p : ArbParams) (buy : Bool) : Option (Fin u160Size) :=
  let keep := pips - m.feePips
  let px := if buy then U256.mulDiv p.effBid1e18 keep pips else U256.mulDivRoundingUp p.effAsk1e18 pips keep
  px.map fun px =>
    ⟨sqrtFromPrice (U256.saturatingU128 px) m.dec0 m.dec1, lt_trans (sqrtFromPrice_lt ..) (by decide)⟩

def arbMaxToken0 (m : FillMeta) (p : ArbParams) : Fin u128Size :=
  match scale10 p.maxNotionalUsd1e6.toNat m.dec0 false with
  | some v => (U256.mulDiv v 1 p.px0Usd1e6.toNat).elim (saturateU128 0) saturateU128
  | .none => saturateU128 (u128Size - 1)

/-- A buy asks for token 0 out, a sale puts token 0 in. -/
def arbSpec (m : FillMeta) (target : Fin u160Size) (amount : Fin u128Size) (buy : Bool) : SwapSpec :=
  { amount, limit := target, feePips := m.feePips, zeroForOne := !buy, exactIn := !buy }

/-- A difference of raw amounts of token 1, in dollars. -/
def netUsd1e6 (plus minus px0Usd1e6 p1e18 dec1 : Nat) : Int :=
  match U256.checkedSub plus minus with
  | some mag => t1RawToUsd1e6 mag false px0Usd1e6 p1e18 dec1
  | .none => t1RawToUsd1e6 (minus - plus) true px0Usd1e6 p1e18 dec1

/-- The hedge's revenue less the token 1 paid, or the token 1 received less the hedge's cost. -/
def arbPreGas (m : FillMeta) (p : ArbParams) (buy : Bool) (token0 token1 pMid : Nat) : Option Int :=
  if buy then
    (t0ToT1Raw token0 p.effBid1e18 m.dec0 m.dec1 false).map fun revenue =>
      netUsd1e6 revenue token1 p.px0Usd1e6.toNat pMid m.dec1
  else
    (t0ToT1Raw token0 p.effAsk1e18 m.dec0 m.dec1 true).map fun cost =>
      netUsd1e6 token1 cost p.px0Usd1e6.toNat pMid m.dec1

def arbNotional (m : FillMeta) (p : ArbParams) (token0 : Nat) : Int :=
  (scale10 (token0 * p.px0Usd1e6.toNat) (-m.dec0) false).elim i64Top saturateI64

def arbSwap {N : Nat} (state : PoolState) (m : FillMeta) (map : TickMap N) (p : ArbParams) (target : Fin u160Size)
    (buy : Bool) : SwapResult :=
  walkKind m.toPoolMeta state map.nodes map.loTick map.hiTick true (arbSpec m target (arbMaxToken0 m p) buy)

def arbOffer {N : Nat} (state : PoolState) (m : FillMeta) (map : TickMap N) (p : ArbParams) : Except NoArb ArbQuote := do
  refuse (state.isLive = false ∨ ¬ map.HasCoverage ∨ p.px0Usd1e6 ≤ 0 ∨ p.maxNotionalUsd1e6 ≤ 0) NoArb.notLive
  refuse (m.feePips ≥ pips) NoArb.math
  let pMid := price1e18U state.sqrtPrice m.dec0 m.dec1
  refuse (pMid = 0) NoArb.notLive
  let edge ← arbEdge m p pMid
  let target ← need (arbTarget m p edge.buy) NoArb.math
  refuse ((arbMaxToken0 m p).val = 0) NoArb.sizeCapped
  let r := arbSwap state m map p target edge.buy
  refuse (r.flags.refused = true ∨ r.flags.math = true ∨ r.flags.saturated = true) NoArb.math
  let flags := { ArbFlags.clear with
    mapEdge := r.flags.edge
    sizeCapped := r.after.sqrtPrice ≠ target && !r.flags.edge }
  let (token0, token1, after) := r.tokens edge.buy
  refuse (token0 = 0 ∨ token1 = 0) (NoArb.mk flags 0)
  let preGas ← need (arbPreGas m p edge.buy token0 token1 pMid) NoArb.math
  let pnl := satSub preGas (max p.gasUsd1e6 0)
  refuse (pnl ≤ 0) (NoArb.mk { flags with belowGas := preGas > 0 } pnl)
  return {
    side := if edge.buy then .buyToken0 else .sellToken0
    flags
    grossBps1e6 := edge.grossBps1e6
    token0Raw := token0
    token1Raw := token1
    pnlUsd1e6 := pnl
    notionalUsd1e6 := arbNotional m p token0
    after }

def solveArb {N : Nat} (state : PoolState) (m : FillMeta) (map : TickMap N) (p : ArbParams) : ArbQuote :=
  match arbOffer state m map p with
  | .ok q => q
  | .error why => ArbQuote.none state why

section Offer

variable {N : Nat} {state : PoolState} {m : FillMeta} {map : TickMap N} {p : ArbParams} {q : ArbQuote}

theorem arbEdge_ok {pMid : Nat} {edge : ArbEdge} (found : arbEdge m p pMid = .ok edge) : pMid * pips < u256Size := by
  unfold arbEdge at found
  obtain ⟨_, _, found⟩ := bind_ok found
  obtain ⟨midX, fits, _⟩ := bind_ok found
  have product := need_ok fits
  unfold U256.checkedMul at product
  split_ifs at product with small
  exact small

structure Offered (state : PoolState) (m : FillMeta) (map : TickMap N) (p : ArbParams) (q : ArbQuote) (buy : Bool)
    (target : Fin u160Size) (preGas : Int) : Prop where
  priced : 0 < p.px0Usd1e6 ∧ 0 < p.maxNotionalUsd1e6
  mid : 0 < price1e18U state.sqrtPrice m.dec0 m.dec1 ∧ price1e18U state.sqrtPrice m.dec0 m.dec1 * pips < u256Size
  aimed : arbTarget m p buy = some target
  walked : (arbSwap state m map p target buy).flags.refused = false
  side : q.side = if buy then .buyToken0 else .sellToken0
  swapped : (q.token0Raw, q.token1Raw, q.after) = (arbSwap state m map p target buy).tokens buy
  valued : arbPreGas m p buy q.token0Raw q.token1Raw (price1e18U state.sqrtPrice m.dec0 m.dec1) = some preGas
  net : q.pnlUsd1e6 = satSub preGas (max p.gasUsd1e6 0)
  gains : 0 < q.pnlUsd1e6
  notional : q.notionalUsd1e6 = arbNotional m p q.token0Raw

theorem arbOffer_ok (offer : arbOffer state m map p = .ok q) : ∃ buy target preGas, Offered state m map p q buy target preGas := by
  unfold arbOffer at offer
  obtain ⟨_, live, offer⟩ := bind_ok offer
  obtain ⟨_, _, offer⟩ := bind_ok offer
  obtain ⟨_, quoted, offer⟩ := bind_ok offer
  obtain ⟨edge, found, offer⟩ := bind_ok offer
  obtain ⟨target, aimed, offer⟩ := bind_ok offer
  obtain ⟨_, _, offer⟩ := bind_ok offer
  obtain ⟨_, walked, offer⟩ := bind_ok offer
  obtain ⟨_, _, offer⟩ := bind_ok offer
  obtain ⟨preGas, valued, offer⟩ := bind_ok offer
  obtain ⟨_, gains, offer⟩ := bind_ok offer
  have live := refuse_ok live
  have walked := refuse_ok walked
  simp only [not_or, not_le] at live
  simp only [not_or, Bool.not_eq_true] at walked
  cases offer
  exact ⟨edge.buy, target, preGas,
    { priced := live.2.2
      mid := ⟨Nat.pos_of_ne_zero (refuse_ok quoted), arbEdge_ok found⟩
      aimed := need_ok aimed
      walked := walked.1
      side := rfl
      swapped := rfl
      valued := need_ok valued
      net := rfl
      gains := not_le.mp (refuse_ok gains)
      notional := rfl }⟩

theorem solveArb_cases (state : PoolState) (m : FillMeta) (map : TickMap N) (p : ArbParams) :
    ((solveArb state m map p).side = .none ∧ (solveArb state m map p).after = state) ∨
      ∃ buy target preGas, Offered state m map p (solveArb state m map p) buy target preGas := by
  unfold solveArb
  cases offer : arbOffer state m map p with
  | error why => exact .inl ⟨rfl, rfl⟩
  | ok q => exact .inr (arbOffer_ok offer)

end Offer

section Rounding

variable {x y : Nat} {e : Int}

theorem saturatingU128_le (v : Nat) : U256.saturatingU128 v ≤ v := by
  unfold U256.saturatingU128
  split <;> omega

theorem saturateI64_le (v : Nat) : saturateI64 v ≤ v := by
  unfold saturateI64 U256.saturatingU128
  split_ifs <;> omega

theorem saturateI64_nonneg (v : Nat) : 0 ≤ saturateI64 v := by
  unfold saturateI64
  split_ifs <;> omega

theorem U256.mulDiv_getD_le {a b d : Nat} (top : Nat) (positive : 0 < d) (most : top ≤ u256Size) :
    (U256.mulDiv a b d).getD top ≤ a * b / d := by
  unfold U256.mulDiv
  rw [if_neg positive.ne']
  split_ifs with fits
  · exact le_rfl
  · exact most.trans (not_lt.mp fits)

theorem scale10_getD_le (fits : e ≤ 77) : ((scale10 x e false).getD (u256Size - 1) : ℚ) ≤ x * 10 ^ e := by
  cases scaled : scale10 x e false with
  | some y => exact scale10_le scaled
  | none =>
    have large : u256Size - 1 ≤ u256Size := Nat.sub_le _ _
    rcases le_or_gt 0 e with up | down
    · rw [pow10_zpow (show e = e.toNat by omega)]
      unfold scale10 pow10 U256.checkedMul at scaled
      rw [if_pos up, if_neg (by omega), Option.bind_some] at scaled
      split_ifs at scaled with small
      exact_mod_cast large.trans (not_lt.mp small)
    · rw [pow10_zpow_neg (show e = -e.natAbs by omega), mul_one_div]
      unfold scale10 pow10 at scaled
      rw [if_neg (not_le.mpr down)] at scaled
      by_cases far : e.natAbs > 77
      · rw [if_pos far] at scaled
        cases scaled
      rw [if_neg far] at scaled
      have kept := U256.mulDiv_getD_le (a := x) (b := 1) (d := 10 ^ e.natAbs) _ (by positivity) large
      rw [show U256.mulDiv x 1 (10 ^ e.natAbs) = none from scaled, Nat.mul_one] at kept
      exact (Nat.cast_le.mpr kept).trans Nat.cast_div_le

theorem t1RawToUsd1e6_le {mag px0 p1e18 dec1 : Nat} (quoted : 0 < p1e18) :
    (t1RawToUsd1e6 mag false px0 p1e18 dec1 : ℚ) ≤ mag * 10 ^ (18 - dec1 : Int) * px0 / p1e18 := by
  have num := scale10_getD_le (x := mag) (e := 18 - dec1) (by omega)
  have quotient := U256.mulDiv_getD_le (a := (scale10 mag (18 - dec1) false).getD (u256Size - 1)) (b := px0)
    (u128Size - 1) quoted (by decide)
  have cut : t1RawToUsd1e6 mag false px0 p1e18 dec1 ≤
      (U256.mulDiv ((scale10 mag (18 - dec1) false).getD (u256Size - 1)) px0 p1e18).getD (u128Size - 1) := saturateI64_le _
  generalize (scale10 mag (18 - dec1) false).getD (u256Size - 1) = n at *
  calc (t1RawToUsd1e6 mag false px0 p1e18 dec1 : ℚ) ≤ ((n * px0 / p1e18 : Nat) : Int) :=
        Int.cast_le.mpr (cut.trans (Int.ofNat_le.mpr quotient))
    _ ≤ n * px0 / p1e18 := by exact_mod_cast Nat.cast_div_le
    _ ≤ mag * 10 ^ (18 - dec1 : Int) * px0 / p1e18 := by gcongr

theorem netUsd1e6_le {plus minus px0 p1e18 dec1 : Nat} {income cost : ℚ} (quoted : 0 < p1e18) (less : (plus : ℚ) ≤ income)
    (more : cost ≤ minus) (gains : 0 < netUsd1e6 plus minus px0 p1e18 dec1) :
    (netUsd1e6 plus minus px0 p1e18 dec1 : ℚ) ≤ (income - cost) * 10 ^ (18 - dec1 : Int) * px0 / p1e18 := by
  unfold netUsd1e6 U256.checkedSub at gains ⊢
  by_cases covered : minus ≤ plus
  · rw [if_pos covered] at *
    refine (t1RawToUsd1e6_le quoted).trans ?_
    rw [Nat.cast_sub covered]
    gcongr
  · rw [if_neg covered] at gains
    have loss : t1RawToUsd1e6 (minus - plus) true px0 p1e18 dec1 ≤ 0 := neg_nonpos.mpr (saturateI64_nonneg _)
    exact absurd gains (not_lt.mpr loss)

theorem decimals_near {s dec0 dec1 : Nat} (fits : price1e18U s dec0 dec1 * pips < u256Size) :
    -77 ≤ (dec1 : Int) - dec0 - 18 := by
  by_contra far
  have top : price1e18U s dec0 dec1 = u256Size - 1 := by
    unfold price1e18U pow10
    cases U256.mulDiv s s (2 ^ 96) with
    | none => rfl
    | some p96 =>
      dsimp only
      rw [if_pos (by omega), if_pos (by omega)]
      rfl
  rw [top] at fits
  exact absurd fits (by decide)

end Rounding

section Value

variable {m : FillMeta} {p : ArbParams} {buy : Bool} {token0 token1 pMid : Nat} {preGas : Int}

/-- The exact value of a trade in dollars: token 0 sold at the bid less the token 1 paid, or the token 1 received less
token 0 bought back at the ask. Token 1 is valued through token 0, at the pool's price. -/
def arbExact (m : FillMeta) (p : ArbParams) (buy : Bool) (token0 token1 pMid : Nat) : ℚ :=
  let hedge : ℚ := token0 * (if buy then p.effBid1e18 else p.effAsk1e18 : Nat) * 10 ^ (m.dec1 - m.dec0 - 18 : Int)
  (if buy then hedge - token1 else token1 - hedge) * 10 ^ (18 - m.dec1 : Int) * p.px0Usd1e6.toNat / pMid

theorem arbPreGas_le (near : -77 ≤ (m.dec1 : Int) - m.dec0 - 18) (quoted : 0 < pMid)
    (valued : arbPreGas m p buy token0 token1 pMid = some preGas) (gains : 0 < preGas) :
    (preGas : ℚ) ≤ arbExact m p buy token0 token1 pMid := by
  unfold arbPreGas at valued
  cases buy
  · obtain ⟨cost, converted, rfl⟩ := Option.map_eq_some_iff.mp valued
    have covers := le_scale10 near converted
    rw [Nat.cast_mul] at covers
    exact netUsd1e6_le quoted le_rfl covers gains
  · obtain ⟨revenue, converted, rfl⟩ := Option.map_eq_some_iff.mp valued
    have covered := scale10_le converted
    rw [Nat.cast_mul] at covered
    exact netUsd1e6_le quoted covered le_rfl gains

theorem scale10_down {x n : Nat} (near : n ≤ 77) (fits : x < u256Size) : scale10 x (-n) false = some (x / 10 ^ n) := by
  have small : x / 10 ^ n < u256Size := lt_of_le_of_lt (Nat.div_le_self _ _) fits
  rcases Nat.eq_zero_or_pos n with rfl | positive
  · simp [scale10, pow10, U256.checkedMul, fits]
  · unfold scale10 pow10
    rw [if_neg (by omega), Int.natAbs_neg, Int.natAbs_natCast, if_neg (by omega)]
    exact (U256.mulDiv_eq (by positivity) (by rwa [Nat.mul_one])).trans (by rw [Nat.mul_one])

theorem arbMaxToken0_le (priced : 0 < p.px0Usd1e6) {v : Nat} (scaled : scale10 p.maxNotionalUsd1e6.toNat m.dec0 false = some v) :
    arbMaxToken0 m p * p.px0Usd1e6.toNat ≤ v := by
  have positive : 0 < p.px0Usd1e6.toNat := by omega
  refine le_trans (Nat.mul_le_mul_right _ ?_) (Nat.div_mul_le_self v p.px0Usd1e6.toNat)
  unfold arbMaxToken0
  rw [scaled]
  dsimp only
  cases divided : U256.mulDiv v 1 p.px0Usd1e6.toNat with
  | none => exact Nat.zero_le _
  | some cap =>
    obtain ⟨_, rfl⟩ := U256.mulDiv_some divided
    rw [Nat.mul_one]
    exact saturatingU128_le _

theorem arbNotional_le (priced : 0 < p.px0Usd1e6) (sized : 0 < p.maxNotionalUsd1e6) (most : token0 ≤ arbMaxToken0 m p) :
    arbNotional m p token0 ≤ p.maxNotionalUsd1e6 := by
  obtain ⟨v, down, small⟩ : ∃ v, scale10 (token0 * p.px0Usd1e6.toNat) (-m.dec0) false = some v ∧
      v ≤ p.maxNotionalUsd1e6.toNat := by
    by_cases near : m.dec0 ≤ 77
    · have fits : token0 * p.px0Usd1e6.toNat < u128Size * u128Size := by
        have word : p.px0Usd1e6.toNat ≤ i64Top := Int.toNat_le.mpr p.words.1.2
        exact Nat.mul_lt_mul'' (lt_of_le_of_lt most (Fin.isLt _)) (lt_of_le_of_lt word (by decide))
      refine ⟨_, scale10_down near fits, ?_⟩
      cases scaled : scale10 p.maxNotionalUsd1e6.toNat m.dec0 false with
      | some v =>
        have product := (Nat.mul_le_mul_right _ most).trans (arbMaxToken0_le priced scaled)
        exact scale10_back scaled product (scale10_down near fits)
      | none =>
        -- the cap itself is past the words, so the product is below it
        unfold scale10 pow10 U256.checkedMul at scaled
        rw [if_pos (by omega), if_neg (by omega), Option.bind_some] at scaled
        split_ifs at scaled with small
        refine Nat.div_le_of_le_mul ?_
        rw [Int.toNat_natCast, Nat.mul_comm] at small
        exact fits.le.trans (not_lt.mp small)
    · refine ⟨0, ?_, Nat.zero_le _⟩
      unfold scale10 pow10
      rw [if_neg (by omega), if_pos (by omega)]
  unfold arbNotional
  rw [down]
  have cut := saturateI64_le v
  change saturateI64 v ≤ _
  omega

end Value

section Quote

variable {N : Nat} {state : PoolState} {m : FillMeta} {map : TickMap N} {p : ArbParams} {q : ArbQuote} {buy : Bool}
  {target : Fin u160Size} {preGas : Int}

section

variable (offered : Offered state m map p q buy target preGas)

include offered

theorem Offered.token0 :
    q.token0Raw = if buy then (arbSwap state m map p target buy).amountOut else (arbSwap state m map p target buy).amountIn := by
  have swapped := congrArg Prod.fst offered.swapped
  cases buy <;> exact swapped

theorem Offered.after_eq : q.after = (arbSwap state m map p target buy).after := by
  have swapped := congrArg (fun t => t.2.2) offered.swapped
  cases buy <;> exact swapped

theorem Offered.capped : q.notionalUsd1e6 ≤ p.maxNotionalUsd1e6 := by
  rw [offered.notional]
  refine arbNotional_le offered.priced.1 offered.priced.2 ?_
  have within := walk_within (decide (m.kind = .algebra)) state m.tickSpacing map.nodes map.loTick map.hiTick true
    (arbSpec m target (arbMaxToken0 m p) buy)
  rw [offered.token0]
  cases buy <;> exact within

theorem Offered.value :
    ((q.pnlUsd1e6 + p.gasUsd1e6 : Int) : ℚ) ≤
      arbExact m p buy q.token0Raw q.token1Raw (price1e18U state.sqrtPrice m.dec0 m.dec1) := by
  have net := offered.net
  have gains := offered.gains
  have words := p.words.2.2
  unfold InI64 at words
  have kept : q.pnlUsd1e6 + p.gasUsd1e6 ≤ preGas ∧ 0 < preGas := by
    unfold satSub i64Clamp i64Min i64Max at *
    omega
  exact (Int.cast_le.mpr kept.1).trans (arbPreGas_le (decimals_near offered.mid.2) offered.mid.1 offered.valued kept.2)

theorem Offered.between (valid : map.Valid) (seated : Seated state.sqrtPrice state.tick)
    (top : buy = false ∨ (state.sqrtPrice : Nat) ≤ sqrtRatioAtTick map.hiTick) :
    Toward (!buy) state.sqrtPrice q.after.sqrtPrice ∧ Toward (!buy) q.after.sqrtPrice target := by
  have below : (arbSpec m target (arbMaxToken0 m p) buy).zeroForOne = true ∨
      (state.sqrtPrice : Nat) ≤ sqrtRatioAtTick map.hiTick := by
    simpa [arbSpec] using top
  rw [offered.after_eq]
  exact ⟨walkKind_forward m.toPoolMeta valid seated below offered.walked,
    ((walkKind_walks m.toPoolMeta valid seated below).2 offered.walked).beforeLimit⟩

end

/-- What a quote with a side states: the pool's own swap toward the target, under the cap, at a gain that is no more than
the exact one. -/
structure Quoted (state : PoolState) (m : FillMeta) (map : TickMap N) (p : ArbParams) (q : ArbQuote) (buy : Bool)
    (target : Fin u160Size) : Prop where
  side : q.side = if buy then .buyToken0 else .sellToken0
  aimed : arbTarget m p buy = some target
  swapped : (q.token0Raw, q.token1Raw, q.after) = (arbSwap state m map p target buy).tokens buy
  capped : q.notionalUsd1e6 ≤ p.maxNotionalUsd1e6
  gains : 0 < q.pnlUsd1e6
  value : ((q.pnlUsd1e6 + p.gasUsd1e6 : Int) : ℚ) ≤
    arbExact m p buy q.token0Raw q.token1Raw (price1e18U state.sqrtPrice m.dec0 m.dec1)

theorem Offered.quoted (offered : Offered state m map p q buy target preGas) : Quoted state m map p q buy target :=
  ⟨offered.side, offered.aimed, offered.swapped, offered.capped, offered.gains, offered.value⟩

end Quote

end TradingEngine.Amm
