import TradingEngine.Amm.Arb

/-!
# The arbitrage member

A pool is evaluated against the hedge books; an edge that clears every gate is submitted as one swap and booked on the
day's budget.
-/

namespace TradingEngine.Hyparb

open Base Amm

def e6 : Int := 1000000

def oneBps1e6 : Int := 10000 * e6

def inflightNs : Nat := 3000000000

def dayNs : Nat := 86400000000000

abbrev Coin := Option Nat

structure PoolParams where
  coin0 : Coin
  coin1 : Coin
  trade : Bool
  maxNotionalUsd1e6 : Int
  word : InI64 maxNotionalUsd1e6

/-- The parameters a decision reads, with what `validate` checked of them, and the clock's anchor. -/
structure HyparbParams where
  pools : Nat → PoolParams
  minNotionalUsd1e6 : Nat → Int
  basisEnabled : Bool
  depthCapEnabled : Bool
  gasP50Usd1e6 : Int
  maxOrderUsd1e6 : Int
  capDayUsd1e6 : Int
  minNetBps1e6 : Int
  cooldownNs : Nat
  wallNs : Nat
  monoNs : Nat
  capped : 0 < capDayUsd1e6
  words : InI64 gasP50Usd1e6 ∧ InI64 maxOrderUsd1e6 ∧ InI64 capDayUsd1e6

structure HedgeLeg where
  effPx1e6 : Int
  depthUsd1e6 : Int
  word : InI64 depthUsd1e6

structure Legs where
  sell0 : HedgeLeg
  buy1 : HedgeLeg
  buy0 : HedgeLeg
  sell1 : HedgeLeg

/-- What an evaluation sees of its pool and of the hedge books. -/
structure Sight (N : Nat) where
  book : Option (PoolState × FillMeta)
  mapOk : Bool
  mapSpacing : Int
  map : TickMap N
  sell0 : Option HedgeLeg
  buy1 : Option HedgeLeg
  buy0 : Option HedgeLeg
  sell1 : Option HedgeLeg
  basisBps1e6 : Int
  mid0 : Option { mid : Int // InI64 mid }

structure State where
  day : Nat
  dayNotionalUsd1e6 : Int
  halted : Bool
  inflightUntil : Nat → Nat
  lastEmitNs : Nat → Nat
  oidSeq : Nat

def State.start : State := ⟨0, 0, false, fun _ => 0, fun _ => 0, 0⟩

def mulDivI64 (a b d : Int) : Int := if d ≤ 0 then 0 else i64Clamp ((a * b).tdiv d)

def ratio1e18 (num1e6 den1e6 basisBps1e6 : Int) : Option (Fin u128Size) :=
  if num1e6 ≤ 0 ∨ den1e6 ≤ 0 then none
  else
    let shifted := (num1e6 * i64Wrap (oneBps1e6 + basisBps1e6)).tdiv oneBps1e6
    if shifted ≤ 0 then none
    else
      let product := shifted.toNat * 10 ^ 18 % u128Size
      let r := product / den1e6.toNat
      if 0 < r then some ⟨r, lt_of_le_of_lt (Nat.div_le_self _ _) (Nat.mod_lt _ (by decide))⟩ else none

def qty1e6FromRaw (raw dec : Nat) : Option Nat := (scale10 raw (6 - dec) false).bind toI64

def limitPx1e6 (after : PoolState) (m : FillMeta) (buy : Bool) : Option Nat :=
  if m.feePips ≥ pips then none
  else
    let p := price1e18U after.sqrtPrice m.dec0 m.dec1
    let keep := pips - m.feePips
    let px1e18 := if buy then U256.mulDivRoundingUp p pips keep else U256.mulDiv p keep pips
    let px := px1e18.bind fun px => if buy then U256.mulDivRoundingUp px 1 (10 ^ 12) else U256.mulDiv px 1 (10 ^ 12)
    px.bind toI64

namespace HyparbParams

variable (cfg : HyparbParams)

def minHedgeUsd1e6 (pp : PoolParams) : Int :=
  let m := pp.coin0.elim 1 fun c => max 1 (cfg.minNotionalUsd1e6 c)
  pp.coin1.elim m fun c => max m (cfg.minNotionalUsd1e6 c)

def wallOf (now : Nat) : Nat := (cfg.wallNs + (now + u64Size - cfg.monoNs) % u64Size) % u64Size

def leftUsd1e6 (s : State) : Int := i64Wrap (cfg.capDayUsd1e6 - s.dayNotionalUsd1e6)

def allow (s : State) (pool now : Nat) : Prop := now ≥ min (s.lastEmitNs pool + cfg.cooldownNs) u64Max

instance (s : State) (pool now : Nat) : Decidable (cfg.allow s pool now) := inferInstanceAs (Decidable (_ ≥ _))

/-- A rich pool is sold into, so it is hedged by buying coin 0 and selling coin 1. -/
def sizeCap (s : State) (pp : PoolParams) (legs : Legs) (rich : Bool) : Int :=
  let cap := min (min pp.maxNotionalUsd1e6 cfg.maxOrderUsd1e6) (cfg.leftUsd1e6 s)
  if cfg.depthCapEnabled then
    min cap (if rich then min legs.buy0.depthUsd1e6 legs.sell1.depthUsd1e6
      else min legs.sell0.depthUsd1e6 legs.buy1.depthUsd1e6)
  else cap

theorem sizeCap_le (s : State) (pp : PoolParams) (legs : Legs) (rich : Bool) :
    cfg.sizeCap s pp legs rich ≤ cfg.leftUsd1e6 s := by
  unfold sizeCap
  dsimp only
  split <;> omega

theorem sizeCap_inI64 (s : State) (pp : PoolParams) (legs : Legs) (rich : Bool) : InI64 (cfg.sizeCap s pp legs rich) := by
  have pool := pp.word
  have order := cfg.words.2.1
  have left : InI64 (cfg.leftUsd1e6 s) := by
    unfold leftUsd1e6 InI64 i64Wrap i64Min i64Max
    omega
  have depths := And.intro (And.intro legs.buy0.word legs.sell1.word) (And.intro legs.sell0.word legs.buy1.word)
  unfold sizeCap
  unfold InI64 at *
  dsimp only
  split
  · cases rich
    · simp only [Bool.false_eq_true, if_false]
      omega
    · simp only [if_true]
      omega
  · omega

end HyparbParams

/-- The gate that stopped an evaluation. -/
inductive Skip where
  | observed
  | halted
  | inflight
  | cooldown
  | notLive
  | noHedge
  | belowMin
  deriving DecidableEq, Repr

def usdMid1e6 (coin : Coin) (mid : Option { mid : Int // InI64 mid }) : Option { mid : Int // InI64 mid } :=
  if coin = none then some ⟨e6, by decide⟩ else mid

section Machine

variable {N : Nat} (cfg : HyparbParams)

def Sight.legs (sight : Sight N) : Option Legs := do
  return ⟨← sight.sell0, ← sight.buy1, ← sight.buy0, ← sight.sell1⟩

def evaluate (s : State) (pool now : Nat) (sight : Sight N) : Except Skip (FillMeta × ArbQuote) := do
  let pp := cfg.pools pool
  refuse (pp.trade = false) Skip.observed
  let minHedge := cfg.minHedgeUsd1e6 pp
  refuse (s.halted = true ∨ cfg.leftUsd1e6 s < minHedge) Skip.halted
  refuse (s.inflightUntil pool > now) Skip.inflight
  refuse (¬ cfg.allow s pool now) Skip.cooldown
  let (state, m) ← need sight.book Skip.notLive
  refuse (sight.mapOk = false) Skip.notLive
  let m := { m with tickSpacing := sight.mapSpacing }
  let legs ← need sight.legs Skip.noHedge
  let basis := if cfg.basisEnabled then sight.basisBps1e6 else 0
  let effBid1e18 ← need (ratio1e18 legs.sell0.effPx1e6 legs.buy1.effPx1e6 basis) Skip.noHedge
  let effAsk1e18 ← need (ratio1e18 legs.buy0.effPx1e6 legs.sell1.effPx1e6 basis) Skip.noHedge
  let rich : Bool := price1e18FromSqrt state.sqrtPrice m.dec0 m.dec1 ≥ effBid1e18.val / 2 + effAsk1e18.val / 2
  let px0Usd1e6 ← need (usdMid1e6 pp.coin0 sight.mid0) Skip.noHedge
  refuse (cfg.sizeCap s pp legs rich < minHedge) Skip.belowMin
  let q := solveArb state m sight.map {
    effBid1e18, effAsk1e18
    px0Usd1e6 := px0Usd1e6.val
    maxNotionalUsd1e6 := cfg.sizeCap s pp legs rich
    gasUsd1e6 := cfg.gasP50Usd1e6
    words := ⟨px0Usd1e6.property, cfg.sizeCap_inI64 s pp legs rich, cfg.words.1⟩ }
  refuse (q.side = .none ∨ q.notionalUsd1e6 ≤ 0) Skip.belowMin
  refuse (mulDivI64 q.pnlUsd1e6 oneBps1e6 q.notionalUsd1e6 < cfg.minNetBps1e6) Skip.belowMin
  return (m, q)

/-- One submitted swap: the order and the quote it was sized by. -/
structure Decision where
  tsNs : Nat
  pool : Nat
  buy : Bool
  orderId : Nat
  qty1e6 : Nat
  px1e6 : Nat
  edgeUsd1e6 : Int
  notionalUsd1e6 : Int
  deriving DecidableEq, Repr

def submitArb (s : State) (pool now : Nat) (m : FillMeta) (q : ArbQuote) (accepted : Bool) : Option Decision × State :=
  let buy : Bool := q.side = .buyToken0
  match qty1e6FromRaw q.token0Raw m.dec0, limitPx1e6 q.after m buy with
  | some qty1e6, some px1e6 =>
    let oidSeq := (s.oidSeq + 1) % u64Size
    if accepted then
      (some ⟨now, pool, buy, oidSeq * 2 ^ 32 % u64Size, qty1e6, px1e6, q.pnlUsd1e6, q.notionalUsd1e6⟩,
        { s with
          oidSeq
          lastEmitNs := Function.update s.lastEmitNs pool now
          inflightUntil := Function.update s.inflightUntil pool (min (now + inflightNs) u64Max)
          dayNotionalUsd1e6 := satAdd s.dayNotionalUsd1e6 q.notionalUsd1e6 })
    else (none, { s with oidSeq })
  | _, _ => (none, s)

def rollDay (s : State) (now : Nat) : State :=
  if cfg.wallOf now / dayNs ≠ s.day then { s with day := cfg.wallOf now / dayNs, dayNotionalUsd1e6 := 0 } else s

/-- What happens to the member. A tick or a pool's signal evaluates pools; the start and the timer roll the day; the
inventory's verdict sets the halt; a fill or the timer ends a flight. -/
inductive Event (N : Nat) where
  | evaluate (pool now : Nat) (sight : Sight N) (accepted : Bool)
  | rollDay (now : Nat)
  | inventory (halted : Bool)
  | landed (pool : Nat)

def step (s : State) : Event N → Option Decision × State
  | .evaluate pool now sight accepted =>
    match evaluate cfg s pool now sight with
    | .error _ => (none, s)
    | .ok (m, q) => submitArb s pool now m q accepted
  | .rollDay now => (none, rollDay cfg s now)
  | .inventory halted => (none, { s with halted })
  | .landed pool => (none, { s with inflightUntil := Function.update s.inflightUntil pool 0 })

end Machine

section Budget

variable {N : Nat} {cfg : HyparbParams} {s : State}

theorem evaluate_ok {pool now : Nat} {sight : Sight N} {m : FillMeta} {q : ArbQuote}
    (passed : evaluate cfg s pool now sight = .ok (m, q)) : 0 < q.notionalUsd1e6 ∧ q.notionalUsd1e6 ≤ cfg.leftUsd1e6 s := by
  unfold evaluate at passed
  iterate 4 obtain ⟨_, _, passed⟩ := bind_ok passed
  obtain ⟨⟨state, fill⟩, _, passed⟩ := bind_ok passed
  obtain ⟨_, _, passed⟩ := bind_ok passed
  obtain ⟨legs, _, passed⟩ := bind_ok passed
  obtain ⟨effBid, _, passed⟩ := bind_ok passed
  obtain ⟨effAsk, _, passed⟩ := bind_ok passed
  obtain ⟨px0, _, passed⟩ := bind_ok passed
  obtain ⟨_, _, passed⟩ := bind_ok passed
  obtain ⟨_, traded, passed⟩ := bind_ok passed
  obtain ⟨_, _, passed⟩ := bind_ok passed
  obtain ⟨sided, positive⟩ := not_or.mp (refuse_ok traded)
  cases passed
  refine ⟨not_le.mp positive, ?_⟩
  rcases solveArb_cases state _ sight.map _ with ⟨nothing, _⟩ | ⟨buy, target, preGas, offered⟩
  · exact absurd nothing sided
  · exact offered.capped.trans (cfg.sizeCap_le ..)

def Budgeted (cfg : HyparbParams) (s : State) : Prop := 0 ≤ s.dayNotionalUsd1e6 ∧ s.dayNotionalUsd1e6 ≤ cfg.capDayUsd1e6

def spent (d : Option Decision) : Int := d.elim 0 Decision.notionalUsd1e6

theorem Budgeted.left (kept : Budgeted cfg s) : cfg.leftUsd1e6 s = cfg.capDayUsd1e6 - s.dayNotionalUsd1e6 := by
  refine wrap_of_inI64 ?_
  have word := cfg.words.2.2
  unfold Budgeted at kept
  unfold InI64 i64Min i64Max at *
  omega

theorem submitArb_books (pool now : Nat) (m : FillMeta) {q : ArbQuote} (accepted : Bool) (kept : Budgeted cfg s)
    (positive : 0 < q.notionalUsd1e6) (within : q.notionalUsd1e6 ≤ cfg.leftUsd1e6 s) :
    Budgeted cfg (submitArb s pool now m q accepted).2 ∧ (submitArb s pool now m q accepted).2.dayNotionalUsd1e6 =
        s.dayNotionalUsd1e6 + spent (submitArb s pool now m q accepted).1 := by
  rw [kept.left] at within
  have word := cfg.words.2.2
  have booked : satAdd s.dayNotionalUsd1e6 q.notionalUsd1e6 = s.dayNotionalUsd1e6 + q.notionalUsd1e6 := by
    refine satAdd_exact ?_
    unfold Budgeted at kept
    unfold InI64 i64Min i64Max at *
    omega
  unfold Budgeted at kept ⊢
  unfold submitArb
  dsimp only
  split
  · cases accepted
    · exact ⟨kept, (Int.add_zero _).symm⟩
    · simp only [if_true, booked]
      exact ⟨⟨by omega, by omega⟩, rfl⟩
  · exact ⟨kept, (Int.add_zero _).symm⟩

theorem step_books (kept : Budgeted cfg s) (e : Event N) :
    Budgeted cfg (step cfg s e).2 ∧ ((step cfg s e).2.day = s.day →
      (step cfg s e).2.dayNotionalUsd1e6 = s.dayNotionalUsd1e6 + spent (step cfg s e).1) := by
  have same : s.dayNotionalUsd1e6 = s.dayNotionalUsd1e6 + 0 := (Int.add_zero _).symm
  cases e with
  | evaluate pool now sight accepted =>
    cases passed : evaluate cfg s pool now sight with
    | error why =>
      rw [step, passed]
      exact ⟨kept, fun _ => same⟩
    | ok chosen =>
      obtain ⟨positive, within⟩ := evaluate_ok passed
      obtain ⟨budgeted, booked⟩ := submitArb_books pool now chosen.1 accepted kept positive within
      rw [step, passed]
      exact ⟨budgeted, fun _ => booked⟩
  | rollDay now =>
    rw [step, rollDay]
    by_cases moved : cfg.wallOf now / dayNs ≠ s.day
    · rw [if_pos moved]
      exact ⟨⟨le_rfl, cfg.capped.le⟩, fun day => absurd day moved⟩
    · rw [if_neg moved]
      exact ⟨kept, fun _ => same⟩
  | inventory halted => exact ⟨kept, fun _ => same⟩
  | landed pool => exact ⟨kept, fun _ => same⟩

theorem replies_budgeted (start : Budgeted cfg s) (events : List (Event N)) : Budgeted cfg (replies (step cfg) s events).2 := by
  induction events generalizing s with
  | nil => exact start
  | cons e rest ih => exact ih (step_books start e).1

/-- The day does not roll in a step. -/
def SameDay (cfg : HyparbParams) (s : State) (e : Event N) : Prop := (step cfg s e).2.day = s.day

instance (cfg : HyparbParams) (s : State) (e : Event N) : Decidable (SameDay cfg s e) := inferInstanceAs (Decidable (_ = _))

theorem replies_books (start : Budgeted cfg s) {events : List (Event N)}
    (along : Along (fun s e => (step cfg s e).2) (SameDay cfg) s events) :
    (replies (step cfg) s events).2.dayNotionalUsd1e6 =
      s.dayNotionalUsd1e6 + ((replies (step cfg) s events).1.map spent).sum := by
  induction events generalizing s with
  | nil => exact (Int.add_zero _).symm
  | cons e rest ih =>
    obtain ⟨budgeted, booked⟩ := step_books start e
    have rest_books := ih budgeted along.2
    rw [booked along.1] at rest_books
    rw [replies, List.map_cons, List.sum_cons, ← Int.add_assoc]
    exact rest_books

theorem spent_le_capDay (start : Budgeted cfg s) {events : List (Event N)}
    (along : Along (fun s e => (step cfg s e).2) (SameDay cfg) s events) :
    ((replies (step cfg) s events).1.map spent).sum ≤ cfg.capDayUsd1e6 := by
  have books := replies_books start along
  have final := (replies_budgeted start events).2
  have nonneg := start.1
  omega

theorem start_budgeted (cfg : HyparbParams) : Budgeted cfg State.start := ⟨le_rfl, cfg.capped.le⟩

end Budget

section Runs

def edgeMeta : FillMeta := ⟨v3Meta, 3000, 18, 18⟩

def dearHedge : ArbParams :=
  ⟨⟨2 * 10 ^ 18, by decide⟩, ⟨3 * 10 ^ 18, by decide⟩, 1000000, 1000000000, 0, by decide⟩

def onePool : HyparbParams where
  pools _ := ⟨some 0, none, true, 1000000000, by decide⟩
  minNotionalUsd1e6 _ := 0
  basisEnabled := false
  depthCapEnabled := true
  gasP50Usd1e6 := 0
  maxOrderUsd1e6 := 1000000000
  capDayUsd1e6 := 5000
  minNetBps1e6 := 0
  cooldownNs := 0
  wallNs := 0
  monoNs := 0
  capped := by decide
  words := by decide

def hedgeAt (px : Int) : Option HedgeLeg := some ⟨px, 1000000000, by decide⟩

def sightOf (state : PoolState) : Sight 4 where
  book := some (state, edgeMeta)
  mapOk := true
  mapSpacing := 1
  map := onePosition
  sell0 := hedgeAt 2000000
  buy1 := hedgeAt 1000000
  buy0 := hedgeAt 3000000
  sell1 := hedgeAt 1000000
  basisBps1e6 := 0
  mid0 := some ⟨1000000, by decide⟩

def twoLooks : List (Event 4) := [.evaluate 0 10 (sightOf midPool) true, .landed 0, .evaluate 0 20 (sightOf midPool) true]

end Runs

end TradingEngine.Hyparb
