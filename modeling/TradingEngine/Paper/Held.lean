import TradingEngine.Paper.Judge

/-!
# The held-quote law

An IoC is judged against the quote in force at its due instant. Shadow judgements read the same book at other
instants, on copies.
-/

namespace TradingEngine.Paper
open Base CoreTypes Queue Function

def venuePolymarket : Nat := 0
def venueHypercall : Nat := 9

def pmRollingMax : Nat := 8
def pmRollingOrdinalBase : Nat := 4096
def pmRollingStride : Nat := 5
def pmOffMark : Nat := 4
def pm5RollingMax : Nat := 8
def pm5RollingOrdinalBase : Nat := 4160
def pm5RollingStride : Nat := 7
def pm5OffMark : Nat := 6

def rollingOf (base stride most : Nat) (sym : SymbolId) : Option (Nat × Nat) :=
  if symbolVenueByte sym ≠ venuePolymarket ∨ (symbolOrdinal sym).val < base then none
  else
    let rel := (symbolOrdinal sym).val - base
    if rel / stride ≥ most then none else some (rel / stride, rel % stride)

def pmRollingOf : SymbolId → Option (Nat × Nat) := rollingOf pmRollingOrdinalBase pmRollingStride pmRollingMax

def pm5RollingOf : SymbolId → Option (Nat × Nat) := rollingOf pm5RollingOrdinalBase pm5RollingStride pm5RollingMax

def heldSyms : Nat := 1024
def heldOrdinalFirst : Nat := 513
def heldPm15Legs : Nat := pmRollingMax * pmOffMark
def heldPm5Legs : Nat := pm5RollingMax * pm5OffMark
def heldPmLegs : Nat := heldPm15Legs + heldPm5Legs
def heldShadow : Nat := 2 * pm5RollingMax

def heldIndex (sym : SymbolId) : Option Nat :=
  if symbolVenueByte sym ≠ venueHypercall then none
  else
    let o := (symbolOrdinal sym).val
    if o ≥ heldOrdinalFirst ∧ o - heldOrdinalFirst < heldSyms then some (o - heldOrdinalFirst) else none

def heldPm5Leg (sym : SymbolId) : Bool := (pm5RollingOf sym).any fun r => r.2 < pm5OffMark

def heldPmLeg (sym : SymbolId) : Bool := (pmRollingOf sym).any (fun r => r.2 < pmOffMark) || heldPm5Leg sym

def quoteIndex (sym : SymbolId) : Option Nat :=
  match heldIndex sym with
  | some i => some i
  | none =>
    match (pmRollingOf sym).filter fun r => r.2 < pmOffMark with
    | some (f, off) => some (heldSyms + f * pmOffMark + off)
    | none =>
      match (pm5RollingOf sym).filter fun r => r.2 < pm5OffMark with
      | some (g, off) => some (heldSyms + heldPm15Legs + g * pm5OffMark + off)
      | none => none

/-- The classes that share the pending table. -/
inductive ShareClass where
  | options
  | quarter
  | five
  deriving DecidableEq, Repr

def ShareClass.share : ShareClass → Nat
  | .options => 16
  | .quarter => pmRollingMax
  | .five => pm5RollingMax

def heldPending : Nat := ShareClass.options.share + ShareClass.quarter.share + ShareClass.five.share

def shareClass (k : Nat) : ShareClass :=
  if k < heldSyms then .options else if k < heldSyms + heldPm15Legs then .quarter else .five

/-- The leg of a quote that is not an option's. -/
def legOf (k : Nat) : Nat := (k - heldSyms) % heldPmLegs

structure HeldQuote where
  bid1e6 : Int
  bidQty1e6 : Int
  ask1e6 : Int
  askQty1e6 : Int
  deriving DecidableEq, Repr

def HeldQuote.empty : HeldQuote := ⟨0, 0, 0, 0⟩

def heldDepthK : Nat := 5

/-- Best first per side. -/
structure HeldLevels where
  bids : List DepthLevel
  asks : List DepthLevel
  deriving DecidableEq, Repr

def HeldLevels.empty : HeldLevels := ⟨List.replicate heldDepthK ⟨0, 0⟩, List.replicate heldDepthK ⟨0, 0⟩⟩

structure DepthTopK where
  tsNs : Nat
  sym : SymbolId
  stale : Bool
  bids : List DepthLevel
  asks : List DepthLevel
  deriving DecidableEq, Repr

structure HeldOrder where
  dueNs : Nat
  px1e6 : Int
  qty1e6 : Int
  clientOid : Nat
  sym : SymbolId
  side : Side
  strategyId : Nat
  venue : Nat
  deriving DecidableEq, Repr

/-- What the levels behind the touch give: the levels left, the size and the cost so far, and whether one was
taken. -/
def sweepLevels (side : Side) (limit qty touch : Int) :
    List DepthLevel → Int → Int → Bool → List DepthLevel × Int × Int × Bool
  | [], got, cost, deeper => ([], got, cost, deeper)
  | lv :: rest, got, cost, deeper =>
    if qty ≤ got ∨ lv.px1e6 ≤ 0 then (lv :: rest, got, cost, deeper)
    else if lv.qty1e6 ≤ 0 ∨ !crossed side touch lv.px1e6 then
      let next := sweepLevels side limit qty touch rest got cost deeper
      (lv :: next.1, next.2)
    else if !noWorse side lv.px1e6 limit then (lv :: rest, got, cost, deeper)
    else
      let take := if qty - got < lv.qty1e6 then qty - got else lv.qty1e6
      let next := sweepLevels side limit qty touch rest (got + take) (cost + take * lv.px1e6) true
      ({ lv with qty1e6 := lv.qty1e6 - take } :: next.1, next.2)

def sweepPx (side : Side) (cost got : Int) : Int :=
  i64Wrap (match side with
    | .bid => (cost + got - 1).tdiv got
    | .ask => cost.tdiv got)

def HeldQuote.touchPx (q : HeldQuote) : Side → Int
  | .bid => q.ask1e6
  | .ask => q.bid1e6

def HeldQuote.touchQty (q : HeldQuote) : Side → Int
  | .bid => q.askQty1e6
  | .ask => q.bidQty1e6

def HeldQuote.take (q : HeldQuote) (side : Side) (got : Int) : HeldQuote :=
  match side with
  | .bid => { q with askQty1e6 := q.askQty1e6 - got }
  | .ask => { q with bidQty1e6 := q.bidQty1e6 - got }

def HeldLevels.behind (l : HeldLevels) : Side → List DepthLevel
  | .bid => l.asks
  | .ask => l.bids

def HeldLevels.put (l : HeldLevels) (side : Side) (levels : List DepthLevel) : HeldLevels :=
  match side with
  | .bid => { l with asks := levels }
  | .ask => { l with bids := levels }

def sweep (side : Side) (limit qty : Int) (q : HeldQuote) (l : HeldLevels) : Verdict × Bool × HeldQuote × HeldLevels :=
  let touch := q.touchPx side
  if touch ≤ 0 ∨ q.touchQty side ≤ 0 ∨ qty ≤ 0 ∨ !noWorse side touch limit then (.cancel, false, q, l)
  else
    let got := if qty < q.touchQty side then qty else q.touchQty side
    let (levels, total, cost, deeper) := sweepLevels side limit qty touch (l.behind side) got (got * touch) false
    (.fill (sweepPx side cost total) total, deeper, q.take side got, l.put side levels)

/-- Quotes are indexed by `quoteIndex`, what is kept of a rolling leg by `legOf`. -/
structure HeldBook where
  quotes : Nat → HeldQuote
  pending : List HeldOrder
  classLen : ShareClass → Nat
  levels : Nat → HeldLevels
  shadow : List (HeldOrder × Nat)
  sweptDeeper : Nat
  touchChgNs : Nat → Nat
  levelsNs : Nat → Nat
  touchLast : Nat → HeldQuote
  levelsLagged : Nat
  shadowRefused : Nat

def HeldBook.new : HeldBook where
  quotes := fun _ => .empty
  pending := []
  classLen := fun _ => 0
  levels := fun _ => .empty
  shadow := []
  sweptDeeper := 0
  touchChgNs := fun _ => 0
  levelsNs := fun _ => 0
  touchLast := fun _ => .empty
  levelsLagged := 0
  shadowRefused := 0

def isOption (k : Nat) : Bool := k < heldSyms

def quoteOf (t : Queue.Tick) : HeldQuote where
  bid1e6 := if t.bidPx > 0 ∧ t.bidQty > 0 then t.bidPx else 0
  bidQty1e6 := if t.bidPx > 0 ∧ t.bidQty > 0 then t.bidQty else 0
  ask1e6 := if t.askPx > 0 ∧ t.askQty > 0 then t.askPx else 0
  askQty1e6 := if t.askPx > 0 ∧ t.askQty > 0 then t.askQty else 0

namespace HeldBook

variable (b : HeldBook)

def onDepth (d : DepthTopK) : HeldBook :=
  match quoteIndex d.sym with
  | none => b
  | some k =>
    if isOption k then b
    else
      let l : HeldLevels := if d.stale then .empty else ⟨d.bids, d.asks⟩
      { b with
        levelsNs := update b.levelsNs (legOf k) d.tsNs
        levels := update b.levels (legOf k) l }

/-- A stale tick takes the touch and the levels behind it away. -/
def withdraw (k tsNs : Nat) : HeldBook :=
  if isOption k then { b with quotes := update b.quotes k .empty }
  else
    { b with
      quotes := update b.quotes k .empty
      levels := update b.levels (legOf k) .empty
      touchLast := update b.touchLast (legOf k) .empty
      touchChgNs := update b.touchChgNs (legOf k) tsNs }

def publish (k tsNs : Nat) (q : HeldQuote) : HeldBook :=
  if isOption k ∨ q = b.touchLast (legOf k) then { b with quotes := update b.quotes k q }
  else
    { b with
      quotes := update b.quotes k q
      touchChgNs := update b.touchChgNs (legOf k) tsNs
      touchLast := update b.touchLast (legOf k) q }

def onQuote (t : Tick) : HeldBook :=
  match quoteIndex t.sym with
  | none => b
  | some k => if t.stale then b.withdraw k t.tsNs else b.publish k t.tsNs (quoteOf t.quote)

def submit (o : HeldOrder) : HeldBook × Bool :=
  match quoteIndex o.sym with
  | none => (b, false)
  | some k =>
    let c := shareClass k
    if b.pending.length ≥ heldPending ∨ b.classLen c ≥ c.share ∨ o.qty1e6 ≤ 0 ∨ o.px1e6 ≤ 0 then (b, false)
    else
      ({ b with
          pending := b.pending ++ [o]
          classLen := update b.classLen c (b.classLen c + 1) }, true)

def lags (k : Nat) : Bool := b.levelsNs (legOf k) < b.touchChgNs (legOf k)

def judgeLeg (o : HeldOrder) (k : Nat) : Verdict × HeldBook :=
  if b.lags k then
    let (v, _, q, _) := sweep o.side o.px1e6 o.qty1e6 (b.quotes k) .empty
    (v, { b with
      levelsLagged := (b.levelsLagged + 1) % (u64Max + 1)
      quotes := update b.quotes k q })
  else
    let (v, deeper, q, l) := sweep o.side o.px1e6 o.qty1e6 (b.quotes k) (b.levels (legOf k))
    (v, { b with
      sweptDeeper := (b.sweptDeeper + deeper.toNat) % (u64Max + 1)
      quotes := update b.quotes k q
      levels := update b.levels (legOf k) l })

def judgeOption (o : HeldOrder) (k : Nat) : Verdict × HeldBook :=
  let q := b.quotes k
  let t : Touch := ⟨q.bid1e6, q.ask1e6, q.bidQty1e6, q.askQty1e6⟩
  let (v, left) := judgeIoc o.side o.px1e6 o.qty1e6 t ⟨q.askQty1e6, q.bidQty1e6⟩
  (v, { b with quotes := update b.quotes k { q with askQty1e6 := left.ask, bidQty1e6 := left.bid } })

/-- The verdict on one order, and its place in its class given back. -/
def judgeOne (o : HeldOrder) : Verdict × HeldBook :=
  match quoteIndex o.sym with
  | none => (.cancel, b)
  | some k =>
    let (v, after) := if isOption k then b.judgeOption o k else b.judgeLeg o k
    let c := shareClass k
    (v, { after with classLen := update after.classLen c (after.classLen c - 1) })

def dueVisit (nowNs : Nat) (_done : List HeldOrder) (o : HeldOrder) (_rest : List HeldOrder)
    (s : HeldBook × List (HeldOrder × Verdict)) : Option HeldOrder × HeldBook × List (HeldOrder × Verdict) :=
  if nowNs < o.dueNs then (some o, s)
  else
    let (v, b) := s.1.judgeOne o
    (none, b, s.2 ++ [(o, v)])

def judgeDue (nowNs : Nat) : HeldBook × List (HeldOrder × Verdict) :=
  let (left, after, log) := visit (dueVisit nowNs) [] b.pending (b, [])
  ({ after with pending := left }, log)

def submitShadow (o : HeldOrder) (delayClass : Nat) : HeldBook × Bool :=
  match (quoteIndex o.sym).filter fun k => !isOption k with
  | none => (b, false)
  | some _ =>
    if o.qty1e6 ≤ 0 ∨ o.px1e6 ≤ 0 then (b, false)
    else if b.shadow.length ≥ heldShadow then
      ({ b with shadowRefused := (b.shadowRefused + 1) % (u64Max + 1) }, false)
    else ({ b with shadow := b.shadow ++ [(o, delayClass)] }, true)

def judgeShadow (o : HeldOrder) : Verdict :=
  match (quoteIndex o.sym).filter fun k => !isOption k with
  | none => .cancel
  | some k =>
    (sweep o.side o.px1e6 o.qty1e6 (b.quotes k) (if b.lags k then .empty else b.levels (legOf k))).1

def shadowVisit (nowNs : Nat) (_done : List (HeldOrder × Nat)) (s : HeldOrder × Nat)
    (_rest : List (HeldOrder × Nat)) (log : List (HeldOrder × Nat × Verdict)) :
    Option (HeldOrder × Nat) × List (HeldOrder × Nat × Verdict) :=
  if nowNs < s.1.dueNs then (some s, log) else (none, log ++ [(s.1, s.2, b.judgeShadow s.1)])

def judgeShadows (nowNs : Nat) : HeldBook × List (HeldOrder × Nat × Verdict) :=
  let (left, log) := visit (b.shadowVisit nowNs) [] b.shadow []
  ({ b with shadow := left }, log)

end HeldBook

end TradingEngine.Paper
