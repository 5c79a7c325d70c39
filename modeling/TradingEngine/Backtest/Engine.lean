import TradingEngine.Backtest.Book
import TradingEngine.Paper.Matcher

/-!
# The fill engine of a backtest

The orders a replay emits, judged against the records of the tape, with the settlement schedules of options and
binaries.
-/

namespace TradingEngine.Backtest

open Base CoreTypes Queue Paper Amm
open Function (update)

inductive Verb where
  | place
  | cancel
  | modify
  | unknown
  deriving DecidableEq, Repr

structure Order extends Paper.Order where
  verb : Verb
  prevClientOid : Nat
  deriving DecidableEq, Repr

structure OpenOrder where
  seq : Nat
  tActiveNs : Nat
  expiryNs : Nat
  sym : SymbolId
  side : Side
  kind : OrderKind
  venue : Nat
  oos : Bool
  px1e6 : Int
  remaining1e6 : Int
  clientOid : Nat
  strategyId : Nat
  deriving DecidableEq, Repr

structure SynthFill where
  sym : SymbolId
  side : Side
  px1e6 : Int
  qty1e6 : Int
  oos : Bool
  clientOid : Nat
  deriving DecidableEq, Repr

structure BinarySettle where
  haltNs : Nat
  settleNs : Nat
  value1e6 : Int
  deriving DecidableEq, Repr

inductive InstrumentClass where
  | spot
  | perp
  | dated
  | option
  | prediction
  deriving DecidableEq, Repr

structure ModelParams where
  latencyNs : Nat → Nat
  optSpreadFrac1e6 : Nat

/-- `optSettle1e6` and `binarySettle` are in the order of their keys. `panicked` is an expectation that failed: the
replay stops. -/
structure FillEngine where
  params : ModelParams
  boundaryVirtNs : Nat
  seqNext : Nat
  open_ : List OpenOrder
  accounts : Accounts
  markFillSyms : SymbolId → Bool
  optExpiryNs : SymbolId → Option Nat
  optSettle1e6 : List (SymbolId × Int)
  settled : SymbolId → Bool
  binarySettle : List (SymbolId × List BinarySettle)
  binaryDueNs : Nat
  binaryHalted : SymbolId → Bool
  settleDueNs : Nat
  lastWallNs : Nat
  symClass : SymbolId → Option InstrumentClass
  deltaBySymbolVenue : Bool
  amm : AmmBook
  queue : QueueBook
  queueOos : Nat × Nat → Option Bool
  queueDelay : Option Nat
  panicked : Bool

def legacyBnAnchorSym : SymbolId := 7

def modelVenueByte (sym : SymbolId) : Nat := if sym = legacyBnAnchorSym then venueBinance else symbolVenueByte sym

def tradeableVenueByte (venue : Nat) : Bool := venue ≤ 4 ∨ venue = 6 ∨ venue = 8

def markHalfSpread1e6 (mark1e6 : Int) : Int := max (mark1e6.tdiv 200) 1

def optHalfSpread1e6 (mark1e6 : Int) (frac1e6 : Nat) : Int :=
  let floor := markHalfSpread1e6 mark1e6
  if frac1e6 = 0 ∨ mark1e6 ≤ 0 then floor else max ((mark1e6 * frac1e6 + (2000000 - 1)).tdiv 2000000) floor

/-- The digits of a number; no number has more than its value. -/
def figuresFrom : Nat → Int → Nat → Nat
  | 0, _, n => n
  | fuel + 1, q, n => if q > 0 then figuresFrom fuel (q.tdiv 10) (n + 1) else n

def sigFigsOk (px1e8 : Int) : Bool :=
  let digits := figuresFrom px1e8.toNat px1e8 0
  digits ≤ 5 ∨ px1e8.tmod (10 ^ (digits - 5)) = 0

def outcomeRulesCheck (px1e8 sz1e8 : Int) : Bool :=
  !(px1e8 ≤ 0 ∨ sz1e8 ≤ 0) ∧ !(px1e8 < 1000 ∨ px1e8 > 99999000) ∧ sigFigsOk px1e8 ∧ sz1e8.tmod 100000000 = 0 ∧
    !(px1e8 * sz1e8 < 10000000000000000)

def satTimes (a b : Int) : Int := max i64Min (min i64Max (a * b))

def put {β : Type} (sym : SymbolId) (f : Option β → β) : List (SymbolId × β) → List (SymbolId × β)
  | [] => [(sym, f none)]
  | (k, v) :: rest =>
    if sym < k then (sym, f none) :: (k, v) :: rest
    else if sym = k then (k, f (some v)) :: rest
    else (k, v) :: put sym f rest

namespace FillEngine

def new (params : ModelParams) (boundaryVirtNs : Nat) : FillEngine where
  params := params
  boundaryVirtNs := boundaryVirtNs
  seqNext := 0
  open_ := []
  accounts := .new
  markFillSyms := fun _ => false
  optExpiryNs := fun _ => none
  optSettle1e6 := []
  settled := fun _ => false
  binarySettle := []
  binaryDueNs := u64Max
  binaryHalted := fun _ => false
  settleDueNs := u64Max
  lastWallNs := 0
  symClass := fun _ => none
  deltaBySymbolVenue := false
  amm := .new
  queue := .new
  queueOos := fun _ => none
  queueDelay := none
  panicked := false

def findFrom (clientOid strategyId : Nat) : List OpenOrder → Nat → Option Nat → Option Nat
  | [], _, found => found
  | o :: rest, i, found =>
    if o.clientOid = clientOid ∧ o.strategyId = strategyId then
      if found.isSome then none else findFrom clientOid strategyId rest (i + 1) (some i)
    else findFrom clientOid strategyId rest (i + 1) found

variable (e : FillEngine)

def findResting (clientOid strategyId : Nat) : Option Nat := findFrom clientOid strategyId e.open_ 0 none

def deltaVenue (sym : SymbolId) (modelVenue : Nat) : Nat :=
  if e.deltaBySymbolVenue then symbolVenueByte sym else modelVenue

def queueDelayOf (venue : Nat) : Nat := e.queueDelay.getD (e.params.latencyNs venue)

def queuePlaceOf (o : Order) (emitVirt venue : Nat) : QueuePlace :=
  let expiry := expiryAt emitVirt o.ttlNs
  ⟨o.clientOid, o.sym, o.side, o.strategyId, o.px, o.qty, addNs emitVirt (e.queueDelayOf venue),
    if expiry = 0 then never else expiry⟩

def kindOk (o : Order) : Bool :=
  if modelVenueByte o.sym = venueHyperEvm then o.kind = .ammSwap ∧ (ammPoolIndex o.sym).isSome
  else o.kind = .maker ∨ o.kind = .ioc

def unroutable (o : Order) : Bool :=
  !tradeableVenueByte (modelVenueByte o.sym) ∨ signalOnlySym o.sym ∨ o.px ≤ 0 ∨ o.qty ≤ 0 ∨ !kindOk o

def offPredictionGrid (o : Order) : Bool :=
  if modelVenueByte o.sym ≠ venueHyperliquid ∨ e.symClass o.sym ≠ some .prediction then false
  else !outcomeRulesCheck (satTimes o.px 100) (satTimes o.qty 100)

def bucket (emitVirt : Nat) : Bool := emitVirt ≥ e.boundaryVirtNs

def setQueueOos (o : Order) (emitVirt : Nat) : Nat × Nat → Option Bool :=
  update e.queueOos (o.strategyId, o.clientOid) (some (e.bucket emitVirt))

def intakeQueuePlace (o : Order) (emitVirt venue : Nat) : FillEngine :=
  match e.queue.place (e.queuePlaceOf o emitVirt venue) with
  | (q, .ok ()) => { e with queue := q, queueOos := e.setQueueOos o emitVirt }
  | (q, .error _) => { e with queue := q }

def opened (o : Order) (emitVirt : Nat) : OpenOrder where
  seq := e.seqNext
  tActiveNs := addNs emitVirt (e.params.latencyNs (e.deltaVenue o.sym (modelVenueByte o.sym)))
  expiryNs := expiryAt emitVirt o.ttlNs
  sym := o.sym
  side := o.side
  kind := o.kind
  venue := modelVenueByte o.sym
  oos := e.bucket emitVirt
  px1e6 := o.px
  remaining1e6 := o.qty
  clientOid := o.clientOid
  strategyId := o.strategyId

def intakePlace (o : Order) (emitVirt : Nat) : FillEngine :=
  if unroutable o then e
  else if e.offPredictionGrid o then e
  else if judgedByQueue (modelVenueByte o.sym) o.kind o.postOnly then e.intakeQueuePlace o emitVirt (modelVenueByte o.sym)
  else if (e.open_.filter fun p => p.sym = o.sym).length ≥ maxOpenPerSym then e
  else if e.open_.length ≥ maxOpenTotal then e
  else { e with open_ := e.open_ ++ [e.opened o emitVirt], seqNext := e.seqNext + 1 }

def intakeQueueCancel (o : Order) (emitVirt : Nat) : FillEngine :=
  match e.queue.get o.prevClientOid o.strategyId with
  | none => e
  | some h =>
    let at_ := addNs emitVirt (e.queueDelayOf (modelVenueByte h.order.sym))
    { e with queue := (e.queue.cancel o.prevClientOid o.strategyId at_).1 }

def intakeCancel (o : Order) (emitVirt : Nat) : FillEngine :=
  match e.findResting o.prevClientOid o.strategyId with
  | some i => { e with open_ := e.open_.eraseIdx i }
  | none => e.intakeQueueCancel o emitVirt

def intakeQueueModify (o : Order) (emitVirt : Nat) : FillEngine :=
  let venue := modelVenueByte o.sym
  match e.queue.get o.prevClientOid o.strategyId with
  | none => e
  | some h =>
    if judgedByQueue venue o.kind o.postOnly = false ∨ h.order.sym ≠ o.sym ∨ h.order.side ≠ o.side ∨ o.px ≤ 0 ∨ o.qty ≤ 0
    then e
    else
      match e.queue.modify o.prevClientOid (e.queuePlaceOf o emitVirt venue) with
      | (q, .ok ()) => { e with queue := q, queueOos := e.setQueueOos o emitVirt }
      | (q, .error _) => { e with queue := q }

def intakeModify (o : Order) (emitVirt : Nat) : FillEngine :=
  match e.findResting o.prevClientOid o.strategyId with
  | none => e.intakeQueueModify o emitVirt
  | some i =>
    match e.open_[i]? with
    | none => e
    | some p =>
      if p.sym ≠ o.sym ∨ p.side ≠ o.side ∨ p.kind ≠ o.kind ∨ p.venue ≠ modelVenueByte o.sym ∨ o.px ≤ 0 ∨ o.qty ≤ 0 then e
      else
        { e with
          open_ := e.open_.set i
            { p with
              px1e6 := o.px
              remaining1e6 := o.qty
              clientOid := o.clientOid
              tActiveNs := addNs emitVirt (e.params.latencyNs (e.deltaVenue p.sym p.venue)) } }

def intake (o : Order) (emitVirt : Nat) : FillEngine :=
  match o.verb with
  | .cancel => e.intakeCancel o emitVirt
  | .modify => e.intakeModify o emitVirt
  | .place => e.intakePlace o emitVirt
  | .unknown => e

def intakeDelayed (o : Order) (emitVirt delayNs : Nat) : FillEngine :=
  { ({ e with queueDelay := some delayNs }).intake o emitVirt with queueDelay := none }

def allowed (symClass : SymbolId → Option InstrumentClass) (a : Accounts) (o : OpenOrder) (qty1e6 : Int) : Option Int :=
  if o.side = .ask ∧ symClass o.sym = some .prediction then
    let q := min qty1e6 (max (a.full.posQty1e6 o.sym) 0)
    if q ≤ 0 then none else some q
  else some qty1e6

def bookFill (symClass : SymbolId → Option InstrumentClass) (s : Accounts × List SynthFill) (o : OpenOrder)
    (px1e6 qty1e6 mark1e6 : Int) : Accounts × List SynthFill :=
  match allowed symClass s.1 o qty1e6 with
  | none => s
  | some q => (s.1.fill o.sym o.side px1e6 q mark1e6 o.oos, s.2 ++ [⟨o.sym, o.side, px1e6, q, o.oos, o.clientOid⟩])

def bookEvent (symClass : SymbolId → Option InstrumentClass)
    (s : (Accounts × List SynthFill) × (Nat × Nat → Option Bool)) (t : Told) :
    (Accounts × List SynthFill) × (Nat × Nat → Option Bool) :=
  let ev := t.event
  match ev.kind with
  | .fill =>
    let o : OpenOrder := ⟨0, 0, 0, ev.sym, ev.side, .maker, modelVenueByte ev.sym, (s.2 (ev.slot, ev.clientOid)).getD false,
      ev.px1e6, ev.qty1e6, ev.clientOid, ev.slot⟩
    (bookFill symClass s.1 o ev.px1e6 ev.qty1e6 ((s.1.1.marks1e6 ev.sym).getD ev.px1e6), s.2)
  | .resting => s
  | _ => (s.1, update s.2 (ev.slot, ev.clientOid) none)

def drainQueue (out : List SynthFill) : FillEngine × List SynthFill :=
  let (q, events) := e.queue.drain
  let s := events.foldl (bookEvent e.symClass) ((e.accounts, out), e.queueOos)
  ({ e with queue := q, accounts := s.1.1, queueOos := s.2 }, s.1.2)

def refreshSettleDue : FillEngine :=
  { e with
    settleDueNs := e.optSettle1e6.foldl (fun next entry =>
      if e.settled entry.1 then next
      else
        match e.optExpiryNs entry.1 with
        | some expiry => if expiry > 0 ∧ expiry < next then expiry else next
        | none => next) u64Max }

def expiredOption (wallNs : Nat) (entry : SymbolId × Int) : Bool :=
  !e.settled entry.1 ∧ (e.optExpiryNs entry.1).any fun expiry => expiry > 0 ∧ expiry ≤ wallNs

def pin (entry : SymbolId × Int) : FillEngine :=
  { e with accounts := e.accounts.mark entry.1 entry.2, settled := update e.settled entry.1 true }

def settlePass (wallNs : Nat) : FillEngine :=
  ((e.optSettle1e6.filter (e.expiredOption wallNs)).foldl pin e).refreshSettleDue

def cancelOpenOf (sym : SymbolId) : FillEngine :=
  { e with open_ := e.open_.filter fun o => o.sym ≠ sym }

def refreshBinaryDue : FillEngine :=
  { e with
    binaryDueNs := e.binarySettle.foldl (fun next entry =>
      match entry.2 with
      | [] => next
      | head :: _ => min next (if e.binaryHalted entry.1 then head.settleNs else head.haltNs)) u64Max }

/-- The first symbol with something due: its settlement, or none for a halt. -/
def binaryNext (wallNs : Nat) : Option (SymbolId × Option BinarySettle) :=
  e.binarySettle.findSome? fun entry =>
    match entry.2 with
    | [] => none
    | head :: _ =>
      if head.settleNs ≤ wallNs then some (entry.1, some head)
      else if head.haltNs ≤ wallNs ∧ !e.binaryHalted entry.1 then some (entry.1, none)
      else none

def popSettle (sym : SymbolId) (table : List (SymbolId × List BinarySettle)) : List (SymbolId × List BinarySettle) :=
  (table.map fun entry => if entry.1 = sym then (entry.1, entry.2.tail) else entry).filter fun entry =>
    !(entry.1 = sym ∧ entry.2 = [])

def settleBinary (sym : SymbolId) (s : BinarySettle) : FillEngine :=
  { e.cancelOpenOf sym with
    accounts := (e.accounts.mark sym s.value1e6).settle sym s.value1e6 s.value1e6
    binarySettle := popSettle sym e.binarySettle
    binaryHalted := update e.binaryHalted sym false
    settled := update e.settled sym false }

def haltBinary (sym : SymbolId) : FillEngine :=
  { e with binaryHalted := update e.binaryHalted sym true, settled := update e.settled sym true }

def binaryTurn : SymbolId × Option BinarySettle → FillEngine
  | (sym, some s) => e.settleBinary sym s
  | (sym, none) => e.haltBinary sym

def binaryLoop (wallNs : Nat) : Nat → FillEngine → FillEngine
  | 0, e => e
  | n + 1, e =>
    match e.binaryNext wallNs with
    | some due => binaryLoop wallNs n (e.binaryTurn due)
    | none => e

def binaryFuel : Nat := (e.binarySettle.map fun entry => 2 * entry.2.length).sum

def binaryPass (wallNs : Nat) : FillEngine := (binaryLoop wallNs e.binaryFuel e).refreshBinaryDue

/-- The end of a replay: what is still open on a settled option is closed at its value. -/
def closeExpired (sym : SymbolId) : FillEngine :=
  match e.optSettle1e6.lookup sym with
  | none => e
  | some value =>
    if e.settled sym then
      { e with accounts := e.accounts.settle sym value ((e.accounts.marks1e6 sym).getD value) }
    else e

def settleExpired : FillEngine :=
  if e.lastWallNs = 0 then e
  else
    let e := e.settlePass e.lastWallNs
    (e.optSettle1e6.map Prod.fst).foldl closeExpired e

def finish : FillEngine := { e.settleExpired with open_ := [] }

def expire (sym : SymbolId) (virtNs : Nat) : FillEngine :=
  { e with open_ := e.open_.filter fun o => !(o.sym = sym ∧ expiredAt virtNs o.expiryNs) }

def clocks (wallNs : Nat) : FillEngine :=
  let e := { e with lastWallNs := wallNs }
  let e := if wallNs ≥ e.settleDueNs then e.settlePass wallNs else e
  if wallNs ≥ e.binaryDueNs then e.binaryPass wallNs else e

def queueTick (t : Paper.Tick) (virtNs : Nat) : FillEngine × List SynthFill :=
  if queueVenue (modelVenueByte t.sym) then
    let touch := if isFillEvidence t then t.touch else ⟨0, 0, 0, 0⟩
    { e with queue := e.queue.onBook t.sym touch virtNs }.drainQueue []
  else (e, [])

def mid (t : Paper.Tick) : Int := (t.quote.bidPx + t.quote.askPx).tdiv 2

def markTick (t : Paper.Tick) : FillEngine :=
  if t.touch.twoSided ∧ !e.settled t.sym then { e with accounts := e.accounts.mark t.sym (mid t) } else e

/-- An active order of a marked symbol fills whole, half a spread from the mark. -/
def markVisit (symClass : SymbolId → Option InstrumentClass) (sym : SymbolId) (virtNs : Nat) (mark h : Int)
    (_done : List OpenOrder) (o : OpenOrder) (_rest : List OpenOrder) (s : Accounts × List SynthFill) :
    Option OpenOrder × Accounts × List SynthFill :=
  if o.sym ≠ sym ∨ virtNs < o.tActiveNs then (some o, s)
  else
    let px := match o.side with
      | .bid => max (mark + h) 1
      | .ask => max (mark - h) 1
    (none, bookFill symClass s o px o.remaining1e6 mark)

/-- One active order of the symbol against what the tick still displays. -/
def fillVisit (symClass : SymbolId → Option InstrumentClass) (sym : SymbolId) (virtNs : Nat) (touch : Touch) (mark : Int)
    (_done : List OpenOrder) (o : OpenOrder) (_rest : List OpenOrder) (s : Budget × Accounts × List SynthFill) :
    Option OpenOrder × Budget × Accounts × List SynthFill :=
  if o.sym ≠ sym ∨ virtNs < o.tActiveNs then (some o, s)
  else if o.kind = .ioc then
    match judgeIoc o.side o.px1e6 o.remaining1e6 touch s.1 with
    | (.fill px q, b) => (none, b, bookFill symClass s.2 o px q mark)
    | (_, b) => (none, b, s.2)
  else
    match judgeMaker o.side o.px1e6 o.remaining1e6 touch s.1 with
    | (.fill px q, b) =>
      let remaining := o.remaining1e6 - q
      (if remaining > 0 then some { o with remaining1e6 := remaining } else none, b, bookFill symClass s.2 o px q mark)
    | (_, b) => (some o, b, s.2)

def markFill (t : Paper.Tick) (virtNs : Nat) (mark : Int) (out : List SynthFill) : FillEngine × List SynthFill :=
  let h := if e.settled t.sym then 0 else optHalfSpread1e6 mark e.params.optSpreadFrac1e6
  let (left, accounts, out) := visit (markVisit e.symClass t.sym virtNs mark h) [] e.open_ (e.accounts, out)
  ({ e with open_ := left, accounts }, out)

def cross (t : Paper.Tick) (virtNs : Nat) (mark : Int) (out : List SynthFill) : FillEngine × List SynthFill :=
  let (left, _, accounts, out) :=
    visit (fillVisit e.symClass t.sym virtNs t.touch mark) [] e.open_ (Budget.of t.touch, e.accounts, out)
  ({ e with open_ := left, accounts }, out)

/-- The orders of the symbol, once the record has marked it. -/
def judgeTick (t : Paper.Tick) (virtNs : Nat) (out : List SynthFill) : FillEngine × List SynthFill :=
  if t.touch.twoSided ∧ e.markFillSyms t.sym then
    match e.accounts.marks1e6 t.sym with
    | none => ({ e with panicked := true }, out)
    | some mark => e.markFill t virtNs mark out
  else if e.settled t.sym then (e.cancelOpenOf t.sym, out)
  else if !t.touch.twoSided then (e, out)
  else
    match e.accounts.marks1e6 t.sym with
    | none => ({ e with panicked := true }, out)
    | some mark => e.cross t virtNs mark out

def onRecord (t : Paper.Tick) (virtNs wallNs : Nat) : FillEngine × List SynthFill :=
  if t.sym = symbolIdNone then (e, [])
  else
    let (e, out) := ((e.expire t.sym virtNs).clocks wallNs).queueTick t virtNs
    if t.stale then (e, out) else (e.markTick t).judgeTick t virtNs out

def onTrade (sym : SymbolId) (px1e6 qty1e6 : Int) (sell : Bool) (virtNs : Nat) : FillEngine × List SynthFill :=
  if queueVenue (modelVenueByte sym) then
    { e with queue := e.queue.onPrint sym px1e6 qty1e6 sell virtNs }.drainQueue []
  else (e, [])

def headVisit (symClass : SymbolId → Option InstrumentClass) (virtNs : Nat) (_done : List OpenOrder) (o : OpenOrder)
    (_rest : List OpenOrder) (s : AmmBook × Accounts × List SynthFill) :
    Option OpenOrder × AmmBook × Accounts × List SynthFill :=
  if o.kind ≠ .ammSwap then (some o, s)
  else if expiredAt virtNs o.expiryNs then (none, s)
  else if virtNs < o.tActiveNs then (some o, s)
  else
    match ammPoolIndex o.sym with
    | none => (none, s)
    | some i =>
      match s.1.judge i o.side o.px1e6 o.remaining1e6 with
      | (b, .fill px q) => (none, b, bookFill symClass s.2 o px q ((s.2.1.marks1e6 o.sym).getD px))
      | (b, _) => (none, b, s.2)

def judgeAmmOrders (virtNs : Nat) : FillEngine × List SynthFill :=
  let (left, amm, accounts, out) := visit (headVisit e.symClass virtNs) [] e.open_ (e.amm, e.accounts, [])
  ({ e with open_ := left, amm, accounts }, out)

def onAmmSignal (sym : SymbolId) (payload : Payload) (virtNs wallNs : Nat) : FillEngine × List SynthFill :=
  let (amm, obs) := e.amm.observe sym payload
  let e := { e with amm, lastWallNs := wallNs }
  match obs with
  | .pool index =>
    match amm.mid1e6 index with
    | some mid => ({ e with accounts := e.accounts.mark sym mid }, [])
    | none => (e, [])
  | .head _ => e.judgeAmmOrders virtNs
  | .gap => ({ e with open_ := e.open_.filter fun o => o.kind ≠ .ammSwap }, [])
  | _ => (e, [])

def setMarkFillSym (sym : SymbolId) : FillEngine :=
  { e with markFillSyms := update e.markFillSyms sym true }

def setSymClass (sym : SymbolId) (cls : InstrumentClass) : FillEngine :=
  { e with symClass := update e.symClass sym (some cls) }

/-- After the entries that halt no later. -/
def insertSettle (s : BinarySettle) (q : List BinarySettle) : List BinarySettle :=
  q.takeWhile (fun x => x.haltNs ≤ s.haltNs) ++ s :: q.dropWhile fun x => x.haltNs ≤ s.haltNs

def setBinarySettle (sym : SymbolId) (s : BinarySettle) : FillEngine :=
  { e with binarySettle := put sym (fun q => insertSettle s (q.getD [])) e.binarySettle }.refreshBinaryDue

def setOptExpiry (sym : SymbolId) (expiryNs : Nat) : FillEngine :=
  if expiryNs > 0 then { e with optExpiryNs := update e.optExpiryNs sym (some expiryNs) }.refreshSettleDue else e

def setOptSettle (sym : SymbolId) (value1e6 : Int) : FillEngine :=
  if value1e6 < 0 then e else { e with optSettle1e6 := put sym (fun _ => value1e6) e.optSettle1e6 }.refreshSettleDue

def trackQueueSym (sym : SymbolId) : FillEngine := { e with queue := (e.queue.track sym).1 }

def setQueueParitySim (on : Bool) : FillEngine := { e with queue := { e.queue with paritySim := on } }

def setPaperDeltaLaw (on : Bool) : FillEngine := { e with deltaBySymbolVenue := on }

end FillEngine

/-- The calls a replay makes. -/
inductive EngineOp where
  | intake (order : Order) (emitVirt : Nat)
  | intakeDelayed (order : Order) (emitVirt delayNs : Nat)
  | record (tick : Paper.Tick) (virtNs wallNs : Nat)
  | trade (sym : SymbolId) (px1e6 qty1e6 : Int) (sell : Bool) (virtNs : Nat)
  | ammSignal (sym : SymbolId) (payload : Payload) (virtNs wallNs : Nat)
  | setMarkFillSym (sym : SymbolId)
  | setSymClass (sym : SymbolId) (cls : InstrumentClass)
  | setBinarySettle (sym : SymbolId) (s : BinarySettle)
  | setOptExpiry (sym : SymbolId) (expiryNs : Nat)
  | setOptSettle (sym : SymbolId) (value1e6 : Int)
  | trackQueueSym (sym : SymbolId)
  | setQueueParitySim (on : Bool)
  | setPaperDeltaLaw (on : Bool)
  | finish

def FillEngine.call (e : FillEngine) (op : EngineOp) : FillEngine × List SynthFill :=
  if e.panicked then (e, [])
  else
    match op with
    | .intake o emitVirt => (e.intake o emitVirt, [])
    | .intakeDelayed o emitVirt delayNs => (e.intakeDelayed o emitVirt delayNs, [])
    | .record t virtNs wallNs => e.onRecord t virtNs wallNs
    | .trade sym px q sell virtNs => e.onTrade sym px q sell virtNs
    | .ammSignal sym payload virtNs wallNs => e.onAmmSignal sym payload virtNs wallNs
    | .setMarkFillSym sym => (e.setMarkFillSym sym, [])
    | .setSymClass sym cls => (e.setSymClass sym cls, [])
    | .setBinarySettle sym s => (e.setBinarySettle sym s, [])
    | .setOptExpiry sym expiryNs => (e.setOptExpiry sym expiryNs, [])
    | .setOptSettle sym value => (e.setOptSettle sym value, [])
    | .trackQueueSym sym => (e.trackQueueSym sym, [])
    | .setQueueParitySim on => (e.setQueueParitySim on, [])
    | .setPaperDeltaLaw on => (e.setPaperDeltaLaw on, [])
    | .finish => (e.finish, [])

def FillEngine.step (e : FillEngine) (op : EngineOp) : FillEngine := (e.call op).1

end TradingEngine.Backtest
