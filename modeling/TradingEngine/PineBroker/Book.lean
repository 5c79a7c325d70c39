import TradingEngine.Base.Run
import TradingEngine.Base.Saturating

/-!
# The broker's book

Open trades oldest first, the closed slices, and the one transition that a fill makes. Money is a 128-bit integer that
saturates.
-/

namespace TradingEngine.PineBroker
open Base

def i128Max : Int := 2 ^ 127 - 1

def i128Min : Int := -2 ^ 127

def e6 : Int := 1000000

def i128Clamp (x : Int) : Int := max i128Min (min x i128Max)

def moneyAdd (a b : Int) : Int := i128Clamp (a + b)

def moneySub (a b : Int) : Int := i128Clamp (a - b)

def moneyNeg (a : Int) : Int := if a = i128Min then i128Min else -a

def satBySign (a b d : Int) : Int :=
  if a = 0 ∨ b = 0 then 0
  else if (decide (a < 0)).xor ((decide (b < 0)).xor (decide (d < 0))) then -i128Max
  else i128Max

def mulDiv (a b d : Int) : Int :=
  let p := a * b
  if p < i128Min ∨ i128Max < p then satBySign a b d
  else if d = 0 ∨ (p = i128Min ∧ d = -1) then satBySign a b d
  else if p.tdiv d = i128Min then -i128Max
  else p.tdiv d

def e12To1e6Floor (v : Int) : Int := i64Clamp (v / e6)

def e12To1e6Ceil (v : Int) : Int := if v = i128Min then i64Min else i64Clamp (-(-v / e6))

def tradePct (v entryPx qty : Int) : Option Int :=
  if entryPx * |qty| = 0 then none else some (i64Clamp (mulDiv v (100 * e6) (entryPx * |qty|)))

abbrev StrKey := Nat

def StrKey.none : StrKey := 0

structure TradeFlags where
  isOpen : Bool
  pnlNet : Bool
  liquidation : Bool
  riskFlatten : Bool
  deriving DecidableEq, Repr

structure TradeRec where
  entryId : StrKey
  exitId : StrKey
  entryMs : Int
  exitMs : Int
  entryPx : Int
  exitPx : Int
  qty : Int
  entryBar : Nat
  exitBar : Nat
  pnl : Int
  fee : Int
  maxRunup : Int
  maxDrawdown : Int
  flags : TradeFlags
  entrySym : Nat
  exitSym : Nat
  deriving DecidableEq, Repr

structure LotFlags where
  pyramid : Bool
  priceBased : Bool
  boot : Bool
  deriving DecidableEq, Repr

/-- An open trade with the facts the sizing rules and the exits read. -/
structure Lot extends TradeRec where
  bornBar : Nat
  bornEval : Nat
  openSeq : Nat
  lotFlags : LotFlags
  deriving DecidableEq, Repr

structure FillSrc where
  id : StrKey
  sym : Nat
  namedEntry : StrKey
  bornBar : Nat
  bornEval : Nat
  isEntry : Bool
  lotFlags : LotFlags
  deriving DecidableEq, Repr

inductive Cause where
  | none
  | liquidation
  | riskFlatten
  deriving DecidableEq, Repr

inductive BrokerFault where
  | lotTableFull
  | bookDesync
  | lotUnderflow
  deriving DecidableEq, Repr

def lotsCap : Nat := 128

def counterSize : Nat := 2 ^ 32

/-- `gross_1e12`: the value of a price move on `n` contracts. -/
def gross (sign px entryPx n pv : Int) : Int := sign * mulDiv (mulDiv (px - entryPx) n 1) pv e6

def openProfit (t : TradeRec) (px pv : Int) : Int := moneySub (gross t.qty.sign px t.entryPx |t.qty| pv) t.fee

def excursionAt (t : TradeRec) (px pv : Int) : Int × Int :=
  (max t.maxRunup (e12To1e6Floor (max (openProfit t px pv) 0)),
    max t.maxDrawdown (e12To1e6Ceil (max (moneyNeg (openProfit t px pv)) 0)))

def shareOf (v n lq : Int) : Int := i64Clamp (mulDiv v n lq)

/-- `closed` keeps every closed slice with the net profit after it, oldest first; the ring of the source
drops all but the last 9000. `exact` is a ghost: it falls when a money operation saturates. -/
structure Book where
  lots : List Lot
  nextOpenSeq : Nat
  pv : Int
  closeAny : Bool
  position : Int
  avgPx : Int
  markPx : Int
  initial : Int
  netprofit : Int
  grossprofit : Int
  grossloss : Int
  commission : Int
  openprofit : Int
  peakEquity : Int
  troughEquity : Int
  maxDrawdown : Int
  maxRunup : Int
  maxRuPct : Int
  sumTradePct : Int
  sumWinPct : Int
  sumLossPct : Int
  maxHeldAll : Int
  maxHeldLong : Int
  maxHeldShort : Int
  closedtrades : Nat
  wintrades : Nat
  losstrades : Nat
  eventrades : Nat
  fills : Nat
  closed : List (TradeRec × Int)
  exact : Bool
  deriving DecidableEq, Repr

namespace Book

def new (capital pv : Int) (closeAny : Bool) : Book where
  lots := []
  nextOpenSeq := 0
  pv := pv
  closeAny := closeAny
  position := 0
  avgPx := 0
  markPx := 0
  initial := capital * e6
  netprofit := 0
  grossprofit := 0
  grossloss := 0
  commission := 0
  openprofit := 0
  peakEquity := capital * e6
  troughEquity := capital * e6
  maxDrawdown := 0
  maxRunup := 0
  maxRuPct := 0
  sumTradePct := 0
  sumWinPct := 0
  sumLossPct := 0
  maxHeldAll := 0
  maxHeldLong := 0
  maxHeldShort := 0
  closedtrades := 0
  wintrades := 0
  losstrades := 0
  eventrades := 0
  fills := 0
  closed := []
  exact := true

variable (b : Book)

def openAbsSum : Int := (b.lots.map fun l => |l.qty|).sum

def openFees : Int := b.lots.foldl (fun s l => moneyAdd s l.fee) 0

def nextToClose (named : StrKey) : Nat :=
  if b.closeAny ∧ named ≠ StrKey.none then
    match b.lots.findIdx? fun l => l.entryId = named with
    | some i => i
    | none => 0
  else 0

def equity : Int := moneyAdd (moneyAdd b.initial b.netprofit) b.openprofit

def rollRunupPct (best ru entryPx qty : Int) : Int :=
  if ru ≠ 0 then
    match tradePct (ru * e6) entryPx qty with
    | some p => max best p
    | none => best
  else best

def weightedEntry : Int :=
  let num := b.lots.foldl (fun s l => moneyAdd s (mulDiv |l.qty| l.entryPx 1)) 0
  let den := b.openAbsSum
  if den = 0 then 0 else i64Clamp (num.tdiv den)

/-- A trade re-priced, and sampled for its excursion unless a fill just opened it. -/
def markLot (pv px : Int) (sampled : Bool) (l : Lot) : Lot :=
  let o := openProfit l.toTradeRec px pv
  if sampled then
    { l with
      pnl := o
      maxRunup := max l.maxRunup (e12To1e6Floor (max o 0))
      maxDrawdown := max l.maxDrawdown (e12To1e6Ceil (max (moneyNeg o) 0)) }
  else { l with pnl := o }

def grossExact (sign px entryPx n pv : Int) : Bool :=
  gross sign px entryPx n pv = sign * ((px - entryPx) * n * pv).tdiv e6

def markExact (pv px : Int) (l : Lot) : Bool :=
  grossExact l.qty.sign px l.entryPx |l.qty| pv &&
    decide (openProfit l.toTradeRec px pv = gross l.qty.sign px l.entryPx |l.qty| pv - l.fee)

/-- The sum of the open profits with the ghost of its own saturation. -/
def sumOpen (pnls : List Int) : Int × Bool :=
  pnls.foldl (fun s p => (moneyAdd s.1 p, s.2 && decide (moneyAdd s.1 p = s.1 + p))) (0, true)

def markSkip (px : Int) (skip : Option Nat) : Book :=
  let lots := b.lots.mapIdx fun i l => markLot b.pv px (skip ≠ some i) l
  let pct := lots.zipIdx.foldl
    (fun best l => if skip ≠ some l.2 then rollRunupPct best l.1.maxRunup l.1.entryPx l.1.qty else best) b.maxRuPct
  let openprofit := sumOpen (lots.map fun l => l.pnl)
  let b := { b with
    lots := lots
    maxRuPct := pct
    markPx := px
    openprofit := openprofit.1
    exact := b.exact && openprofit.2 && b.lots.all (markExact b.pv px) }
  let eq := b.equity
  let peak := max b.peakEquity eq
  let trough := min b.troughEquity eq
  { b with
    peakEquity := peak
    troughEquity := trough
    maxDrawdown := max b.maxDrawdown (moneySub peak eq)
    maxRunup := max b.maxRunup (moneySub eq trough) }

def mark (px : Int) : Book := b.markSkip px none

end Book

structure Fill where
  qty : Int
  px : Int
  fee : Int
  src : FillSrc
  bar : Nat
  timeMs : Int
  cause : Cause
  deriving DecidableEq, Repr

/-- The closing loop's variables: what is left of the fee, of the fill and of its reducing part, and the
entry fees the open trades still carry. -/
structure Closing where
  book : Book
  feeLeft : Int
  qtyLeft : Int
  redLeft : Int
  openFees : Int
  deriving DecidableEq, Repr

namespace Closing

variable (c : Closing)

def taken (l : Lot) : Int := min c.redLeft |l.qty|

def exitShare (f : Fill) (n : Int) : Int :=
  if n = c.qtyLeft then c.feeLeft else mulDiv f.fee n |f.qty|

def entryShare (l : Lot) (n : Int) : Int := if n = |l.qty| then l.fee else mulDiv l.fee n |l.qty|

def slice (f : Fill) (l : Lot) (n : Int) : TradeRec :=
  let excursion := excursionAt l.toTradeRec f.px c.book.pv
  let fee := moneyAdd (entryShare l n) (c.exitShare f n)
  { l.toTradeRec with
    qty := l.qty.sign * n
    fee := fee
    pnl := moneySub (gross l.qty.sign f.px l.entryPx n c.book.pv) fee
    maxRunup := if n = |l.qty| then excursion.1 else shareOf excursion.1 n |l.qty|
    maxDrawdown := if n = |l.qty| then excursion.2 else shareOf excursion.2 n |l.qty|
    flags := ⟨false, true, f.cause = .liquidation, f.cause = .riskFlatten⟩
    exitId := f.src.id
    exitSym := f.src.sym
    exitPx := f.px
    exitMs := f.timeMs
    exitBar := f.bar }

def rest (f : Fill) (l : Lot) (n : Int) : Lot :=
  let excursion := excursionAt l.toTradeRec f.px c.book.pv
  let t := c.slice f l n
  { l with
    fee := l.fee - entryShare l n
    qty := l.qty - t.qty
    maxRunup := excursion.1 - t.maxRunup
    maxDrawdown := excursion.2 - t.maxDrawdown }

def sliceExact (f : Fill) (l : Lot) (n : Int) : Bool :=
  (n = c.qtyLeft || decide (mulDiv f.fee n |f.qty| = (f.fee * n).tdiv |f.qty|)) &&
    (n = |l.qty| || decide (mulDiv l.fee n |l.qty| = (l.fee * n).tdiv |l.qty|)) &&
    Book.grossExact l.qty.sign f.px l.entryPx n c.book.pv &&
    decide ((c.slice f l n).fee = entryShare l n + c.exitShare f n) &&
    decide ((c.slice f l n).pnl = gross l.qty.sign f.px l.entryPx n c.book.pv - (c.slice f l n).fee) &&
    decide (moneyAdd c.book.netprofit (c.slice f l n).pnl = c.book.netprofit + (c.slice f l n).pnl)

def booked (b : Book) (t : TradeRec) (cum : Int) (entryPx : Int) : Book :=
  let pct := (tradePct t.pnl entryPx t.qty).getD 0
  { b with
    closed := b.closed ++ [(t, cum)]
    netprofit := moneyAdd b.netprofit t.pnl
    maxRuPct := Book.rollRunupPct b.maxRuPct t.maxRunup entryPx t.qty
    sumTradePct := satAdd b.sumTradePct pct
    sumWinPct := if 0 < t.pnl then satAdd b.sumWinPct pct else b.sumWinPct
    sumLossPct := if t.pnl < 0 then satAdd b.sumLossPct pct else b.sumLossPct
    grossprofit := if 0 < t.pnl then moneyAdd b.grossprofit t.pnl else b.grossprofit
    grossloss := if t.pnl < 0 then moneySub b.grossloss t.pnl else b.grossloss
    wintrades := if 0 < t.pnl then (b.wintrades + 1) % counterSize else b.wintrades
    losstrades := if t.pnl < 0 then (b.losstrades + 1) % counterSize else b.losstrades
    eventrades := if t.pnl = 0 then (b.eventrades + 1) % counterSize else b.eventrades
    closedtrades := (b.closedtrades + 1) % counterSize }

def close (f : Fill) (c : Closing) (i : Nat) (l : Lot) : Closing :=
  let n := c.taken l
  let t := c.slice f l n
  let openFees := moneySub c.openFees (entryShare l n)
  let left := c.rest f l n
  let b := booked c.book t (moneySub (moneyAdd c.book.netprofit t.pnl) openFees) l.entryPx
  { book := { b with
      lots := if left.qty = 0 then c.book.lots.eraseIdx i else c.book.lots.set i left
      exact := c.book.exact && c.sliceExact f l n }
    feeLeft := c.feeLeft - c.exitShare f n
    qtyLeft := c.qtyLeft - n
    redLeft := c.redLeft - n
    openFees := openFees }

def turn (f : Fill) (c : Closing) : Closing :=
  let i := c.book.nextToClose f.src.namedEntry
  match c.book.lots[i]? with
  | none => c
  | some l => c.close f i l

def loop (f : Fill) : Nat → Closing → Closing
  | 0, c => c
  | fuel + 1, c => if 0 < c.redLeft then loop f fuel (c.turn f) else c

end Closing

namespace Book

variable (b : Book)

def reduced (q : Int) : Int :=
  if b.position ≠ 0 ∧ (decide (0 < q) ≠ decide (0 < b.position)) then min |q| |b.position| else 0

def opened (f : Fill) (qty fee : Int) : Lot where
  entryId := f.src.id
  exitId := StrKey.none
  entryMs := f.timeMs
  exitMs := 0
  entryPx := f.px
  exitPx := 0
  qty := qty
  entryBar := f.bar
  exitBar := u32Max
  pnl := -fee
  fee := fee
  maxRunup := 0
  maxDrawdown := 0
  flags := ⟨true, true, false, false⟩
  entrySym := f.src.sym
  exitSym := 0
  bornBar := f.src.bornBar
  bornEval := f.src.bornEval
  openSeq := b.nextOpenSeq
  lotFlags := f.src.lotFlags

def refusal (f : Fill) : Option BrokerFault :=
  let red := b.reduced f.qty
  let opens := |f.qty| - red
  if b.openAbsSum < red then some .lotUnderflow
  else if 0 < opens ∧ ¬f.src.isEntry then some .bookDesync
  else if 0 < opens ∧ red = 0 ∧ b.lots.length = lotsCap then some .lotTableFull
  else if ¬InI64 (b.position + f.qty) then some .bookDesync
  else if ¬InI64 (f.qty.sign * opens) then some .bookDesync
  else none

def closePart (f : Fill) : Closing :=
  let red := b.reduced f.qty
  Closing.loop f b.lots.length ⟨b, f.fee, |f.qty|, red, if 0 < red then b.openFees else 0⟩

def openPart (c : Closing) (f : Fill) (opens : Int) : Book :=
  if 0 < opens then
    { c.book with
      lots := c.book.lots ++ [c.book.opened f (f.qty.sign * opens) c.feeLeft]
      nextOpenSeq := (c.book.nextOpenSeq + 1) % counterSize }
  else c.book

def settle (f : Fill) (position : Int) : Book :=
  let held := satAbs position
  { b with
    position := position
    avgPx := b.weightedEntry
    commission := moneyAdd b.commission f.fee
    fills := (b.fills + 1) % counterSize
    maxHeldAll := max b.maxHeldAll held
    maxHeldLong := if 0 < position then max b.maxHeldLong held else b.maxHeldLong
    maxHeldShort := if position < 0 then max b.maxHeldShort held else b.maxHeldShort }

def applyFill (f : Fill) : Except BrokerFault Unit × Book :=
  if f.qty = 0 then (.ok (), b)
  else
    match b.refusal f with
    | some e => (.error e, b)
    | none =>
      let opens := |f.qty| - b.reduced f.qty
      let b' := (openPart (b.closePart f) f opens).settle f (b.position + f.qty)
      (.ok (), b'.markSkip f.px (if 0 < opens then some (b'.lots.length - 1) else none))

end Book

end TradingEngine.PineBroker
