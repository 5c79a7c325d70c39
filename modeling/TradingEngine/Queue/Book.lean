import TradingEngine.Base.Ring
import TradingEngine.Base.Visit
import TradingEngine.Core.Types

/-!
# The queue law

A post-only paper order in a price-time queue.
-/

namespace TradingEngine.Queue

open Base CoreTypes

def queueMaxOrders : Nat := 32

def queueMaxSyms : Nat := 8

def queueOutCap : Nat := 3 * queueMaxOrders

/-- Behind the touch, or no touch seen yet. -/
def aheadUnknown : Int := -1

def never : Nat := u64Max

structure Tick where
  bidPx : Int
  askPx : Int
  bidQty : Int
  askQty : Int
  deriving DecidableEq, Repr

structure Touch where
  bid1e6 : Int
  ask1e6 : Int
  bidQty1e6 : Int
  askQty1e6 : Int
  deriving DecidableEq, Repr

namespace Touch

def of (tick : Tick) : Touch :=
  ⟨tick.bidPx, tick.askPx, if tick.bidQty > 0 then tick.bidQty else 0, if tick.askQty > 0 then tick.askQty else 0⟩

variable (touch : Touch)

def twoSided : Bool := touch.bid1e6 > 0 ∧ touch.ask1e6 > 0

def px : Side → Int
  | .bid => touch.bid1e6
  | .ask => touch.ask1e6

def qty : Side → Int
  | .bid => touch.bidQty1e6
  | .ask => touch.askQty1e6

end Touch

inductive OrderState where
  | pending
  | resting
  deriving DecidableEq, Repr

inductive EventReason where
  | none
  | cancelRequested
  | replaced
  | expired
  | badAloPx
  | other
  deriving DecidableEq, Repr

inductive EventKind where
  | fill
  | resting
  | rejected
  | filled
  | canceled
  deriving DecidableEq, Repr

structure QueueOrder where
  clientOid : Nat
  px1e6 : Int
  remaining1e6 : Int
  ahead1e6 : Int
  readyNs : Nat
  cancelNs : Nat
  sym : SymbolId
  side : Side
  slot : Nat
  state : OrderState
  cancelReason : EventReason
  expiryNs : Nat
  deriving DecidableEq, Repr

structure QueuePlace where
  clientOid : Nat
  sym : SymbolId
  side : Side
  slot : Nat
  px1e6 : Int
  qty1e6 : Int
  readyNs : Nat
  expiryNs : Nat
  deriving DecidableEq, Repr

inductive QueueRefusal where
  | invalid
  | full
  | symsFull
  | noSuchOrder
  | ambiguous
  deriving DecidableEq, Repr

structure QueueEvent where
  tNs : Nat
  clientOid : Nat
  px1e6 : Int
  qty1e6 : Int
  sym : SymbolId
  side : Side
  slot : Nat
  kind : EventKind
  reason : EventReason
  deriving DecidableEq, Repr

/-- One index of the two parallel tables: the order and the id it replaces. `uid` numbers the accepted
orders; no branch reads it. -/
structure Held where
  order : QueueOrder
  link : Nat
  uid : Nat
  deriving DecidableEq, Repr

/-- An event and the number of its order. -/
structure Told where
  event : QueueEvent
  uid : Nat
  deriving DecidableEq, Repr

structure QueueCounters where
  placed : Nat
  refused : Nat
  rested : Nat
  rejectedAlo : Nat
  droppedTouch : Nat
  canceled : Nat
  fills : Nat
  filled : Nat
  outOverflow : Nat
  staleModify : Nat
  deriving DecidableEq, Repr

def QueueCounters.zero : QueueCounters := ⟨0, 0, 0, 0, 0, 0, 0, 0, 0, 0⟩

def wrapping (n : Nat) : Nat := (n + 1) % u64Size

structure SymTouch where
  sym : SymbolId
  known : Bool
  touch : Touch
  deriving DecidableEq, Repr

/-- The event ring and the counters. -/
structure Outbox where
  ring : RingBuffer Told
  counters : QueueCounters

def Held.tells (h : Held) (tNs : Nat) (kind : EventKind) (reason : EventReason) (qty1e6 : Int) : Told :=
  ⟨⟨tNs, h.order.clientOid, h.order.px1e6, qty1e6, h.order.sym, h.order.side, h.order.slot, kind, reason⟩, h.uid⟩

namespace Outbox

variable (out : Outbox)

def emit (tNs : Nat) (h : Held) (kind : EventKind) (reason : EventReason) (qty1e6 : Int) : Outbox :=
  if out.ring.len ≥ queueOutCap then
    { out with counters := { out.counters with outOverflow := wrapping out.counters.outOverflow } }
  else { out with ring := out.ring.push queueOutCap (h.tells tNs kind reason qty1e6) }

def count (f : QueueCounters → QueueCounters) : Outbox := { out with counters := f out.counters }

end Outbox

def Held.named (clientOid slot : Nat) (h : Held) : Bool := h.order.clientOid = clientOid ∧ h.order.slot = slot

def findFrom (clientOid slot : Nat) : List Held → Nat → Option Nat → Except QueueRefusal Nat
  | [], _, none => .error .noSuchOrder
  | [], _, some i => .ok i
  | h :: rest, i, found =>
    if h.named clientOid slot then
      if found.isSome then .error .ambiguous else findFrom clientOid slot rest (i + 1) (some i)
    else findFrom clientOid slot rest (i + 1) found

def find (orders : List Held) (clientOid slot : Nat) : Except QueueRefusal Nat := findFrom clientOid slot orders 0 none

def Held.cancelBy (h : Held) (effectiveNs : Nat) (reason : EventReason) : Held :=
  if effectiveNs < h.order.cancelNs then
    { h with order := { h.order with cancelNs := effectiveNs, cancelReason := reason } }
  else h

def QueuePlace.held (p : QueuePlace) (link uid : Nat) : Held :=
  ⟨⟨p.clientOid, p.px1e6, p.qty1e6, aheadUnknown, p.readyNs, p.expiryNs, p.sym, p.side, p.slot, .pending, .expired,
    p.expiryNs⟩, link, uid⟩

structure QueueBook where
  orders : List Held
  syms : List SymTouch
  out : Outbox
  paritySim : Bool
  filed : Nat

namespace QueueBook

def new : QueueBook where
  orders := []
  syms := []
  out := ⟨⟨fun _ => ⟨⟨0, 0, 0, 0, 0, .bid, 0, .resting, .none⟩, 0⟩, 0, 0⟩, .zero⟩
  paritySim := false
  filed := 0

variable (b : QueueBook)

def get (clientOid slot : Nat) : Option Held :=
  match find b.orders clientOid slot with
  | .ok i => b.orders[i]?
  | .error _ => none

def symTouch (sym : SymbolId) : Option SymTouch := b.syms.find? fun s => s.sym = sym

def refuse (why : QueueRefusal) : QueueBook × Except QueueRefusal Unit :=
  ({ b with out := b.out.count fun c => { c with refused := wrapping c.refused } }, .error why)

def track (sym : SymbolId) : QueueBook × Except QueueRefusal Unit :=
  if (b.symTouch sym).isSome then (b, .ok ())
  else if b.syms.length ≥ queueMaxSyms then (b, .error .symsFull)
  else ({ b with syms := b.syms ++ [⟨sym, false, ⟨0, 0, 0, 0⟩⟩] }, .ok ())

/-- A new order at the end of the table, linked to nothing. -/
def append (p : QueuePlace) : QueueBook :=
  { b with
    orders := b.orders ++ [p.held 0 b.filed]
    out := b.out.count fun c => { c with placed := wrapping c.placed }
    filed := b.filed + 1 }

def place (p : QueuePlace) : QueueBook × Except QueueRefusal Unit :=
  if p.px1e6 ≤ 0 ∨ p.qty1e6 ≤ 0 then b.refuse .invalid
  else if b.orders.length ≥ queueMaxOrders then b.refuse .full
  else
    match b.track p.sym with
    | (_, .error why) => b.refuse why
    | (tracked, .ok ()) => (tracked.append p, .ok ())

def schedule (i effectiveNs : Nat) (reason : EventReason) : QueueBook :=
  { b with orders := b.orders.modify i fun h => h.cancelBy effectiveNs reason }

def cancel (clientOid slot effectiveNs : Nat) : QueueBook × Except QueueRefusal Unit :=
  match find b.orders clientOid slot with
  | .error why => (b, .error why)
  | .ok i => (b.schedule i effectiveNs .cancelRequested, .ok ())

def linkLast (prevOid : Nat) : QueueBook :=
  { b with orders := b.orders.modify (b.orders.length - 1) fun h => { h with link := prevOid } }

def modify (prevOid : Nat) (new : QueuePlace) : QueueBook × Except QueueRefusal Unit :=
  if new.px1e6 ≤ 0 ∨ new.qty1e6 ≤ 0 then b.refuse .invalid
  else
    match find b.orders prevOid new.slot with
    | .error why => (b, .error why)
    | .ok i =>
      if b.orders.length ≥ queueMaxOrders then b.refuse .full
      else
        let expiry := (b.orders[i]?).elim never fun h => h.order.expiryNs
        match (b.schedule i new.readyNs .replaced).place { new with expiryNs := expiry } with
        | (b, .error why) => (b, .error why)
        | (b, .ok ()) => (b.linkLast prevOid, .ok ())

end QueueBook

namespace QueueOrder

variable (o : QueueOrder)

def crosses (tb : Touch) : Bool :=
  match o.side with
  | .bid => o.px1e6 ≥ tb.ask1e6
  | .ask => o.px1e6 ≤ tb.bid1e6

def improves (tb : Touch) : Bool :=
  match o.side with
  | .bid => o.px1e6 > tb.bid1e6
  | .ask => o.px1e6 < tb.ask1e6

def joins (known : Bool) (tb : Touch) : Int :=
  if known = false then aheadUnknown
  else if o.px1e6 = tb.px o.side then tb.qty o.side
  else if o.improves tb then 0
  else aheadUnknown

end QueueOrder

def land (sym : SymbolId) (tNs : Nat) (known : Bool) (tb : Touch) (parity : Bool) (done : List Held) (h : Held)
    (rest : List Held) (out : Outbox) : Option Held × Outbox :=
  let o := h.order
  if o.sym ≠ sym ∨ o.state ≠ .pending ∨ o.readyNs > tNs then (some h, out)
  else if h.link ≠ 0 ∧ (find (done ++ h :: rest) h.link o.slot).isOk = false then
    (none, (out.emit tNs h .rejected .other 0).count fun c => { c with staleModify := wrapping c.staleModify })
  else if known ∧ o.crosses tb then
    (none, (out.emit tNs h .rejected .badAloPx 0).count fun c => { c with rejectedAlo := wrapping c.rejectedAlo })
  else if parity ∧ (known = false ∨ o.px1e6 ≠ tb.px o.side) then
    (none, (out.emit tNs h .rejected .other 0).count fun c => { c with droppedTouch := wrapping c.droppedTouch })
  else
    (some { h with order := { o with ahead1e6 := o.joins known tb, state := .resting } },
      (out.emit tNs h .resting .none 0).count fun c => { c with rested := wrapping c.rested })

def lapse (sym : SymbolId) (tNs : Nat) (_ : List Held) (h : Held) (_ : List Held) (out : Outbox) :
    Option Held × Outbox :=
  let o := h.order
  if o.sym = sym ∧ o.state = .resting ∧ o.cancelNs ≤ tNs then
    (none, (out.emit tNs h .canceled o.cancelReason 0).count fun c => { c with canceled := wrapping c.canceled })
  else (some h, out)

/-- An order behind the touch joins its queue when the touch comes to its price. -/
def joinTouch (sym : SymbolId) (tb : Touch) (h : Held) : Held :=
  let o := h.order
  if o.sym = sym ∧ o.state = .resting ∧ o.ahead1e6 = aheadUnknown ∧ o.px1e6 = tb.px o.side then
    { h with order := { o with ahead1e6 := tb.qty o.side } }
  else h

def QueueOrder.through (o : QueueOrder) (px1e6 : Int) : Bool :=
  match o.side with
  | .bid => px1e6 < o.px1e6
  | .ask => px1e6 > o.px1e6

/-- What a print does at one order: the queue ahead after it, what it fills, what is left of it. A
print through the price fills all that remains. Only the two steps that take the queue can wrap. -/
def QueueOrder.meets (o : QueueOrder) (px1e6 left : Int) : Int × Int × Int :=
  if o.through px1e6 then (o.ahead1e6, o.remaining1e6, left)
  else if px1e6 = o.px1e6 ∧ o.ahead1e6 ≠ aheadUnknown then
    let take := if o.ahead1e6 < left then o.ahead1e6 else left
    let behind := i64Wrap (left - take)
    let fill := if o.remaining1e6 < behind then o.remaining1e6 else behind
    (i64Wrap (o.ahead1e6 - take), fill, behind - fill)
  else (o.ahead1e6, 0, left)

def takes (sym : SymbolId) (px1e6 : Int) (hit : Side) (tNs : Nat) (_ : List Held) (h : Held) (_ : List Held)
    (s : Int × Outbox) : Option Held × (Int × Outbox) :=
  let o := h.order
  if o.sym ≠ sym ∨ o.state ≠ .resting ∨ o.side ≠ hit then (some h, s)
  else
    let met := o.meets px1e6 s.1
    let ahead := met.1
    let fill := met.2.1
    let left := met.2.2
    if fill ≤ 0 then (some { h with order := { o with ahead1e6 := ahead } }, (left, s.2))
    else
      let out := (s.2.emit tNs h .fill .none fill).count fun c => { c with fills := wrapping c.fills }
      let rem := o.remaining1e6 - fill
      if rem > 0 then (some { h with order := { o with ahead1e6 := ahead, remaining1e6 := rem } }, (left, out))
      else (none, (left, (out.emit tNs h .filled .none 0).count fun c => { c with filled := wrapping c.filled }))

namespace QueueBook

variable (b : QueueBook)

def advance (sym : SymbolId) (tNs : Nat) : QueueBook :=
  match b.symTouch sym with
  | none => b
  | some s =>
    let landed := visit (land sym tNs s.known s.touch b.paritySim) [] b.orders b.out
    let lapsed := visit (lapse sym tNs) [] landed.1 landed.2
    { b with orders := lapsed.1, out := lapsed.2 }

def advanceOther (recordSym : SymbolId) (tNs : Nat) (b : QueueBook) (s : SymTouch) : QueueBook :=
  if s.sym ≠ recordSym ∧ symbolVenueByte s.sym = symbolVenueByte recordSym then b.advance s.sym tNs else b

def advanceVenue (recordSym : SymbolId) (tNs : Nat) : QueueBook :=
  if b.paritySim ∨ b.orders.length = 0 then b else b.syms.foldl (advanceOther recordSym tNs) b

def learnIn (sym : SymbolId) (touch : Touch) : List SymTouch → List SymTouch
  | [] => []
  | s :: rest =>
    if s.sym = sym then { s with touch := touch, known := true } :: rest else s :: learnIn sym touch rest

def learn (sym : SymbolId) (touch : Touch) : QueueBook :=
  { b with syms := learnIn sym touch b.syms }

def onBook (sym : SymbolId) (touch : Touch) (tNs : Nat) : QueueBook :=
  let b := b.advanceVenue sym tNs
  match b.symTouch sym with
  | none => b
  | some _ =>
    let b := if b.paritySim ∧ touch.twoSided then b.learn sym touch else b
    let b := b.advance sym tNs
    let b := if b.paritySim = false ∧ touch.twoSided then b.learn sym touch else b
    match b.symTouch sym with
    | none => b
    | some s => if s.known = false then b else { b with orders := b.orders.map (joinTouch sym s.touch) }

def onPrint (sym : SymbolId) (px1e6 qty1e6 : Int) (sellAggressor : Bool) (tNs : Nat) : QueueBook :=
  let b := b.advanceVenue sym tNs
  match b.symTouch sym with
  | none => b
  | some _ =>
    let b := b.advance sym tNs
    if px1e6 ≤ 0 ∨ qty1e6 ≤ 0 then b
    else
      let hit := if sellAggressor then Side.bid else Side.ask
      let printed := visit (takes sym px1e6 hit tNs) [] b.orders (qty1e6, b.out)
      { b with orders := printed.1, out := printed.2.2 }

def tryNextEvent : Option (Told × QueueBook) :=
  (b.out.ring.pop queueOutCap).map fun e => (e.1, { b with out := { b.out with ring := e.2 } })

def drain : QueueBook × List Told :=
  let drained := b.out.ring.drain queueOutCap b.out.ring.len
  ({ b with out := { b.out with ring := drained.2 } }, drained.1)

end QueueBook

end TradingEngine.Queue
