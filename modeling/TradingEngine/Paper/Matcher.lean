import TradingEngine.Paper.AmmBook
import TradingEngine.Paper.Held

/-!
# The paper matcher

The orders a paper boot submits, judged against the records the engine receives.
-/

namespace TradingEngine.Paper
open Base CoreTypes Queue Amm

inductive OrderKind where
  | maker
  | ioc
  | ammSwap
  | other
  deriving DecidableEq, Repr

/-- The part of an order the matcher reads; `postOnly` is its flag bit. -/
structure Order where
  tsNs : Nat
  sym : SymbolId
  side : Side
  kind : OrderKind
  postOnly : Bool
  px : Int
  qty : Int
  clientOid : Nat
  ttlNs : Nat
  venue : Nat
  strategyId : Nat
  deriving DecidableEq, Repr

structure OrderIdentity where
  sym : SymbolId
  venue : Nat
  strategyId : Nat
  side : Side
  kind : OrderKind
  deriving DecidableEq, Repr

def OrderIdentity.of (o : Order) : OrderIdentity := ⟨o.sym, o.venue, o.strategyId, o.side, o.kind⟩

structure CancelReq where
  tsNs : Nat
  clientOid : Nat
  sym : SymbolId
  venue : Nat
  strategyId : Nat
  deriving DecidableEq, Repr

structure ModifyReq where
  prevClientOid : Nat
  order : Order
  deriving DecidableEq, Repr

inductive DispatchError where
  | ambiguousOrder
  | identityMismatch
  | unroutable
  | noSuchOrder
  | queueFull
  deriving DecidableEq, Repr

/-- `uid` numbers the accepted orders; no branch reads it. -/
structure Pending where
  seq : Nat
  tActiveNs : Nat
  expiryNs : Nat
  px1e6 : Int
  remaining1e6 : Int
  clientOid : Nat
  ident : OrderIdentity
  modelVenue : Nat
  uid : Nat
  deriving DecidableEq, Repr

def Pending.modified (p : Pending) (px1e6 qty1e6 : Int) (clientOid tActiveNs : Nat) : Pending :=
  { p with px1e6, remaining1e6 := qty1e6, clientOid, tActiveNs }

inductive Ending where
  | filled
  | canceled
  | expired (nowNs : Nat)
  deriving DecidableEq, Repr

/-- What happens to an order of the open table. -/
inductive Mark where
  | placed (side : Side) (limit asked : Int) (activeNs expiryNs : Nat)
  | modified (limit asked : Int) (activeNs : Nat)
  | filled (side : Side) (nowNs : Nat) (px qty : Int)
  | ended (how : Ending)
  deriving DecidableEq, Repr

/-- The fill ring, and beside it the history of the open table, which no branch reads. -/
structure Tape where
  out : RingBuffer Fill
  log : List (Nat × Mark)

def maxOpenPerSym : Nat := 8
def maxOpenTotal : Nat := 64
def fillOut : Nat := 4 * maxOpenTotal

namespace Tape

variable (t : Tape)

def pushFillOf (sym : SymbolId) (side : Side) (clientOid strategyId : Nat) (px1e6 qty1e6 : Int) (nowNs : Nat) : Tape :=
  if t.out.len ≥ fillOut then t
  else { t with out := t.out.push fillOut ⟨nowNs, sym, side, strategyId, .paper, false, false, px1e6, qty1e6, clientOid⟩ }

def note (uid : Nat) (marks : List Mark) : Tape := { t with log := t.log ++ marks.map fun m => (uid, m) }

def pushFill (o : Pending) (px1e6 qty1e6 : Int) (nowNs : Nat) : Tape :=
  (t.pushFillOf o.ident.sym o.ident.side o.clientOid o.ident.strategyId px1e6 qty1e6 nowNs).note o.uid
    [.filled o.ident.side nowNs px1e6 qty1e6]

end Tape

structure Matcher where
  open_ : List Pending
  tape : Tape
  seq : Nat
  accepted : Nat
  amm : AmmBook
  queue : QueueBook
  held : HeldBook
  pm5HeldDelayNs : Nat

def ms : Nat := 1000000

def activationNs : List Nat :=
  [200 * ms, 130 * ms, 130 * ms, 220 * ms, 340 * ms, 0, 60 * ms, 150 * ms, 1000 * ms, 130 * ms, 0]

def activation (venue : Nat) : Nat := activationNs.getD venue 0

def venueBinance : Nat := 1
def venueHyperliquid : Nat := 4
def venueMexc : Nat := 7

def queueVenue (venue : Nat) : Bool := venue = venueHyperliquid

def judgedByQueue (venue : Nat) (kind : OrderKind) (postOnly : Bool) : Bool := kind = .maker ∧ postOnly ∧ queueVenue venue

def signalOnlySym (sym : SymbolId) : Bool :=
  symbolVenueByte sym = venueBinance ∧ 1025 ≤ (symbolOrdinal sym).val ∧ (symbolOrdinal sym).val < 2048

def heldDelayNsDefault : Nat := 2000000000
def pmHeldDelayNs : Nat := activation venuePolymarket + 150 * ms
def pmjPaperDelayNsDefault : Nat := 2000000000
def pmjShadowDelaysNs : List Nat := [350 * ms, 1000 * ms]

def heldDelayNs (sym : SymbolId) : Nat :=
  if heldPm5Leg sym then pmjPaperDelayNsDefault else if heldPmLeg sym then pmHeldDelayNs else heldDelayNsDefault

def addNs (a b : Nat) : Nat := min (a + b) u64Max

def Matcher.new : Matcher where
  open_ := []
  tape := ⟨⟨fun _ => ⟨0, 0, .bid, 0, .paper, false, false, 0, 0, 0⟩, 0, 0⟩, []⟩
  seq := 0
  accepted := 0
  amm := .new
  queue := .new
  held := .new
  pm5HeldDelayNs := pmjPaperDelayNsDefault

namespace Matcher

/-- The shadow judgements of a five-minute leg, one for each delay. -/
def shadowed (held : HeldBook) (o : HeldOrder) (nowNs : Nat) : HeldBook :=
  (pmjShadowDelaysNs.zipIdx).foldl (fun b d => (b.submitShadow { o with dueNs := addNs nowNs d.1 } d.2).1) held

variable (m : Matcher)

def submitHeld (o : Order) (nowNs : Nat) : Matcher :=
  if o.kind = .ioc ∧ o.px > 0 ∧ o.qty > 0 then
    let delay := if heldPm5Leg o.sym then m.pm5HeldDelayNs else heldDelayNs o.sym
    let h : HeldOrder := ⟨addNs nowNs delay, o.px, o.qty, o.clientOid, o.sym, o.side, o.strategyId, o.venue⟩
    match m.held.submit h with
    | (b, true) => { m with held := if heldPm5Leg o.sym then shadowed b h nowNs else b }
    | (_, false) => m
  else m

def queueExpiry (o : Order) : Nat := if expiryAt o.tsNs o.ttlNs = 0 then never else expiryAt o.tsNs o.ttlNs

def queuePlace (o : Order) (venue nowNs : Nat) : QueuePlace :=
  ⟨o.clientOid, o.sym, o.side, o.strategyId, o.px, o.qty, addNs nowNs (activation venue), queueExpiry o⟩

def submitQueue (o : Order) (venue nowNs : Nat) : Matcher :=
  { m with queue := (m.queue.place (queuePlace o venue nowNs)).1 }

def kindOk (o : Order) : Bool :=
  if symbolVenueByte o.sym = venueHyperEvm then o.kind = .ammSwap ∧ (ammPoolIndex o.sym).isSome
  else o.kind = .maker ∨ o.kind = .ioc

def unroutable (o : Order) : Bool :=
  symbolVenueByte o.sym ≥ activationNs.length ∨ symbolVenueByte o.sym = venueMexc ∨ signalOnlySym o.sym ∨ o.px ≤ 0 ∨
    o.qty ≤ 0 ∨ !kindOk o

def accept (o : Order) (nowNs : Nat) : Matcher :=
  let active := addNs nowNs (activation (symbolVenueByte o.sym))
  let expiry := expiryAt o.tsNs o.ttlNs
  { m with
    open_ := m.open_ ++
      [⟨m.seq, active, expiry, o.px, o.qty, o.clientOid, .of o, symbolVenueByte o.sym, m.accepted⟩]
    seq := (m.seq + 1) % (u64Max + 1)
    accepted := m.accepted + 1
    tape := m.tape.note m.accepted [.placed o.side o.px o.qty active expiry] }

def submit (o : Order) (nowNs : Nat) : Matcher :=
  if symbolVenueByte o.sym = venueHypercall ∨ heldPmLeg o.sym then m.submitHeld o nowNs
  else if unroutable o then m
  else if judgedByQueue (symbolVenueByte o.sym) o.kind o.postOnly then m.submitQueue o (symbolVenueByte o.sym) nowNs
  else if (m.open_.filter fun p => p.ident.sym = o.sym).length ≥ maxOpenPerSym ∨ m.open_.length ≥ maxOpenTotal then m
  else m.accept o nowNs

inductive Resting where
  | one (i : Nat)
  | none
  | many
  deriving DecidableEq, Repr

def findFrom (clientOid strategyId : Nat) : List Pending → Nat → Resting → Resting
  | [], _, found => found
  | p :: rest, i, found =>
    if p.clientOid = clientOid ∧ p.ident.strategyId = strategyId then
      match found with
      | .none => findFrom clientOid strategyId rest (i + 1) (.one i)
      | _ => .many
    else findFrom clientOid strategyId rest (i + 1) found

def findResting (clientOid strategyId : Nat) : Resting := findFrom clientOid strategyId m.open_ 0 .none

def cancelQueue (r : CancelReq) : Matcher × Except DispatchError Unit :=
  match Queue.find m.queue.orders r.clientOid r.strategyId with
  | .error .ambiguous => (m, .error .ambiguousOrder)
  | .error _ => (m, .error .noSuchOrder)
  | .ok i =>
    match m.queue.orders[i]? with
    | none => (m, .error .noSuchOrder)
    | some h =>
      if h.order.sym ≠ r.sym ∨ symbolVenueByte h.order.sym ≠ r.venue then (m, .error .identityMismatch)
      else
        match m.queue.cancel r.clientOid r.strategyId (addNs r.tsNs (activation (symbolVenueByte h.order.sym))) with
        | (q, .ok ()) => ({ m with queue := q }, .ok ())
        | (q, .error _) => ({ m with queue := q }, .error .noSuchOrder)

def cancel (r : CancelReq) : Matcher × Except DispatchError Unit :=
  match m.findResting r.clientOid r.strategyId with
  | .none => m.cancelQueue r
  | .many => (m, .error .ambiguousOrder)
  | .one i =>
    match m.open_[i]? with
    | none => (m, .error .noSuchOrder)
    | some p =>
      if p.ident.sym ≠ r.sym ∨ p.ident.venue ≠ r.venue then (m, .error .identityMismatch)
      else ({ m with open_ := m.open_.eraseIdx i, tape := m.tape.note p.uid [.ended .canceled] }, .ok ())

def modifyQueue (r : ModifyReq) (nowNs : Nat) : Matcher × Except DispatchError Unit :=
  let new := r.order
  let venue := symbolVenueByte new.sym
  match Queue.find m.queue.orders r.prevClientOid new.strategyId with
  | .error .ambiguous => (m, .error .ambiguousOrder)
  | .error _ => (m, .error .noSuchOrder)
  | .ok i =>
    match m.queue.orders[i]? with
    | none => (m, .error .noSuchOrder)
    | some h =>
      if judgedByQueue venue new.kind new.postOnly = false ∨ h.order.sym ≠ new.sym ∨ h.order.side ≠ new.side then
        (m, .error .identityMismatch)
      else if new.px ≤ 0 ∨ new.qty ≤ 0 then (m, .error .unroutable)
      else
        match m.queue.modify r.prevClientOid (queuePlace new venue nowNs) with
        | (q, .ok ()) => ({ m with queue := q }, .ok ())
        | (q, .error _) => ({ m with queue := q }, .error .queueFull)

def modify (r : ModifyReq) (nowNs : Nat) : Matcher × Except DispatchError Unit :=
  match m.findResting r.prevClientOid r.order.strategyId with
  | .none => m.modifyQueue r nowNs
  | .many => (m, .error .ambiguousOrder)
  | .one i =>
    match m.open_[i]? with
    | none => (m, .error .noSuchOrder)
    | some p =>
      if p.ident ≠ .of r.order then (m, .error .identityMismatch)
      else if r.order.px ≤ 0 ∨ r.order.qty ≤ 0 then (m, .error .unroutable)
      else
        let next := p.modified r.order.px r.order.qty r.order.clientOid (addNs nowNs (activation p.modelVenue))
        ({ m with
            open_ := m.open_.set i next
            tape := m.tape.note p.uid [.modified next.px1e6 next.remaining1e6 next.tActiveNs] }, .ok ())

def judgeHeld (stampNs nowNs : Nat) : Matcher :=
  let held := (m.held.judgeShadows stampNs).1
  if held.pending.length = 0 then { m with held }
  else
    let (after, due) := held.judgeDue stampNs
    { m with
      held := after
      tape := due.foldl (fun t j =>
        match j.2 with
        | .fill px q => t.pushFillOf j.1.sym j.1.side j.1.clientOid j.1.strategyId px q nowNs
        | _ => t) m.tape }

def dueHeld (stampNs nowNs : Nat) : Matcher :=
  if m.held.pending.length > 0 ∨ m.held.shadow.length > 0 then m.judgeHeld stampNs nowNs else m

def drainQueue : Matcher :=
  let (q, events) := m.queue.drain
  { m with
    queue := q
    tape := events.foldl (fun t e =>
      if e.event.kind = .fill then
        t.pushFillOf e.event.sym e.event.side e.event.clientOid e.event.slot e.event.px1e6 e.event.qty1e6 e.event.tNs
      else t) m.tape }

def queueTick (t : Tick) (nowNs : Nat) : Matcher :=
  if queueVenue (symbolVenueByte t.sym) then
    let touch := if isFillEvidence t then t.touch else ⟨0, 0, 0, 0⟩
    { m with queue := m.queue.onBook t.sym touch nowNs }.drainQueue
  else m

def expireVisit (sym : SymbolId) (nowNs : Nat) (_done : List Pending) (o : Pending) (_rest : List Pending) (t : Tape) :
    Option Pending × Tape :=
  if o.ident.sym = sym ∧ expiredAt nowNs o.expiryNs then (none, t.note o.uid [.ended (.expired nowNs)]) else (some o, t)

def gone (left : Int) : Ending := if left = 0 then .filled else .canceled

/-- One active order of the symbol against what the tick still displays. -/
def fillVisit (sym : SymbolId) (nowNs : Nat) (touch : Touch) (_done : List Pending) (o : Pending) (_rest : List Pending)
    (s : Budget × Tape) : Option Pending × Budget × Tape :=
  if o.ident.sym ≠ sym ∨ nowNs < o.tActiveNs then (some o, s)
  else if o.ident.kind = .ioc then
    match judgeIoc o.ident.side o.px1e6 o.remaining1e6 touch s.1 with
    | (.fill px q, b) => (none, b, (s.2.pushFill o px q nowNs).note o.uid [.ended (gone (o.remaining1e6 - q))])
    | (_, b) => (none, b, s.2.note o.uid [.ended .canceled])
  else
    match judgeMaker o.ident.side o.px1e6 o.remaining1e6 touch s.1 with
    | (.fill px q, b) =>
      let remaining := o.remaining1e6 - q
      if remaining > 0 then (some { o with remaining1e6 := remaining }, b, s.2.pushFill o px q nowNs)
      else (none, b, (s.2.pushFill o px q nowNs).note o.uid [.ended (gone remaining)])
    | (_, b) => (some o, b, s.2)

def expire (sym : SymbolId) (nowNs : Nat) : Matcher :=
  let (left, tape) := visit (expireVisit sym nowNs) [] m.open_ m.tape
  { m with open_ := left, tape }

def cross (sym : SymbolId) (touch : Touch) (nowNs : Nat) : Matcher :=
  let (left, _, tape) := visit (fillVisit sym nowNs touch) [] m.open_ (Budget.of touch, m.tape)
  { m with open_ := left, tape }

def observeTick (t : Tick) (nowNs : Nat) : Matcher :=
  let m := m.dueHeld t.tsNs nowNs
  let m := { m with held := m.held.onQuote t }
  let m := m.queueTick t nowNs
  let m := m.expire t.sym nowNs
  if isFillEvidence t then m.cross t.sym t.touch nowNs else m

def gapVisit (_done : List Pending) (o : Pending) (_rest : List Pending) (t : Tape) : Option Pending × Tape :=
  if o.ident.kind = .ammSwap then (none, t.note o.uid [.ended .canceled]) else (some o, t)

def headVisit (nowNs : Nat) (_done : List Pending) (o : Pending) (_rest : List Pending) (s : AmmBook × Tape) :
    Option Pending × AmmBook × Tape :=
  if o.ident.kind ≠ .ammSwap then (some o, s)
  else if expiredAt nowNs o.expiryNs then (none, s.1, s.2.note o.uid [.ended (.expired nowNs)])
  else if nowNs < o.tActiveNs then (some o, s)
  else
    match ammPoolIndex o.ident.sym with
    | none => (none, s.1, s.2.note o.uid [.ended .canceled])
    | some i =>
      match s.1.judge i o.ident.side o.px1e6 o.remaining1e6 with
      | (b, .fill px q) => (none, b, (s.2.pushFill o px q nowNs).note o.uid [.ended (gone (o.remaining1e6 - q))])
      | (b, _) => (none, b, s.2.note o.uid [.ended .canceled])

def judgeAmmOrders (nowNs : Nat) : Matcher :=
  let (left, amm, tape) := visit (headVisit nowNs) [] m.open_ (m.amm, m.tape)
  { m with open_ := left, amm, tape }

def cancelSwaps : Matcher :=
  let (left, tape) := visit gapVisit [] m.open_ m.tape
  { m with open_ := left, tape }

def observeAmm (sym : SymbolId) (payload : Payload) (nowNs : Nat) : Matcher :=
  match m.amm.observe sym payload with
  | (amm, .head _) => { m with amm }.judgeAmmOrders nowNs
  | (amm, .gap) => { m with amm }.cancelSwaps
  | (amm, _) => { m with amm }

def observeDepth (d : DepthTopK) (nowNs : Nat) : Matcher :=
  let m := m.dueHeld d.tsNs nowNs
  { m with held := m.held.onDepth d }

def observeTrade (sym : SymbolId) (px1e6 qty1e6 : Int) (sell : Bool) (nowNs : Nat) : Matcher :=
  if queueVenue (symbolVenueByte sym) then { m with queue := m.queue.onPrint sym px1e6 qty1e6 sell nowNs }.drainQueue
  else m

def trackQueueSym (sym : SymbolId) : Matcher := { m with queue := (m.queue.track sym).1 }

def tryNextFill : Option Fill × Matcher :=
  match m.tape.out.pop fillOut with
  | none => (none, m)
  | some (f, out) => (some f, { m with tape := { m.tape with out } })

end Matcher

end TradingEngine.Paper
