import TradingEngine.Base.Trace
import TradingEngine.Router.Halt
import TradingEngine.Router.Probe

/-!
# The routed dispatcher

One order's way through the risk gate, and the halt machine that runs beside it. The live arm is not modelled: what it
answers is an argument.
-/

namespace TradingEngine.Router

open Base CoreTypes

inductive ExecMode where
  | paper
  | live
  | off
  deriving DecidableEq, Repr

structure SlotCaps where
  maxOrderUsd1e6 : Int
  capInstanceUsd1e6 : Int
  capDayUsd1e6 : Int
  maxOpenOrders : Nat
  deriving DecidableEq, Repr

structure PerpLimits where
  capPerpUsd1e6 : Int
  maxRestingUsd1e6 : Int
  deriving DecidableEq, Repr

def PerpLimits.isSet (perp : PerpLimits) : Bool := perp.capPerpUsd1e6 > 0 || perp.maxRestingUsd1e6 > 0

def execVenues : Nat := 16

def venueBinance : Nat := 1

structure ExecRoute where
  modes : Nat → ExecMode
  venueMask : Nat → Nat → Bool
  caps : Nat → SlotCaps
  halts : Nat → HaltLimits
  perp : Nat → PerpLimits

namespace ExecRoute

variable (route : ExecRoute)

def mode (strategyId : Nat) : ExecMode :=
  if strategyId < execSlots then route.modes strategyId else .paper

def modeAt (slot : Nat) : Option ExecMode :=
  if slot ≥ execSlots then none else some (route.modes slot)

def venueAllowed (strategyId venue : Nat) : Bool :=
  strategyId < execSlots && venue < execVenues && route.venueMask strategyId venue

def capsAt (slot : Nat) : Option SlotCaps :=
  if slot ≥ execSlots then none else some (route.caps slot)

def haltsAt (slot : Nat) : Option HaltLimits :=
  if slot ≥ execSlots then none else some (route.halts slot)

def perpAt (slot : Nat) : Option PerpLimits :=
  if slot ≥ execSlots then none else some (route.perp slot)

end ExecRoute

inductive RiskRefusal where
  | maxOrder
  | capInstance
  | capDay
  | openOrders
  | unseeded
  | halted
  | short
  | unpriced
  | capPerp
  | maxResting
  | foreignRow
  | held
  deriving DecidableEq, Repr

structure RouteCounters where
  liveSubmits : Nat
  paperSubmits : Nat
  refusedOff : Nat
  refusedNoRoute : Nat
  refusedRisk : Nat
  refusedFor : RiskRefusal → Nat
  liveSubmitsBySlot : Nat → Nat
  refusedBySlot : Nat → Nat

namespace RouteCounters

def new : RouteCounters := ⟨0, 0, 0, 0, 0, fun _ => 0, fun _ => 0, fun _ => 0⟩

def bumpSlot (counts : Nat → Nat) (strategyId : Nat) : Nat → Nat :=
  Function.update counts (strategyId % execSlots) (bump u64Max (counts (strategyId % execSlots)))

variable (c : RouteCounters)

def onLiveSubmit (strategyId : Nat) : RouteCounters :=
  { c with
    liveSubmits := bump u64Max c.liveSubmits
    liveSubmitsBySlot := bumpSlot c.liveSubmitsBySlot strategyId }

def onPaperSubmit : RouteCounters := { c with paperSubmits := bump u64Max c.paperSubmits }

def onRefusedOff (strategyId : Nat) : RouteCounters :=
  { c with
    refusedOff := bump u64Max c.refusedOff
    refusedBySlot := bumpSlot c.refusedBySlot strategyId }

def onRefusedNoRoute (strategyId : Nat) : RouteCounters :=
  { c with
    refusedNoRoute := bump u64Max c.refusedNoRoute
    refusedBySlot := bumpSlot c.refusedBySlot strategyId }

def onRefusedRisk (strategyId : Nat) (why : RiskRefusal) : RouteCounters :=
  { c with
    refusedRisk := bump u64Max c.refusedRisk
    refusedFor := Function.update c.refusedFor why (bump u64Max (c.refusedFor why))
    refusedBySlot := bumpSlot c.refusedBySlot strategyId }

end RouteCounters

inductive RiskVerb where
  | place
  | replace (prevClientOid : Nat)
  deriving DecidableEq, Repr

def RiskVerb.replaced : RiskVerb → Option Nat
  | .place => none
  | .replace prev => some prev

namespace Ledger

variable (l : Ledger)

def judgeInstrument (order : Order) (verb : RiskVerb) (caps : SlotCaps) (perp : PerpLimits)
    (p : InstProbe) : Ledger × Option RiskRefusal :=
  let slot := order.strategyId
  match p.refusal with
  | .short => (l, some .short)
  | .unpriced => (l, some .unpriced)
  | .foreign => (l, some .foreignRow)
  | .none =>
    if verb = .place ∧ l.slotResting slot ≥ caps.maxOpenOrders then (l, some .openOrders)
    else if p.exit then (l, none)
    else if perp.isSet ∧ l.unmarkedPositions slot > 0 then (l, some .unpriced)
    else if p.measure1e6 > caps.maxOrderUsd1e6 then (l, some .maxOrder)
    else if perp.capPerpUsd1e6 > 0 ∧ p.inventoryNext1e6 > perp.capPerpUsd1e6 ∧
        p.inventoryNext1e6 > p.inventoryNow1e6 then (l, some .capPerp)
    else if perp.maxRestingUsd1e6 > 0 ∧ p.restingNext1e6 > perp.maxRestingUsd1e6 ∧
        p.restingNext1e6 > l.restingUsd1e6 slot then (l, some .maxResting)
    else
      let l := l.observeMonoClock order.tsNs
      if p.projected1e6 > caps.capInstanceUsd1e6 ∧ p.projected1e6 > p.current1e6 then (l, some .capInstance)
      else if p.turnoverAdd1e6 > 0 ∧
          satAdd (l.slotDayTurnover1e6 slot) p.turnoverAdd1e6 > caps.capDayUsd1e6 then (l, some .capDay)
      else (l, none)

/-- The clamps of a perp row its slot owns. Only a reduce-only order that opens nothing is exempt
from the first. -/
def judgePerp (order : Order) (verb : RiskVerb) (caps : SlotCaps) : Ledger × Option RiskRefusal :=
  let slot := order.strategyId
  if l.perpOwner order.sym ≠ some slot then (l, some .foreignRow)
  else if order.px ≤ 0 ∨ order.qty ≤ 0 then (l, some .unpriced)
  else
    let opening := l.perpOpening1e6 order.sym order.buy order.qty order.px
    let exit := opening = 0 ∧ order.reduceOnly
    if notional1e6 order.px order.qty > caps.maxOrderUsd1e6 ∧ ¬ exit then (l, some .maxOrder)
    else if verb = .place ∧ l.slotResting slot ≥ caps.maxOpenOrders then (l, some .openOrders)
    else
      let l := l.observeMonoClock order.tsNs
      let projection := l.perpProjection1e6 slot order.sym order.buy order.qty order.px
      let rest := satSub (l.slotExposure1e6 slot) (l.perpExposure1e6 slot)
      let current := satAdd rest projection.1
      let projected := satAdd rest projection.2
      if projected > caps.capInstanceUsd1e6 ∧ projected > current then (l, some .capInstance)
      else if opening > 0 ∧ satAdd (l.slotDayTurnover1e6 slot) opening > caps.capDayUsd1e6 then (l, some .capDay)
      else (l, none)

/-- The clamps of a family leg: the order, the count, the exposure it would leave, the day. A sell
within the holding is exempt from the first two. -/
def judgeFamily (order : Order) (verb : RiskVerb) (caps : SlotCaps) : Ledger × Option RiskRefusal :=
  let slot := order.strategyId
  let notional := notional1e6 order.px order.qty
  let entry := order.buy ∨ order.qty > l.rows.heldOnSym1e6 slot order.sym
  if notional > caps.maxOrderUsd1e6 ∧ entry then (l, some .maxOrder)
  else if verb = .place ∧ l.slotResting slot ≥ caps.maxOpenOrders ∧ entry then (l, some .openOrders)
  else
    let l := l.observeMonoClock order.tsNs
    let current := l.slotExposure1e6 slot
    let projected := l.projectedExposure1e6 slot order.sym order.qty order.buy
    if projected > caps.capInstanceUsd1e6 ∧ projected > current then (l, some .capInstance)
    else if order.buy ∧ satAdd (l.slotDayTurnover1e6 slot) notional > caps.capDayUsd1e6 then (l, some .capDay)
    else (l, none)

def judge (order : Order) (venue : Nat) (verb : RiskVerb) (caps : SlotCaps) (perp : PerpLimits) :
    Ledger × Option RiskRefusal :=
  if l.inst.isPerp order.sym then l.judgePerp order verb caps
  else
    match l.probe order.sym order.strategyId order.qty order.buy order.px verb.replaced perp.isSet with
    | some p => l.judgeInstrument order verb caps perp p
    | none =>
      if venue = venueBinance ∨ perp.isSet then (l, some .unpriced) else l.judgeFamily order verb caps

end Ledger

inductive DispatchError where
  | slotDisabled
  | noLiveRoute
  | riskRefused
  | armRefused
  deriving DecidableEq, Repr

structure RoutedDispatcher where
  route : ExecRoute
  routeVenue : SymbolId → Nat → Nat
  ledger : Ledger
  halt : HaltState
  counters : RouteCounters

namespace RoutedDispatcher

variable (d : RoutedDispatcher)

def verdict (order : Order) (venue : Nat) (verb : RiskVerb) : Ledger × Option RiskRefusal :=
  let slot := order.strategyId
  match d.route.capsAt slot with
  | none => (d.ledger, some .unseeded)
  | some caps =>
    if d.halt.isHalted slot then (d.ledger, some .halted)
    else if d.halt.isHeld slot then (d.ledger, some .held)
    else if d.ledger.isSlotSeeded slot = false then (d.ledger, some .unseeded)
    else d.ledger.judge order venue verb caps ((d.route.perpAt slot).getD ⟨0, 0⟩)

def riskCheck (order : Order) (venue : Nat) (verb : RiskVerb) : RoutedDispatcher × Except DispatchError Unit :=
  match d.verdict order venue verb with
  | (l, none) => ({ d with ledger := l }, .ok ())
  | (l, some why) =>
    ({ d with ledger := l, counters := d.counters.onRefusedRisk order.strategyId why }, .error .riskRefused)

def submit (order : Order) (takes : Bool) : RoutedDispatcher × Except DispatchError Unit :=
  match d.route.mode order.strategyId with
  | .paper =>
    ({ d with counters := d.counters.onPaperSubmit }, if takes then .ok () else .error .armRefused)
  | .off => ({ d with counters := d.counters.onRefusedOff order.strategyId }, .error .slotDisabled)
  | .live =>
    let venue := d.routeVenue order.sym order.venue
    if d.route.venueAllowed order.strategyId venue = false then
      ({ d with counters := d.counters.onRefusedNoRoute order.strategyId }, .error .noLiveRoute)
    else
      match d.riskCheck order venue .place with
      | (d, .error why) => (d, .error why)
      | (d, .ok ()) =>
        let d := { d with counters := d.counters.onLiveSubmit order.strategyId }
        let op : Ledger.Op := .onSubmit order.clientOid order.strategyId order.sym order.qty order.buy order.px
        if takes then ({ d with ledger := d.ledger.step op }, .ok ()) else (d, .error .armRefused)

def modify (prevClientOid : Nat) (order : Order) (takes confirmsLater : Bool) :
    RoutedDispatcher × Except DispatchError Unit :=
  match d.route.mode order.strategyId with
  | .paper => (d, if takes then .ok () else .error .armRefused)
  | .off => ({ d with counters := d.counters.onRefusedOff order.strategyId }, .error .slotDisabled)
  | .live =>
    let venue := d.routeVenue order.sym order.venue
    if d.route.venueAllowed order.strategyId venue = false then
      ({ d with counters := d.counters.onRefusedNoRoute order.strategyId }, .error .noLiveRoute)
    else
      match d.riskCheck order venue (.replace prevClientOid) with
      | (d, .error why) => (d, .error why)
      | (d, .ok ()) =>
        let op : Ledger.Op :=
          if confirmsLater then .onModifyAsked prevClientOid order.clientOid order.strategyId order.qty order.px
          else .onModify prevClientOid order.clientOid order.strategyId order.sym order.qty order.buy order.px
        if takes then ({ d with ledger := d.ledger.step op }, .ok ()) else (d, .error .armRefused)

end RoutedDispatcher

inductive CancelAllState where
  | clear
  | working
  | stranded
  deriving DecidableEq, Repr

/-- What the arm answers in one step of a slot's cancel: its state when polled, whether it takes the
request, its state after. -/
structure ArmAnswers where
  before : CancelAllState
  takes : Bool
  after : CancelAllState
  deriving DecidableEq, Repr

/-- What the halt machine does to the arm, the ledger and the slots, in order. -/
inductive HaltEvent where
  | halted (slot : Nat)
  | held (slot : Nat) (inFlight : Bool)
  | released (slot : Nat)
  | requested (slot : Nat) (taken : Bool)
  | answered (slot : Nat) (state : CancelAllState)
  | restingCleared (slot : Nat)
  deriving DecidableEq, Repr

namespace RoutedDispatcher

variable (d : RoutedDispatcher)

def confirmCancel (slot : Nat) : RoutedDispatcher × List HaltEvent :=
  ({ d with halt := d.halt.cancelCleared slot, ledger := d.ledger.step (.clearRestingSlot slot) },
    [.answered slot .clear, .restingCleared slot])

def cancelSlot (slot : Nat) (arm : ArmAnswers) : RoutedDispatcher × List HaltEvent :=
  if arm.takes = false then ({ d with halt := d.halt.cancelFailed slot }, [.requested slot false])
  else if arm.after = .clear then
    let out := d.confirmCancel slot
    (out.1, .requested slot true :: out.2)
  else (d, [.requested slot true, .answered slot arm.after])

def tryCancelSlot (slot : Nat) (arm : ArmAnswers) : RoutedDispatcher × List HaltEvent :=
  match d.halt.cancelPhase slot with
  | .none => (d, [])
  | .wanted => cancelSlot { d with halt := d.halt.cancelRequested slot } slot arm
  | .retry =>
    if arm.before = .working then (d, [.answered slot .working])
    else
      let out := cancelSlot { d with halt := d.halt.cancelRequested slot } slot arm
      (out.1, .answered slot arm.before :: out.2)
  | .asked =>
    match arm.before with
    | .clear => d.confirmCancel slot
    | .working => (d, [.answered slot .working])
    | .stranded =>
      let out := cancelSlot { d with halt := d.halt.cancelStranded } slot arm
      (out.1, .answered slot .stranded :: out.2)

def tryCancelSlots (arm : Nat → ArmAnswers) : RoutedDispatcher × List HaltEvent :=
  if d.halt.cancelOutstanding = false then (d, [])
  else sweep (fun d slot => d.tryCancelSlot slot (arm slot)) execSlots d

def latchSlot (slot : Nat) (why : HaltReason) : RoutedDispatcher × List HaltEvent :=
  if d.route.modeAt slot ≠ some .live then (d, [])
  else
    let out := d.halt.latch slot why
    ({ d with halt := out.1 }, if out.2 then [.halted slot] else [])

def latchAll (reasons : Nat → HaltReason) : RoutedDispatcher × List HaltEvent :=
  sweep (fun d slot => d.latchSlot slot (reasons slot)) execSlots d

def haltSlot (slot : Nat) (why : HaltReason) (arm : Nat → ArmAnswers) : RoutedDispatcher × List HaltEvent :=
  let latched := d.latchSlot slot why
  if latched.2 = [] then latched
  else
    let out := latched.1.tryCancelSlots arm
    (out.1, latched.2 ++ out.2)

def holdSlot (slot : Nat) (bits : BitVec 8) : RoutedDispatcher × List HaltEvent :=
  let out := d.halt.hold slot bits
  ({ d with halt := out.1 }, if out.2 then [.held slot (d.halt.pendingCancel slot = .asked)] else [])

def releaseSlot (slot : Nat) : RoutedDispatcher × List HaltEvent :=
  let out := d.halt.release slot
  ({ d with halt := out.1 }, if out.2 then [.released slot] else [])

/-- The hold a signal calls for, or the release of one it no longer does. -/
def pollHold (slot : Nat) (sig : HaltSignal) (lim : HaltLimits) : RoutedDispatcher × List HaltEvent :=
  if holdFor sig lim ≠ 0 then d.holdSlot slot (holdFor sig lim)
  else if d.halt.isHeld slot && holdClear sig lim then d.releaseSlot slot
  else (d, [])

/-- A live slot's poll: seeding, the triggers, then the hold. -/
def pollSlot (slot : Nat) (sig : HaltSignal) : RoutedDispatcher × List HaltEvent :=
  if d.route.modeAt slot ≠ some .live then (d, [])
  else
    match d.route.haltsAt slot with
    | none => (d, [])
    | some lim =>
      let seeds := sig.reconciled && !d.ledger.isSlotSeeded slot
      let d := if seeds then { d with ledger := d.ledger.step (.markSlotSeeded slot) } else d
      let latched := d.latchSlot slot (triggerFor sig lim)
      let out := latched.1.pollHold slot sig lim
      (out.1, latched.2 ++ out.2)

/-- The halt machine of one idle poll: every live slot, the operator's file when it was read anew,
then one step of every cancel that is owed. -/
def haltPoll (sig : Nat → HaltSignal) (file : Option (Nat → HaltReason))
    (arm : Nat → ArmAnswers) : RoutedDispatcher × List HaltEvent :=
  let polled := sweep (fun d slot => d.pollSlot slot (sig slot)) execSlots d
  let read := match file with
    | none => (polled.1, [])
    | some reasons => polled.1.latchAll reasons
  let out := read.1.tryCancelSlots arm
  (out.1, polled.2 ++ read.2 ++ out.2)

end RoutedDispatcher

end TradingEngine.Router
