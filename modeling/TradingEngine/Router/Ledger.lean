import TradingEngine.Base.Run
import TradingEngine.Router.Families

/-!
# The risk ledger

Positions, resting orders and day turnover of every execution slot. The router asks it before an order leaves, and
feeds it what the venues report.
-/

namespace TradingEngine.Router

open Base CoreTypes Function

def dayNs : Nat := 86400000000000

/-- The day counters: the epoch they belong to, and the turnover of every slot since it began. -/
structure Day where
  epoch : Nat
  turnover1e6 : Nat → Int
  perpOpen1e6 : Nat → Int
  rollovers : Nat

namespace Day

def new : Day := ⟨0, fun _ => 0, fun _ => 0, 0⟩

variable (d : Day)

def rollDay (wallNs : Nat) : Day :=
  if wallNs = 0 then d
  else
    let epoch := wallNs / dayNs
    if d.epoch = 0 then { d with epoch := epoch }
    else if epoch > d.epoch then ⟨epoch, fun _ => 0, fun _ => 0, bump u64Max d.rollovers⟩
    else d

def adoptVenueDayTurnover (slot day : Nat) (bought : Int) : Day :=
  if slot ≥ execSlots ∨ day = 0 then d
  else if d.epoch ≠ 0 ∧ day < d.epoch then d
  else
    let d := d.rollDay (min (day * dayNs) u64Max)
    if bought > d.turnover1e6 slot then
      { d with turnover1e6 := update d.turnover1e6 slot bought }
    else d

def addTurnover (slot : Nat) (add : Int) : Day :=
  { d with turnover1e6 := update d.turnover1e6 slot (satAdd (d.turnover1e6 slot) add) }

def addPerpOpen (slot : Nat) (add : Int) : Day :=
  { d with perpOpen1e6 := update d.perpOpen1e6 slot (satAdd (d.perpOpen1e6 slot) add) }

end Day

/-- The part of a fill that adds to a position rather than reducing it. -/
def increasing (pos qty : Int) (buy : Bool) : Int :=
  if (pos > 0 ∧ buy = false) ∨ (pos < 0 ∧ buy = true) then
    if qty > satAbs pos then qty - satAbs pos else 0
  else qty

namespace InstrumentRow

variable (r : InstrumentRow)

/-- The position after a fill; a spot sell past zero leaves zero and says so. -/
def nextPos (slot : Nat) (qty : Int) (buy : Bool) : Int × Bool :=
  let next := if buy then satAdd (r.pos1e6 slot) qty else satSub (r.pos1e6 slot) qty
  if r.law = .spot ∧ next < 0 then (0, true) else (next, false)

/-- The turnover of a fill's increasing part, at the fill price or at the contract's dollar unit. -/
def turnoverOf (slot : Nat) (qty : Int) (buy : Bool) (px : Int) : Int :=
  let inc := increasing (r.pos1e6 slot) qty buy
  if r.law = .inverse then mul1e6 inc r.unit1e6 else mul1e6 inc px

end InstrumentRow

def notional1e6 (px qty : Int) : Int :=
  let p := (px * qty).tdiv 1000000
  if InI64 p then p else i64Max

def fillNotional1e6 (fill : Fill) : Int := notional1e6 fill.px fill.qty

structure LedgerCounters where
  fillsBooked : Nat
  fillsUnbound : Nat
  fillsUnattributed : Nat
  bindsRefused : Nat
  settlesUnmatched : Nat
  sellsBelowZero : Nat
  binds : Nat
  instancesCleared : Nat
  deriving DecidableEq, Repr

structure Ledger where
  rows : FamilyRows
  resting : Resting
  day : Day
  anchor : WallAnchor
  seeded : Nat → Bool
  inst : Instruments
  counters : LedgerCounters

namespace Ledger

def new (anchor : WallAnchor) : Ledger where
  rows := fun _ => .free
  resting := .new
  day := .new
  anchor := anchor
  seeded := fun _ => false
  inst := .new
  counters := ⟨0, 0, 0, 0, 0, 0, 0, 0⟩

variable (l : Ledger)

def markSeeded : Ledger := { l with seeded := fun _ => true }

def markSlotSeeded (slot : Nat) : Ledger :=
  if slot < execSlots then { l with seeded := update l.seeded slot true } else l

def isSlotSeeded (slot : Nat) : Bool := slot < execSlots ∧ l.seeded slot

def slotExposure1e6 (slot : Nat) : Int :=
  if slot ≥ execSlots then 0 else satAdd (l.rows.familyExposure1e6 slot) (l.inst.exposure1e6 slot)

def projectedExposure1e6 (slot : Nat) (sym : SymbolId) (qty : Int) (buy : Bool) : Int :=
  if slot ≥ execSlots then 0
  else satAdd (l.rows.projectedFamily1e6 slot sym qty buy) (l.inst.exposure1e6 slot)

def slotDayTurnover1e6 (slot : Nat) : Int :=
  if slot ≥ execSlots then 0 else l.day.turnover1e6 slot

def slotResting (slot : Nat) : Nat := if slot ≥ execSlots then 0 else l.resting.bySlot slot

def adoptVenueDayTurnover (slot day : Nat) (bought : Int) : Ledger :=
  { l with day := l.day.adoptVenueDayTurnover slot day bought }

def observeMonoClock (monoNs : Nat) : Ledger :=
  if monoNs = 0 then l else { l with day := l.day.rollDay (l.anchor.wallOf monoNs) }

def refuseRoll : Ledger :=
  { l with counters := { l.counters with bindsRefused := bump u64Max l.counters.bindsRefused } }

/-- The next instance takes the row over: flat, unsettled, with nothing resting on the old legs. -/
def retireRow (i outcome : Nat) (yes no : SymbolId) : Ledger :=
  let r := l.rows i
  { l with
    resting := l.resting.dropRestingOn r.symYes r.symNo
    rows := update l.rows i
      { r with
        symYes := yes
        symNo := no
        outcome := outcome
        settled := false
        posYes1e6 := fun _ => 0
        posNo1e6 := fun _ => 0 }
    counters := { l.counters with
      instancesCleared := bump u64Max l.counters.instancesCleared
      binds := bump u64Max l.counters.binds } }

/-- A new instance: flat and unsettled, its NO leg next to its YES leg. -/
def instanceRow (venue family outcome : Nat) (yes : SymbolId) : FamilyRow :=
  ⟨yes, yes + 1, outcome, family, venue, false, fun _ => 0, fun _ => 0⟩

def bind (venue family outcome : Nat) (yes : SymbolId) : Ledger :=
  if outcome = 0 ∨ yes = symbolIdNone ∨ family ≥ ledgerRows then l.refuseRoll
  else if symbolOrdinal yes ≥ symbolOrdinalMask then l.refuseRoll
  else
    match l.rows.familyRow venue family with
    | some i =>
      if (l.rows i).outcome = outcome ∧ (l.rows i).settled = false then l
      else l.retireRow i outcome yes (yes + 1)
    | none =>
      match l.rows.freeRow with
      | none => l.refuseRoll
      | some i =>
        { l with
          rows := update l.rows i (instanceRow venue family outcome yes)
          counters := { l.counters with binds := bump u64Max l.counters.binds } }

def settleUnmatched : Ledger :=
  { l with counters := { l.counters with settlesUnmatched := bump u64Max l.counters.settlesUnmatched } }

def settle (venue _family outcome : Nat) : Ledger :=
  if outcome = 0 then l.settleUnmatched
  else
    match l.rows.outcomeRow venue outcome with
    | none => l.settleUnmatched
    | some i =>
      let r := l.rows i
      if r.settled then l
      else
        { l with
          resting := l.resting.dropRestingOn r.symYes r.symNo
          rows := update l.rows i { r with settled := true }
          counters := { l.counters with instancesCleared := bump u64Max l.counters.instancesCleared } }

def bookInstrumentFill (i : Nat) (fill : Fill) (slot : Nat) : Ledger :=
  let r := l.inst.rows i
  if fill.settlement then
    { l with
      inst := (l.inst.setRow i { r with pos1e6 := update r.pos1e6 slot 0 }).refreshInstrument i
      counters := { l.counters with fillsBooked := bump u64Max l.counters.fillsBooked } }
  else
    let next := r.nextPos slot fill.qty fill.buy
    let add := if fill.adopted then 0 else r.turnoverOf slot fill.qty fill.buy fill.px
    let day := l.day.addTurnover slot add
    { l with
      inst := (l.inst.setRow i
        { r with
          pos1e6 := update r.pos1e6 slot next.1
          lastPx1e6 := if fill.px > 0 then fill.px else r.lastPx1e6 }).refreshInstrument i
      day := if r.has instPerp then day.addPerpOpen slot add else day
      counters := { l.counters with
        sellsBelowZero :=
          if next.2 then bump u64Max l.counters.sellsBelowZero else l.counters.sellsBelowZero
        fillsBooked := bump u64Max l.counters.fillsBooked }
      resting := if fill.adopted then l.resting else l.resting.consumeResting fill.orderId slot fill.qty }

/-- Book a fill of a family leg. A buy counts its notional, unless its row has settled or the
position was adopted at boot. -/
def bookFamilyFill (fill : Fill) (slot : Nat) : Ledger :=
  let booked := l.rows.bookLeg slot fill.sym fill.qty fill.buy
  let belowZero := booked.2.any (·.belowZero)
  let onSettledRow := booked.2.any (·.onSettledRow)
  { l with
    rows := booked.1
    day :=
      if fill.buy && !onSettledRow && !fill.adopted then l.day.addTurnover slot (fillNotional1e6 fill) else l.day
    counters := { l.counters with
      fillsUnbound := if booked.2.isNone then bump u64Max l.counters.fillsUnbound else l.counters.fillsUnbound
      sellsBelowZero :=
        if belowZero then bump u64Max l.counters.sellsBelowZero else l.counters.sellsBelowZero
      fillsBooked := bump u64Max l.counters.fillsBooked }
    resting := if fill.adopted then l.resting else l.resting.consumeResting fill.orderId slot fill.qty }

def bookFill (fill : Fill) : Ledger :=
  if fill.origin ≠ .venue then l
  else
    let l := { l with day := l.day.rollDay fill.tsNs }
    if fill.strategyId ≥ execSlots then
      { l with counters := { l.counters with fillsUnattributed := bump u64Max l.counters.fillsUnattributed } }
    else
      match l.inst.instFind fill.sym with
      | some i => l.bookInstrumentFill i fill fill.strategyId
      | none => l.bookFamilyFill fill fill.strategyId

def bindInstrument (spec : InstrumentSpec) : Ledger × Except InstrumentBindErr Unit :=
  let out := l.inst.bindInstrument spec
  ({ l with inst := out.1 }, out.2)

def bindPerp (sym : SymbolId) (slot : Nat) : Ledger × Except LedgerError Unit :=
  let out := l.inst.bindPerp sym slot
  ({ l with inst := out.1 }, out.2)

def seedRow (i : Nat) (pos avgPx dayOpen : Int) : Ledger :=
  let r := l.inst.rows i
  { l with
    inst := (l.inst.setRow i
      { r with
        flags := r.flags ||| instSeeded
        pos1e6 := update r.pos1e6 r.owner pos
        lastPx1e6 := if avgPx > 0 then avgPx else r.lastPx1e6 }).refreshInstrument i
    day := (l.day.addTurnover r.owner dayOpen).addPerpOpen r.owner dayOpen }

def seedPerp (sym : SymbolId) (pos avgPx dayOpen : Int) : Ledger × Except LedgerError Unit :=
  match l.inst.perpFind sym with
  | none => (l, .error .notPerp)
  | some i =>
    if (l.inst.rows i).has instSeeded then (l, .error .seededTwice)
    else if dayOpen < 0 ∨ pos = i64Min ∨ (pos ≠ 0 ∧ avgPx ≤ 0) then (l, .error .badSeed)
    else if (l.inst.rows i).owner ≥ execSlots then (l, .error .notPerp)
    else (l.seedRow i pos avgPx dayOpen, .ok ())

/-- Every entry point that changes the ledger. -/
inductive Op where
  | onSubmit (clientOid slot : Nat) (sym : SymbolId) (qty : Int) (buy : Bool) (px : Int)
  | onCancel (clientOid slot : Nat)
  | onRetired (clientOid slot : Nat)
  | onModify (prevClientOid clientOid slot : Nat) (sym : SymbolId) (qty : Int) (buy : Bool) (px : Int)
  | onModifyAsked (prevClientOid clientOid slot : Nat) (qty px : Int)
  | clearRestingSlot (slot : Nat)
  | bookFill (fill : Fill)
  | bind (venue family outcome : Nat) (yes : SymbolId)
  | settle (venue family outcome : Nat)
  | refuseRoll
  | bindInstrument (spec : InstrumentSpec)
  | bindPerp (sym : SymbolId) (slot : Nat)
  | seedPerp (sym : SymbolId) (pos avgPx dayOpen : Int)
  | onMark (sym : SymbolId) (mark index : Int) (tsNs : Nat)
  | expireMarks (nowNs : Nat)
  | onOptSummary (summary : OptSummary)
  | observeMonoClock (monoNs : Nat)
  | adoptVenueDayTurnover (slot day : Nat) (bought : Int)
  | markSeeded
  | markSlotSeeded (slot : Nat)
  deriving DecidableEq, Repr

def step : Op → Ledger
  | .onSubmit oid slot sym qty buy px => { l with resting := l.resting.onSubmit oid slot sym qty buy px }
  | .onCancel oid slot => { l with resting := l.resting.onCancel oid slot }
  | .onRetired oid slot => { l with resting := l.resting.onRetired oid slot }
  | .onModify prev oid slot sym qty buy px =>
    { l with resting := l.resting.onModify prev oid slot sym qty buy px }
  | .onModifyAsked prev oid slot qty px => { l with resting := l.resting.onModifyAsked prev oid slot qty px }
  | .clearRestingSlot slot => { l with resting := l.resting.clearRestingSlot slot }
  | .bookFill fill => l.bookFill fill
  | .bind venue family outcome yes => l.bind venue family outcome yes
  | .settle venue family outcome => l.settle venue family outcome
  | .refuseRoll => l.refuseRoll
  | .bindInstrument spec => (l.bindInstrument spec).1
  | .bindPerp sym slot => (l.bindPerp sym slot).1
  | .seedPerp sym pos avgPx dayOpen => (l.seedPerp sym pos avgPx dayOpen).1
  | .onMark sym mark index tsNs => { l with inst := l.inst.onMark sym mark index tsNs }
  | .expireMarks nowNs => { l with inst := l.inst.expireMarks nowNs }
  | .onOptSummary summary => { l with inst := l.inst.onOptSummary summary }
  | .observeMonoClock monoNs => l.observeMonoClock monoNs
  | .adoptVenueDayTurnover slot day bought => l.adoptVenueDayTurnover slot day bought
  | .markSeeded => l.markSeeded
  | .markSlotSeeded slot => l.markSlotSeeded slot

theorem seedPerp_cases (sym : SymbolId) (pos avgPx dayOpen : Int) :
    (l.seedPerp sym pos avgPx dayOpen).1 = l ∨
      ∃ i, l.inst.perpFind sym = some i ∧ (l.inst.rows i).has instSeeded = false ∧ 0 ≤ dayOpen ∧
        (l.inst.rows i).owner < execSlots ∧ (l.seedPerp sym pos avgPx dayOpen).1 = l.seedRow i pos avgPx dayOpen := by
  unfold seedPerp
  split
  · exact .inl rfl
  rename_i i found
  split
  · exact .inl rfl
  rename_i fresh
  split
  · exact .inl rfl
  rename_i sane
  split
  · exact .inl rfl
  · exact .inr ⟨i, found, by simpa using fresh, by omega, by omega, rfl⟩

theorem bookFill_cases (fill : Fill) :
    let rolled := { l with day := l.day.rollDay fill.tsNs }
    (fill.origin ≠ .venue ∧ l.bookFill fill = l) ∨
    (fill.origin = .venue ∧ fill.strategyId ≥ execSlots ∧ ∃ counters,
      l.bookFill fill = { rolled with counters := counters }) ∨
    (fill.origin = .venue ∧ fill.strategyId < execSlots ∧ ∃ i, l.inst.instFind fill.sym = some i ∧
      l.bookFill fill = rolled.bookInstrumentFill i fill fill.strategyId) ∨
    (fill.origin = .venue ∧ fill.strategyId < execSlots ∧ l.inst.instFind fill.sym = none ∧
      l.bookFill fill = rolled.bookFamilyFill fill fill.strategyId) := by
  unfold bookFill
  split
  · rename_i foreign
    exact .inl ⟨foreign, rfl⟩
  rename_i venue
  have venue : fill.origin = .venue := by simpa using venue
  dsimp only
  split
  · rename_i unknown
    exact .inr (.inl ⟨venue, unknown, _, rfl⟩)
  rename_i known
  split
  · rename_i i found
    exact .inr (.inr (.inl ⟨venue, by omega, i, found, rfl⟩))
  · rename_i missing
    exact .inr (.inr (.inr ⟨venue, by omega, missing, rfl⟩))

/-- A frame that names no instance the ledger can hold. -/
def BadRoll (family outcome : Nat) (yes : SymbolId) : Prop :=
  outcome = 0 ∨ yes = symbolIdNone ∨ family ≥ ledgerRows ∨ symbolOrdinal yes ≥ symbolOrdinalMask

variable (venue family outcome : Nat) (yes : SymbolId)

theorem bind_cases :
    ((BadRoll family outcome yes ∨ (l.rows.familyRow venue family = none ∧ l.rows.freeRow = none)) ∧
      l.bind venue family outcome yes = l.refuseRoll) ∨
    (¬ BadRoll family outcome yes ∧
      ((∃ i, l.rows.familyRow venue family = some i ∧ (l.rows i).outcome = outcome ∧ (l.rows i).settled = false ∧
        l.bind venue family outcome yes = l) ∨
      (∃ i, l.rows.familyRow venue family = some i ∧ ((l.rows i).outcome ≠ outcome ∨ (l.rows i).settled = true) ∧
        l.bind venue family outcome yes = l.retireRow i outcome yes (yes + 1)) ∨
      (l.rows.familyRow venue family = none ∧ ∃ i counters, l.rows.freeRow = some i ∧
        l.bind venue family outcome yes = { l with
          rows := update l.rows i (instanceRow venue family outcome yes), counters := counters }))) := by
  unfold bind
  split
  · rename_i bad
    exact .inl ⟨.inl (by unfold BadRoll; tauto), rfl⟩
  rename_i good
  split
  · rename_i ordinal
    exact .inl ⟨.inl (.inr (.inr (.inr ordinal))), rfl⟩
  rename_i ordinal
  have sound : ¬ BadRoll family outcome yes := by
    unfold BadRoll
    tauto
  split
  · rename_i i found
    split
    · rename_i same
      exact .inr ⟨sound, .inl ⟨i, found, same.1, same.2, rfl⟩⟩
    rename_i differs
    refine .inr ⟨sound, .inr (.inl ⟨i, found, ?_, rfl⟩)⟩
    rw [not_and_or, Bool.not_eq_false] at differs
    exact differs
  · rename_i missing
    split
    · rename_i full
      exact .inl ⟨.inr ⟨missing, full⟩, rfl⟩
    · rename_i i free
      exact .inr ⟨sound, .inr (.inr ⟨missing, i, _, free, rfl⟩)⟩

theorem settle_cases :
    ((outcome = 0 ∨ l.rows.outcomeRow venue outcome = none) ∧ l.settle venue family outcome = l.settleUnmatched) ∨
    (outcome ≠ 0 ∧ ∃ i, l.rows.outcomeRow venue outcome = some i ∧
      (((l.rows i).settled = true ∧ l.settle venue family outcome = l) ∨
      ((l.rows i).settled = false ∧ ∃ counters, l.settle venue family outcome = { l with
        resting := l.resting.dropRestingOn (l.rows i).symYes (l.rows i).symNo
        rows := update l.rows i { l.rows i with settled := true }
        counters := counters }))) := by
  unfold settle
  split
  · rename_i zero
    exact .inl ⟨.inl zero, rfl⟩
  rename_i named
  split
  · rename_i missing
    exact .inl ⟨.inr missing, rfl⟩
  rename_i i found
  dsimp only
  split
  · rename_i settled
    exact .inr ⟨named, i, found, .inl ⟨settled, rfl⟩⟩
  · rename_i live
    exact .inr ⟨named, i, found, .inr ⟨by simpa using live, _, rfl⟩⟩

/-- What a roll leaves alone: everything but the rows, the resting orders and the counters. -/
structure SameBooks (l l' : Ledger) : Prop where
  inst : l'.inst = l.inst
  day : l'.day = l.day
  seeded : l'.seeded = l.seeded
  anchor : l'.anchor = l.anchor

theorem bind_sameBooks : SameBooks l (l.bind venue family outcome yes) := by
  rcases l.bind_cases venue family outcome yes with
    ⟨_, refused⟩ | ⟨_, ⟨_, _, _, _, same⟩ | ⟨_, _, _, taken⟩ | ⟨_, _, _, _, fresh⟩⟩
  · rw [refused]; exact ⟨rfl, rfl, rfl, rfl⟩
  · rw [same]; exact ⟨rfl, rfl, rfl, rfl⟩
  · rw [taken]; exact ⟨rfl, rfl, rfl, rfl⟩
  · rw [fresh]; exact ⟨rfl, rfl, rfl, rfl⟩

theorem settle_sameBooks : SameBooks l (l.settle venue family outcome) := by
  rcases l.settle_cases venue family outcome with ⟨_, unmatched⟩ | ⟨_, _, _, ⟨_, same⟩ | ⟨_, _, settled⟩⟩
  · rw [unmatched]; exact ⟨rfl, rfl, rfl, rfl⟩
  · rw [same]; exact ⟨rfl, rfl, rfl, rfl⟩
  · rw [settled]; exact ⟨rfl, rfl, rfl, rfl⟩

def Reachable : Prop := ∃ anchor ops, l = run step (new anchor) ops

theorem Reachable.step {l : Ledger} (reach : l.Reachable) (op : Op) : (l.step op).Reachable := by
  obtain ⟨anchor, ops, rfl⟩ := reach
  exact ⟨anchor, ops ++ [op], (run_concat _ _ ops op).symm⟩

theorem reachable_invariant {P : Ledger → Prop} (start : ∀ anchor, P (new anchor))
    (keep : ∀ l op, P l → P (l.step op)) {l : Ledger} (reach : l.Reachable) : P l := by
  obtain ⟨anchor, ops, rfl⟩ := reach
  exact run_invariant (start anchor) keep ops

end Ledger

end TradingEngine.Router
